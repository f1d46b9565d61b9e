import Keraunos.Node.State

/-!
# The network graph (`graph/mod.rs`)

Validated gossip, stored as adjacency for the router. Fees are exact integers. What the signatures
of gossip messages cover is a parameter.
-/

open Bitcoin

/-- The signed payloads of the gossip messages. -/
structure GossipPayloads where
  channelAnnouncement : Wire.ChannelAnnouncement → List UInt8
  channelUpdate : Wire.ChannelUpdate → List UInt8
  nodeAnnouncement : Wire.NodeAnnouncement → List UInt8

/-- One direction's forwarding policy. -/
structure DirectionalInfo where
  timestamp : Nat
  enabled : Bool
  cltvExpiryDelta : Nat
  htlcMinimumMsat : Msat
  htlcMaximumMsat : Msat
  feeBaseMsat : Nat
  feeProportionalMillionths : Nat
  /-- The maximum is a `u64`. -/
  maximum_lt : htlcMaximumMsat < 2 ^ 64
  deriving DecidableEq

/-- The fee this direction charges to forward `amount`. -/
def DirectionalInfo.feeFor (p : DirectionalInfo) (amount : Msat) : Msat :=
  p.feeBaseMsat + amount * p.feeProportionalMillionths / 1000000

structure ChannelInfo where
  node1 : PublicKey
  node2 : PublicKey
  capacitySat : Option Nat
  /-- Policy for forwarding from node 1. -/
  oneToTwo : Option DirectionalInfo := none
  twoToOne : Option DirectionalInfo := none

structure NodeInfo where
  lastTimestamp : Nat := 0
  aliasBytes : Bytes32 := Vector.replicate 32 0
  channels : List ShortChannelId := []

structure NetworkGraph where
  chainHash : Bytes32
  channels : Table ShortChannelId ChannelInfo := ∅
  nodes : Table PublicKey NodeInfo := ∅

/-- A directed edge as the router sees it, without its head. -/
structure Edge where
  shortChannelId : ShortChannelId
  source : PublicKey
  policy : DirectionalInfo
  capacitySat : Option Nat
  deriving DecidableEq

namespace NetworkGraph

/-- `NetworkGraph::new`. -/
def new (network : Network) : NetworkGraph := { chainHash := network.chainHash }

/-- The channels that a node is part of. -/
def channelsOf (g : NetworkGraph) (node : PublicKey) : List ShortChannelId :=
  ((g.nodes.lookup node).map (·.channels)).getD []

/-- The policy to reach `node` over a channel belongs to the node the HTLC comes from. -/
def edgeOf (node : PublicKey) (scid : ShortChannelId) (chan : ChannelInfo) : Option Edge :=
  let (source, policy) :=
    if chan.node1 = node then (chan.node2, chan.twoToOne) else (chan.node1, chan.oneToTwo)
  policy.bind fun policy =>
    if policy.enabled then some ⟨scid, source, policy, chan.capacitySat⟩ else none

/-- Directed edges usable to reach `node`. -/
def edgesInto (g : NetworkGraph) (node : PublicKey) : List Edge :=
  (g.channelsOf node).filterMap fun scid => (g.channels.lookup scid).bind (edgeOf node scid)

/-- The edge over a channel into one of its nodes. -/
structure IsEdge (node : PublicKey) (scid : ShortChannelId) (chan : ChannelInfo) (e : Edge) : Prop where
  scid : e.shortChannelId = scid
  capacity : e.capacitySat = chan.capacitySat
  enabled : e.policy.enabled = true
  direction : chan.node1 = node ∧ e.source = chan.node2 ∧ chan.twoToOne = some e.policy ∨
    chan.node1 ≠ node ∧ e.source = chan.node1 ∧ chan.oneToTwo = some e.policy

theorem edgeOf_eq_some {node : PublicKey} {scid : ShortChannelId} {chan : ChannelInfo} {e : Edge}
    (h : edgeOf node scid chan = some e) : IsEdge node scid chan e := by
  unfold edgeOf at h
  by_cases hnode : chan.node1 = node
  · rw [if_pos hnode] at h
    obtain ⟨policy, hpolicy, h⟩ := Option.bind_eq_some_iff.1 h
    split at h
    · next henabled =>
      obtain rfl := Option.some.inj h
      exact ⟨rfl, rfl, henabled, .inl ⟨hnode, rfl, hpolicy⟩⟩
    · cases h
  · rw [if_neg hnode] at h
    obtain ⟨policy, hpolicy, h⟩ := Option.bind_eq_some_iff.1 h
    split at h
    · next henabled =>
      obtain rfl := Option.some.inj h
      exact ⟨rfl, rfl, henabled, .inr ⟨hnode, rfl, hpolicy⟩⟩
    · cases h

theorem mem_edgesInto {g : NetworkGraph} {node : PublicKey} {e : Edge} (h : e ∈ g.edgesInto node) :
    ∃ chan, g.channels.lookup e.shortChannelId = some chan ∧ IsEdge node e.shortChannelId chan e := by
  obtain ⟨scid, -, h⟩ := List.mem_filterMap.1 h
  obtain ⟨chan, hchan, h⟩ := Option.bind_eq_some_iff.1 h
  have hedge := edgeOf_eq_some h
  obtain rfl := hedge.scid
  exact ⟨chan, hchan, hedge⟩

/-- The entries in the channel lists of all nodes. -/
def size (g : NetworkGraph) : Nat := (g.nodes.entries.map fun n => n.2.channels.length).sum

/-! ## Gossip -/

section
variable (C : Crypto) (payloads : GossipPayloads)

/-- Note on a node that it has this channel. -/
def addToNode (scid : ShortChannelId) (nodes : Table PublicKey NodeInfo) (node : PublicKey) :
    Table PublicKey NodeInfo :=
  let info := (nodes.lookup node).getD {}
  nodes.insert node { info with channels := info.channels ++ [scid] }

def applyChannelAnnouncement (g : NetworkGraph) (msg : Wire.ChannelAnnouncement)
    (capacitySat : Option Nat) : Except GossipError NetworkGraph :=
  if msg.chainHash ≠ g.chainHash then .error .wrongChain
  else if (g.channels.lookup msg.shortChannelId).isSome then .error .ignored
  -- The ordering is consensus.
  else if ¬ msg.nodeId1.serialize < msg.nodeId2.serialize then .error .badSignature
  else
    let hash := C.sha256d (payloads.channelAnnouncement msg)
    if !C.verifyEcdsa hash msg.nodeSignature1 msg.nodeId1 ||
        !C.verifyEcdsa hash msg.nodeSignature2 msg.nodeId2 ||
        !C.verifyEcdsa hash msg.bitcoinSignature1 msg.bitcoinKey1 ||
        !C.verifyEcdsa hash msg.bitcoinSignature2 msg.bitcoinKey2 then .error .badSignature
    else .ok
      { g with
        channels := g.channels.insert msg.shortChannelId
          { node1 := msg.nodeId1, node2 := msg.nodeId2, capacitySat }
        nodes := [msg.nodeId1, msg.nodeId2].foldl (addToNode msg.shortChannelId) g.nodes }

/-- The policy that an update announces; its maximum is a `u64`. -/
def policyOf (msg : Wire.ChannelUpdate) : DirectionalInfo where
  timestamp := msg.timestamp
  enabled := msg.channelFlags &&& 2 = 0
  cltvExpiryDelta := msg.cltvExpiryDelta
  htlcMinimumMsat := msg.htlcMinimumMsat
  htlcMaximumMsat := msg.htlcMaximumMsat % 2 ^ 64
  feeBaseMsat := msg.feeBaseMsat
  feeProportionalMillionths := msg.feeProportionalMillionths
  maximum_lt := Nat.mod_lt _ (by decide)

def applyChannelUpdate (g : NetworkGraph) (msg : Wire.ChannelUpdate) :
    Except GossipError NetworkGraph :=
  if msg.chainHash ≠ g.chainHash then .error .wrongChain
  else
    match g.channels.lookup msg.shortChannelId with
    | none => .error .unknownChannel
    | some chan =>
      let fromNode1 : Bool := msg.channelFlags &&& 1 = 0
      let signer := if fromNode1 then chan.node1 else chan.node2
      if !C.verifyEcdsa (C.sha256d (payloads.channelUpdate msg)) msg.signature signer then
        .error .badSignature
      else
        let slot := if fromNode1 then chan.oneToTwo else chan.twoToOne
        if slot.any fun existing => existing.timestamp ≥ msg.timestamp then .error .ignored
        else
          let chan :=
            if fromNode1 then { chan with oneToTwo := some (policyOf msg) }
            else { chan with twoToOne := some (policyOf msg) }
          .ok { g with channels := g.channels.insert msg.shortChannelId chan }

def applyNodeAnnouncement (g : NetworkGraph) (msg : Wire.NodeAnnouncement) :
    Except GossipError NetworkGraph :=
  if !C.verifyEcdsa (C.sha256d (payloads.nodeAnnouncement msg)) msg.signature msg.nodeId then
    .error .badSignature
  else
    match g.nodes.lookup msg.nodeId with
    | none => .error .unknownChannel
    | some info =>
      if info.lastTimestamp ≥ msg.timestamp then .error .ignored
      else .ok
        { g with
          nodes := g.nodes.insert msg.nodeId
            { info with lastTimestamp := msg.timestamp, aliasBytes := msg.aliasBytes } }

end

end NetworkGraph
