import Keraunos.Channel.Pair
import Keraunos.Node.Payments

/-!
# The node as a machine (`node/mod.rs`)

Peers, the dispatch of peer messages, and the calls of the embedder: `Node.step`. A run of it from
`Node.new` is a life of a node.
-/

open Bitcoin

namespace Node

variable {E : Env}

/-! ## Peers -/

/-- Register a connection. -/
def addPeer (transport : E.Transport) (nodeId : Option PublicKey) : NodeAct E PeerId := do
  let n ← get
  set { n with
    nextPeer := n.nextPeer + 1
    peers := n.peers.insert n.nextPeer { transport, nodeId } }
  return n.nextPeer

def setByNodeId (nodeId : PublicKey) (peer : PeerId) : NodeAct E Unit :=
  modify fun n => { n with byNodeId := n.byNodeId.insert nodeId peer }

/-- Start an outbound connection: the token and the bytes to write. -/
def connectOutbound (remote : PublicKey) : NodeAct E (PeerId × E.Data) := do
  let ephemeral ← randomSecretKey
  let (transport, act1) := E.newOutbound remote ephemeral
  let id ← addPeer transport (some remote)
  setByNodeId remote id
  return (id, act1)

/-- Register an accepted inbound connection. -/
def acceptInbound : NodeAct E PeerId := do
  let ephemeral ← randomSecretKey
  addPeer (E.newInbound ephemeral) none

/-- The transport dropped: the channels with this peer roll back. -/
def peerDisconnected (peer : PeerId) : NodeAct E Unit := do
  let n ← get
  match n.peers.lookup peer with
  | none => return
  | some p => do
    set { n with peers := n.peers.erase peer }
    match p.nodeId with
    | none => return
    | some nodeId => do
      modify fun n => { n with byNodeId := n.byNodeId.erase nodeId }
      let n ← get
      let ids := n.channelsInOrder.filter fun id =>
        (n.channels.lookup id).any fun e => e.nodeId = nodeId
      ids.forM fun id => onChannel id .disconnect
      event (.peerDisconnected peer)

def sendInit (peer : PeerId) : NodeAct E Unit := do
  let n ← get
  sendToPeer peer
    (.init ⟨[], Features.keraunosDefault, some [n.config.network.chainHash]⟩)
  let n ← get
  match n.peers.lookup peer with
  | some p => setPeer peer { p with initSent := true }
  | none => return

/-- `channel_reestablish` for the channels with this node that have been funded. -/
def reestablishMessages (n : Node E) (nodeId : PublicKey) : List Wire.ChannelReestablish :=
  ((n.channelsInOrder.filterMap n.channels.lookup).filter fun e =>
    e.nodeId = nodeId && e.channel.state ≠ .openSent && e.channel.state ≠ .acceptSent).map
    fun e => e.channel.makeChannelReestablish E.C

def onInit (peer : PeerId) (init : Wire.Init) : NodeAct E Unit := do
  let n ← get
  let combined := init.features.or init.globalFeatures
  match combined.unknownRequiredBits Features.knownEvenBits with
  | some bit => do
    sendWarning peer ("unsupported required feature bit " ++ toString bit)
    peerDisconnected peer
  | none =>
    if init.networks.any fun networks => n.config.network.chainHash ∉ networks then do
      sendWarning peer "no chain in common"
      peerDisconnected peer
    else do
      let p ← Act.okOr (n.peers.lookup peer) .peerNotFound
      let p := { p with features := combined, initReceived := true }
      setPeer peer p
      match p.nodeId with
      | some nodeId =>
        if peerReady p then do
          event (.peerConnected peer nodeId)
          let n ← get
          (n.reestablishMessages nodeId).forM fun re => sendToPeer peer (.channelReestablish re)
      | none => return

/-! ## Messages -/

/-- Send messages of the channel `id` to its peer. -/
def sendAllFor (id : ChannelId) (msgs : List Wire.Message) : NodeAct E Unit := do
  let n ← get
  let entry ← Act.expect (n.channels.lookup id)
  msgs.forM fun msg => sendFor entry msg

def onCommitmentSigned (peer : PeerId) (cs : Wire.CommitmentSigned) : NodeAct E Unit := do
  let raa ← withChannel peer cs.channelId (.commitmentSigned cs)
  sendAllFor cs.channelId [.revokeAndAck raa]
  flushCommitment cs.channelId
  tryStartClosing cs.channelId

def onRevokeAndAck (peer : PeerId) (raa : Wire.RevokeAndAck) : NodeAct E Unit := do
  let outcome ← withChannel peer raa.channelId (.revokeAndAck raa)
  sendAllFor raa.channelId (RaaOutcome.toSend outcome)
  outcome.failedAdds.forM fun f => onHtlcFailedLocally f.1
  outcome.forwardable.forM fun htlc => processCommittedHtlc raa.channelId htlc
  tryStartClosing raa.channelId

def onShutdown (peer : PeerId) (msg : Wire.Shutdown) : NodeAct E Unit := do
  let n ← get
  match ← withChannel peer msg.channelId (.shutdown msg n.config.closeScript) with
  | some reply => sendAllFor msg.channelId [.shutdown reply]
  | none => pure ()
  tryStartClosing msg.channelId

def onChannelReestablish (peer : PeerId) (msg : Wire.ChannelReestablish) : NodeAct E Unit := do
  let actions ← withChannel peer msg.channelId (.channelReestablish msg)
  if actions.dataLossDetected then event (.dataLossDetected msg.channelId)
  else sendAllFor msg.channelId actions.messages

/-- Gossip that enters the graph is spread. -/
def onGossip (graph : Except GossipError E.Graph) (msg : Wire.Message) : NodeAct E Unit := do
  match graph with
  | .ok graph => do
    modify fun n => { n with graph }
    broadcastToReadyPeers msg
  | .error _ => return

def handleMessage (peer : PeerId) (msg : Wire.Message) : NodeAct E Unit := do
  let n ← get
  match msg with
  | .init init => onInit peer init
  | .ping ping =>
    if ping.numPongBytes ≥ 65532 then return
    else sendToPeer peer (.pong ⟨List.replicate ping.numPongBytes 0⟩)
  | .pong _ =>
    match n.peers.lookup peer with
    | some p => setPeer peer { p with awaitingPong := false }
    | none => return
  | .error e =>
    if e.channelId ≠ zeroChannelId ∧ (n.channels.lookup e.channelId).isSome then
      forceClose e.channelId ("peer error: " ++ E.lossyText e.data)
  | .warning _ => return
  | .openChannel open_ => onOpenChannel peer open_
  | .acceptChannel accept => onAcceptChannel peer accept
  | .fundingCreated fc => onFundingCreated peer fc
  | .fundingSigned fs => onFundingSigned peer fs
  | .channelReady cr => do
    withChannel peer cr.channelId (.channelReady cr)
    afterChannelReadyChange cr.channelId
  | .updateAddHtlc add => withChannel peer add.channelId (.updateAddHtlc add)
  | .updateFulfillHtlc ful => do
    let (source, _) ← withChannel peer ful.channelId (.updateFulfillHtlc ful)
    onHtlcFulfilled source ful.paymentPreimage
  | .updateFailHtlc fail => do
    let (source, _) ← withChannel peer fail.channelId (.updateFailHtlc fail)
    onHtlcFailed source (some fail.reason) none
  | .updateFailMalformedHtlc fail => do
    let (source, _) ← withChannel peer fail.channelId (.updateFailMalformedHtlc fail)
    onHtlcFailed source none (some fail.failureCode)
  | .updateFee uf => withChannel peer uf.channelId (.updateFee uf)
  | .commitmentSigned cs => onCommitmentSigned peer cs
  | .revokeAndAck raa => onRevokeAndAck peer raa
  | .shutdown sd => onShutdown peer sd
  | .closingSigned cs => onClosingSigned peer cs
  | .channelReestablish re => onChannelReestablish peer re
  | .announcementSignatures anns => onAnnouncementSignatures peer anns
  | .channelAnnouncement ca => onGossip (E.applyChannelAnnouncement n.graph ca none) msg
  | .channelUpdate cu => onGossip (E.applyChannelUpdate n.graph cu) msg
  | .nodeAnnouncement na => onGossip (E.applyNodeAnnouncement n.graph na) msg
  | .gossipTimestampFilter _ => return
  | .unknown t _ =>
    if t % 2 = 0 then sendWarning peer ("unknown even message type " ++ toString t)

/-- What is read from a socket: a message, or bytes that are none. -/
def handleDecoded (peer : PeerId) : Except Wire.WireError Wire.Message → NodeAct E Unit
  | .ok msg => handleMessage peer msg
  | .error (.unknownMessageType t) =>
    sendWarning peer ("unknown required message type " ++ toString t)
  | .error _ => return

/-- The handshake is complete. -/
def becomeReady (peer : PeerId) : Option PublicKey → NodeAct E Unit
  | some nodeId => do
    setByNodeId nodeId peer
    sendInit peer
  | none => sendInit peer

/-- The transport's part of `peer_input`: the decoded messages. -/
def readInput (peer : PeerId) (data : E.Data) :
    NodeAct E (List (Except Wire.WireError Wire.Message)) := do
  let n ← get
  let p ← Act.okOr (n.peers.lookup peer) .peerNotFound
  let input := E.input p.transport data
  let p' := { p with transport := input.transport, nodeId := input.nodeId <|> p.nodeId }
  setPeer peer p'
  match input.result with
  | .error (.err e) => Act.fail (.noise e)
  | .error .panic => Act.panic
  | .ok (toSend, messages) => do
    toSend.forM fun bytes => emit (.wire peer bytes)
    if !E.isTransport p.transport && E.isTransport p'.transport then
      becomeReady peer p'.nodeId
    return messages

/-- Feed bytes read from a peer's socket. -/
def peerInput (peer : PeerId) (data : E.Data) : NodeAct E Unit := do
  let messages ← readInput peer data
  messages.forM fun msg => handleDecoded peer msg

/-! ## The machine -/

/-- Logical time: pings that are due. -/
def tick (unixNow : Nat) : NodeAct E Unit := do
  modify fun n => { n with now := unixNow }
  let n ← get
  let due := n.peersInOrder.filter fun id =>
    (n.peers.lookup id).any fun p => peerReady p && p.lastPingSentAt + 30 ≤ unixNow
  due.forM fun id => do
    ignoreErrors (sendToPeer id (.ping ⟨1, []⟩))
    let n ← get
    match n.peers.lookup id with
    | some p => setPeer id { p with lastPingSentAt := unixNow, awaitingPong := true }
    | none => pure ()

/-- Pop the next pending effect. -/
def pollOutput : NodeAct E (Option (Output E.Data)) := do
  let n ← get
  set { n with outputs := n.outputs.tail }
  record .polled
  return n.outputs.head?

/-- The calls of the embedder. -/
inductive Input (E : Env) where
  | connectOutbound (remote : PublicKey)
  | acceptInbound
  | peerInput (peer : PeerId) (data : E.Data)
  | peerDisconnected (peer : PeerId)
  | tick (unixNow : Nat)
  | bestBlockUpdated (height : Nat)
  | fundingConfirmed (id : ChannelId) (scid : ShortChannelId)
  | openChannel (nodeId : PublicKey) (capacitySat : Nat) (pushMsat : Msat)
  | provideFundingTransaction (id : ChannelId) (tx : Transaction)
  | closeChannel (id : ChannelId)
  | forceClose (id : ChannelId) (reason : String)
  | createInvoice (amountMsat : Option Msat) (description : String) (expirySecs : Nat)
  | payInvoice (invoice : Bolt11Invoice) (amountMsat : Option Msat)
  | claimPayment (hash : PaymentHash)
  | pollOutput

def step : Input E → NodeAct E Unit
  | .connectOutbound remote => (fun _ => ()) <$> connectOutbound remote
  | .acceptInbound => (fun _ => ()) <$> acceptInbound
  | .peerInput peer data => peerInput peer data
  | .peerDisconnected peer => peerDisconnected peer
  | .tick unixNow => tick unixNow
  | .bestBlockUpdated height => modify fun n => { n with bestHeight := height }
  | .fundingConfirmed id scid => fundingConfirmed id scid
  | .openChannel nodeId capacitySat pushMsat =>
    (fun _ => ()) <$> openChannel nodeId capacitySat pushMsat
  | .provideFundingTransaction id tx => (fun _ => ()) <$> provideFundingTransaction id tx
  | .closeChannel id => closeChannel id
  | .forceClose id reason => do
    record (.ordered id)
    forceClose id reason
  | .createInvoice amountMsat description expirySecs =>
    (fun _ => ()) <$> createInvoice amountMsat description expirySecs
  | .payInvoice invoice amountMsat => (fun _ => ()) <$> payInvoice invoice amountMsat
  | .claimPayment hash => claimPayment hash
  | .pollOutput => (fun _ => ()) <$> pollOutput

end Node

/-! ## A concrete node -/

namespace Demo

/-- The key of node `n`. -/
def nodeKey (n : Nat) : PublicKey := C.publicKey ⟨bytes n⟩

/-- The first usable channel, as a route of one hop. -/
def directRoute (p : RouteParams) : Except RouteError Route :=
  match p.firstHops with
  | [] => .error .noPath
  | h :: _ => .ok ⟨[⟨h.peer, h.shortChannelId, p.amountMsat, p.finalCltvExpiry⟩], p.amountMsat,
      p.finalCltvExpiry⟩

/-- A transport that delivers messages as they are. -/
def env : Env where
  C := C
  Data := List Wire.Message
  Transport := Bool
  newOutbound _ _ := (false, [])
  newInbound _ := false
  isTransport := id
  input _ data := ⟨true, none, .ok ([], data.map .ok)⟩
  encrypt t msg := (t, .ok [msg])
  identified _ := true
  identified_outbound _ _ := rfl
  identified_revealed _ _ _ := rfl
  identified_input _ _ _ := rfl
  identified_encrypt _ _ _ := rfl
  input_identified _ _ _ := rfl
  nodeId := nodeKey 2
  deriveChannelSigner n := signer (n + 2)
  ecdh pk := C.ecdh pk ⟨bytes 2⟩
  signGossip := C.signEcdsa ⟨bytes 2⟩
  Entropy := Nat
  randomBytes n := (bytes (1000 + n), n + 1)
  randomSecretKey n := (⟨bytes (1000 + n)⟩, n + 1)
  Graph := Unit
  newGraph _ := ()
  applyChannelAnnouncement _ _ _ := .error .ignored
  applyChannelUpdate _ _ := .error .ignored
  applyNodeAnnouncement _ _ := .error .ignored
  findRoute _ := directRoute
  parseOnion _ := none
  encodePayload _ := []
  decodePayload _ := none
  sharedSecretsForPath sk path := path.map fun pk => C.ecdh pk sk
  encodeInvoice _ := ""
  announcementPayload _ := []
  updatePayload _ := []
  lossyText _ := ""
  peerOrder := id
  channelOrder := id
  peerOrder_perm _ := .refl _
  channelOrder_perm _ := .refl _

def config : NodeConfig := { network := .regtest, closeScript := [] }

def node : Node env := Node.new env (0 : Nat) config

/-- Connect to node 1 and receive these messages from it after its `init`. -/
def meets (msgs : List Wire.Message) : List (Node.Input env) :=
  [.connectOutbound (nodeKey 1),
    .peerInput 1 (Wire.Message.init ⟨[], Features.keraunosDefault, none⟩ :: msgs : List Wire.Message)]

/-- What `a` sends in these steps of the pair. -/
def aliceSays (steps : List Pair.Input) : List Wire.Message :=
  ((Run.exec (Pair.step C) start steps).map fun r => r.1.flatMap fun x =>
    match x with
    | (.command .a _, .ok msgs) | (.deliver .a, .ok msgs) => msgs
    | _ => []).getD []

/-- The id of the channel that node 1 opens, once it is funded. -/
def fundedId : ChannelId := channelIdFromFunding (bytes 9) 0

/-- Node 1 opens a channel and funds it. -/
def funds : List Wire.Message := .openChannel alice.2 :: (aliceSays handshake).take 1

/-- The channel of node 1 becomes usable. -/
def opens : List (Node.Input env) :=
  meets funds ++ [.fundingConfirmed fundedId 5,
    .peerInput 1 ((aliceSays handshake).drop 1 : List Wire.Message)]

/-- Node 1 offers an HTLC on the channel and signs for it. -/
def pays : List Wire.Message := (aliceSays (handshake ++ payment.take 2)).drop 2

end Demo
