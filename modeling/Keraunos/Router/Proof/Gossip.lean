import Keraunos.Lib.Latest
import Keraunos.Router.FindRoute

/-!
# The graph over runs of gossip

Every call either fails and leaves the graph as it is, or does one thing: it adds a channel and lists
it at its two ends, replaces the policy of one direction by a later one, or renames a node. So the
lists of the nodes and the table of the channels agree after any calls (`adjacent_hearAll`), and each
direction of a channel is a register that keeps the latest policy (`slot_hear`).
-/

open Bitcoin

/-- A call that brings gossip to the graph. -/
inductive Gossip where
  | channelAnnouncement (msg : Wire.ChannelAnnouncement) (capacitySat : Option Nat)
  | channelUpdate (msg : Wire.ChannelUpdate)
  | nodeAnnouncement (msg : Wire.NodeAnnouncement)

/-- Store a policy for one direction. -/
def ChannelInfo.setPolicy (chan : ChannelInfo) (fromNode1 : Bool) (p : DirectionalInfo) : ChannelInfo :=
  if fromNode1 then { chan with oneToTwo := some p } else { chan with twoToOne := some p }

namespace NetworkGraph

section
variable (C : Crypto) (payloads : GossipPayloads) (g : NetworkGraph)

def apply : Gossip → Except GossipError NetworkGraph
  | .channelAnnouncement msg capacitySat => g.applyChannelAnnouncement C payloads msg capacitySat
  | .channelUpdate msg => g.applyChannelUpdate C payloads msg
  | .nodeAnnouncement msg => g.applyNodeAnnouncement C payloads msg

/-- The graph after a call. One that fails leaves it as it is. -/
def hear (m : Gossip) : NetworkGraph := (g.apply C payloads m).toOption.getD g

def hearAll (ms : List Gossip) : NetworkGraph := ms.foldl (hear C payloads) g

/-- The policy of one direction of a channel. -/
def slot (scid : ShortChannelId) (fromNode1 : Bool) : Option DirectionalInfo :=
  (g.channels.lookup scid).bind fun chan => if fromNode1 then chan.oneToTwo else chan.twoToOne

/-- The ends and the capacity of a channel. -/
def fundingOf (scid : ShortChannelId) : Option (PublicKey × PublicKey × Option Nat) :=
  (g.channels.lookup scid).map fun chan => (chan.node1, chan.node2, chan.capacitySat)

/-- A validly signed update of this direction. -/
def announces (scid : ShortChannelId) (fromNode1 : Bool) (msg : Wire.ChannelUpdate) : Bool :=
  decide (msg.chainHash = g.chainHash) && decide (msg.shortChannelId = scid) &&
    (decide (msg.channelFlags &&& 1 = 0) == fromNode1) &&
    (g.fundingOf scid).any fun chan =>
      C.verifyEcdsa (C.sha256d (payloads.channelUpdate msg)) msg.signature
        (if fromNode1 then chan.1 else chan.2.1)

end

/-- The node is an end of the stored channel. -/
def HasEnd (g : NetworkGraph) (node : PublicKey) (scid : ShortChannelId) : Prop :=
  ∃ chan, g.channels.lookup scid = some chan ∧ (chan.node1 = node ∨ chan.node2 = node)

variable {C : Crypto} {payloads : GossipPayloads} {g g' : NetworkGraph}

/-! ## What a call does -/

variable (C payloads g) in
theorem hear_cases (m : Gossip) : g.hear C payloads m = g ∨
    ∃ g', g.apply C payloads m = .ok g' ∧ g.hear C payloads m = g' := by
  unfold hear
  cases g.apply C payloads m with
  | error e => exact .inl rfl
  | ok g' => exact .inr ⟨g', rfl, rfl⟩

theorem applyChannelAnnouncement_eq_ok {msg : Wire.ChannelAnnouncement} {capacitySat : Option Nat}
    (h : g.applyChannelAnnouncement C payloads msg capacitySat = .ok g') :
    g.channels.lookup msg.shortChannelId = none ∧ msg.nodeId1 ≠ msg.nodeId2 ∧
      g' = { g with
        channels := g.channels.insert msg.shortChannelId ⟨msg.nodeId1, msg.nodeId2, capacitySat, none, none⟩
        nodes := [msg.nodeId1, msg.nodeId2].foldl (addToNode msg.shortChannelId) g.nodes } := by
  unfold applyChannelAnnouncement at h
  split at h
  · cases h
  · split at h
    · cases h
    · next hnew =>
      split at h
      · cases h
      · next horder =>
        dsimp only at h
        split at h
        · cases h
        · refine ⟨Option.not_isSome_iff_eq_none.1 hnew, fun heq => ?_, (Except.ok.inj h).symm⟩
          rw [heq] at horder
          exact horder (List.lt_irrefl _)

theorem applyNodeAnnouncement_eq_ok {msg : Wire.NodeAnnouncement}
    (h : g.applyNodeAnnouncement C payloads msg = .ok g') :
    ∃ info, g.nodes.lookup msg.nodeId = some info ∧
      g' = { g with
        nodes := g.nodes.insert msg.nodeId
          { info with lastTimestamp := msg.timestamp, aliasBytes := msg.aliasBytes } } := by
  unfold applyNodeAnnouncement at h
  split at h
  · cases h
  · split at h
    · cases h
    · next info hinfo =>
      split at h
      · cases h
      · exact ⟨info, hinfo, (Except.ok.inj h).symm⟩

variable (C payloads g) in
/-- An update of a direction is stored if it is validly signed and later than what is stored. -/
theorem hear_channelUpdate (msg : Wire.ChannelUpdate) {fromNode1 : Bool}
    (hdirection : decide (msg.channelFlags &&& 1 = 0) = fromNode1) :
    (g.hear C payloads (.channelUpdate msg) = g ∧
      (g.announces C payloads msg.shortChannelId fromNode1 msg = true →
        writeLatest DirectionalInfo.timestamp (g.slot msg.shortChannelId fromNode1) (policyOf msg) =
          g.slot msg.shortChannelId fromNode1)) ∨
    ∃ chan, g.channels.lookup msg.shortChannelId = some chan ∧
      g.announces C payloads msg.shortChannelId fromNode1 msg = true ∧
      writeLatest DirectionalInfo.timestamp (g.slot msg.shortChannelId fromNode1) (policyOf msg) =
        some (policyOf msg) ∧
      g.hear C payloads (.channelUpdate msg) = { g with
        channels := g.channels.insert msg.shortChannelId (chan.setPolicy fromNode1 (policyOf msg)) } := by
  unfold hear apply applyChannelUpdate announces slot fundingOf
  dsimp only
  rw [hdirection]
  by_cases hchain : msg.chainHash = g.chainHash
  · rw [if_neg (not_not.2 hchain)]
    cases hchan : g.channels.lookup msg.shortChannelId with
    | none => exact .inl ⟨rfl, fun h => by simp at h⟩
    | some chan =>
      dsimp only [Option.bind_some, Option.map_some, Option.any_some]
      cases hsigned : C.verifyEcdsa (C.sha256d (payloads.channelUpdate msg)) msg.signature
          (if fromNode1 = true then chan.node1 else chan.node2) with
      | false => exact .inl ⟨rfl, fun h => by simp at h⟩
      | true =>
        rw [Bool.not_true, if_neg Bool.false_ne_true]
        generalize (if fromNode1 = true then chan.oneToTwo else chan.twoToOne) = o
        by_cases hlate : (o.any fun existing => existing.timestamp ≥ msg.timestamp) = true
        · rw [if_pos hlate]
          exact .inl ⟨rfl, fun _ => if_pos hlate⟩
        · rw [if_neg hlate]
          refine .inr ⟨chan, rfl, ?_, if_neg hlate, rfl⟩
          simp [hchain]
  · rw [if_pos hchain]
    exact .inl ⟨rfl, fun h => by simp [hchain] at h⟩

/-! ## The channels of the nodes -/

/-- The lists of the nodes and the table of the channels agree. -/
structure Adjacent (g : NetworkGraph) : Prop where
  distinct : ∀ scid chan, g.channels.lookup scid = some chan → chan.node1 ≠ chan.node2
  once : ∀ node scid, g.HasEnd node scid → (g.channelsOf node).count scid = 1
  absent : ∀ node scid, ¬ g.HasEnd node scid → scid ∉ g.channelsOf node

theorem hasEnd_iff {node : PublicKey} {scid : ShortChannelId} :
    g.HasEnd node scid ↔ ∃ f, g.fundingOf scid = some f ∧ (f.1 = node ∨ f.2.1 = node) := by
  constructor
  · rintro ⟨chan, hchan, hend⟩
    exact ⟨_, Option.map_eq_some_iff.2 ⟨chan, hchan, rfl⟩, hend⟩
  · rintro ⟨f, hf, hend⟩
    obtain ⟨chan, hchan, rfl⟩ := Option.map_eq_some_iff.1 hf
    exact ⟨chan, hchan, hend⟩

/-- Policies, names and stamps do not matter. -/
theorem Adjacent.congr (h : Adjacent g) (hfunding : g'.fundingOf = g.fundingOf)
    (hlists : g'.channelsOf = g.channelsOf) : Adjacent g' := by
  have hends : ∀ node scid, g'.HasEnd node scid ↔ g.HasEnd node scid := by
    intro node scid
    rw [hasEnd_iff, hasEnd_iff, hfunding]
  refine ⟨fun scid chan' hchan' => ?_, fun node scid hend => ?_, fun node scid hend => ?_⟩
  · have hf : g.fundingOf scid = some (chan'.node1, chan'.node2, chan'.capacitySat) := by
      rw [← hfunding]
      exact Option.map_eq_some_iff.2 ⟨chan', hchan', rfl⟩
    obtain ⟨chan, hchan, heq⟩ := Option.map_eq_some_iff.1 hf
    obtain ⟨h₁, h₂, -⟩ := Prod.mk.inj heq |>.imp id Prod.mk.inj
    exact h₁ ▸ h₂ ▸ h.distinct scid chan hchan
  · rw [hlists]
    exact h.once node scid ((hends node scid).1 hend)
  · rw [hlists]
    exact h.absent node scid fun hend' => hend ((hends node scid).2 hend')

theorem fundingOf_insert {scid : ShortChannelId} {chan chan' : ChannelInfo}
    (hchan : g.channels.lookup scid = some chan) (h₁ : chan'.node1 = chan.node1)
    (h₂ : chan'.node2 = chan.node2) (hcap : chan'.capacitySat = chan.capacitySat) :
    fundingOf { g with channels := g.channels.insert scid chan' } = g.fundingOf := by
  funext scid'
  unfold fundingOf
  by_cases hs : scid' = scid
  · subst hs
    rw [AList.lookup_insert, hchan, Option.map_some, Option.map_some, h₁, h₂, hcap]
  · rw [AList.lookup_insert_ne hs]

theorem fundingOf_hear_channelUpdate (msg : Wire.ChannelUpdate) :
    (g.hear C payloads (.channelUpdate msg)).fundingOf = g.fundingOf := by
  rcases hear_channelUpdate C payloads g msg rfl with
    ⟨heq, -⟩ | ⟨chan, hchan, -, -, heq⟩
  · rw [heq]
  · rw [heq]
    unfold ChannelInfo.setPolicy
    split
    · exact fundingOf_insert hchan rfl rfl rfl
    · exact fundingOf_insert hchan rfl rfl rfl

theorem nodes_hear_channelUpdate (msg : Wire.ChannelUpdate) :
    (g.hear C payloads (.channelUpdate msg)).nodes = g.nodes ∧
      (g.hear C payloads (.channelUpdate msg)).chainHash = g.chainHash := by
  rcases hear_channelUpdate C payloads g msg rfl with
    ⟨heq, -⟩ | ⟨chan, -, -, -, heq⟩
  · rw [heq]
    exact ⟨rfl, rfl⟩
  · rw [heq]
    exact ⟨rfl, rfl⟩

theorem Adjacent.channelUpdate (h : Adjacent g) (msg : Wire.ChannelUpdate) :
    Adjacent (g.hear C payloads (.channelUpdate msg)) := by
  refine h.congr (fundingOf_hear_channelUpdate msg) (funext fun node => ?_)
  rw [channelsOf, (nodes_hear_channelUpdate msg).1]
  rfl

theorem Adjacent.nodeAnnouncement (h : Adjacent g) (msg : Wire.NodeAnnouncement) :
    Adjacent (g.hear C payloads (.nodeAnnouncement msg)) := by
  rcases hear_cases C payloads g (.nodeAnnouncement msg) with
    heq | ⟨g', hok, heq⟩
  · rw [heq]
    exact h
  · obtain ⟨info, hinfo, rfl⟩ := applyNodeAnnouncement_eq_ok hok
    rw [heq]
    refine h.congr rfl (funext fun node => ?_)
    unfold channelsOf
    by_cases hnode : node = msg.nodeId
    · subst hnode
      rw [AList.lookup_insert, hinfo]
      rfl
    · rw [AList.lookup_insert_ne hnode]

/-- A node gets one more entry. -/
theorem channels_addToNode (scid : ShortChannelId) (nodes : Table PublicKey NodeInfo)
    (node node' : PublicKey) :
    (((addToNode scid nodes node).lookup node').map (·.channels)).getD [] =
      ((nodes.lookup node').map (·.channels)).getD [] ++ if node' = node then [scid] else [] := by
  unfold addToNode
  by_cases hnode : node' = node
  · subst hnode
    rw [AList.lookup_insert, if_pos rfl]
    cases nodes.lookup node' with
    | none => rfl
    | some info => rfl
  · rw [AList.lookup_insert_ne hnode, if_neg hnode, List.append_nil]

/-- A new channel is listed at its two ends. -/
theorem Adjacent.insert (h : Adjacent g) {scid : ShortChannelId} (chan : ChannelInfo)
    (hnew : g.channels.lookup scid = none) (hne : chan.node1 ≠ chan.node2) :
    Adjacent { g with
      channels := g.channels.insert scid chan
      nodes := [chan.node1, chan.node2].foldl (addToNode scid) g.nodes } := by
  have hlists : ∀ node, channelsOf { g with
      channels := g.channels.insert scid chan
      nodes := [chan.node1, chan.node2].foldl (addToNode scid) g.nodes } node =
      g.channelsOf node ++ (if node = chan.node1 then [scid] else []) ++
        if node = chan.node2 then [scid] else [] := by
    intro node
    show (((addToNode scid (addToNode scid g.nodes chan.node1) chan.node2).lookup node).map
      (·.channels)).getD [] = _
    rw [channels_addToNode, channels_addToNode]
    rfl
  have hnone : ∀ node, scid ∉ g.channelsOf node := fun node => h.absent node scid fun ⟨_, hchan, _⟩ => by
    rw [hnew] at hchan
    cases hchan
  refine ⟨fun scid' chan' hchan' => ?_, fun node scid' hend => ?_, fun node scid' hend => ?_⟩
  · have hlookup : (g.channels.insert scid chan).lookup scid' = some chan' := hchan'
    by_cases hs : scid' = scid
    · rw [hs, AList.lookup_insert] at hlookup
      exact Option.some.inj hlookup ▸ hne
    · rw [AList.lookup_insert_ne hs] at hlookup
      exact h.distinct _ _ hlookup
  · obtain ⟨chan', hchan', hnode⟩ := hend
    have hlookup : (g.channels.insert scid chan).lookup scid' = some chan' := hchan'
    rw [hlists, List.count_append, List.count_append]
    by_cases hs : scid' = scid
    · subst hs
      rw [AList.lookup_insert] at hlookup
      obtain rfl := Option.some.inj hlookup
      rw [List.count_eq_zero_of_not_mem (hnone node)]
      rcases hnode with rfl | rfl
      · simp [hne]
      · simp [hne.symm]
    · rw [AList.lookup_insert_ne hs] at hlookup
      have hother : ∀ c : Prop, [Decidable c] → (if c then [scid] else []).count scid' = 0 := by
        intro c _
        split
        · simp [Ne.symm hs]
        · rfl
      rw [h.once node scid' ⟨chan', hlookup, hnode⟩, hother, hother]
  · have hold : ¬ g.HasEnd node scid' := by
      rintro ⟨chan', hchan', hnode⟩
      refine hend ⟨chan', ?_, hnode⟩
      have hs : scid' ≠ scid := by
        rintro rfl
        rw [hnew] at hchan'
        cases hchan'
      exact (AList.lookup_insert_ne hs).trans hchan'
    have hends : scid' = scid → node ≠ chan.node1 ∧ node ≠ chan.node2 := by
      rintro rfl
      refine ⟨fun heq => hend ⟨chan, AList.lookup_insert _, .inl heq.symm⟩, fun heq => ?_⟩
      exact hend ⟨chan, AList.lookup_insert _, .inr heq.symm⟩
    rw [hlists]
    intro hmem
    rcases List.mem_append.1 hmem with hmem | hmem
    · rcases List.mem_append.1 hmem with hmem | hmem
      · exact h.absent node scid' hold hmem
      · split at hmem
        · next heq => exact (hends (List.mem_singleton.1 hmem)).1 heq
        · cases hmem
    · split at hmem
      · next heq => exact (hends (List.mem_singleton.1 hmem)).2 heq
      · cases hmem

theorem Adjacent.channelAnnouncement (h : Adjacent g) (msg : Wire.ChannelAnnouncement)
    (capacitySat : Option Nat) :
    Adjacent (g.hear C payloads (.channelAnnouncement msg capacitySat)) := by
  rcases hear_cases C payloads g (.channelAnnouncement msg capacitySat) with
    heq | ⟨g', hok, heq⟩
  · rw [heq]
    exact h
  · obtain ⟨hnew, hne, rfl⟩ := applyChannelAnnouncement_eq_ok hok
    rw [heq]
    exact h.insert ⟨msg.nodeId1, msg.nodeId2, capacitySat, none, none⟩ hnew hne

theorem adjacent_hear (h : Adjacent g) (m : Gossip) : Adjacent (g.hear C payloads m) := by
  cases m with
  | channelAnnouncement msg capacitySat => exact h.channelAnnouncement msg capacitySat
  | channelUpdate msg => exact h.channelUpdate msg
  | nodeAnnouncement msg => exact h.nodeAnnouncement msg

theorem adjacent_hearAll (h : Adjacent g) (ms : List Gossip) : Adjacent (g.hearAll C payloads ms) := by
  induction ms generalizing g with
  | nil => exact h
  | cons m ms ih => exact ih (adjacent_hear h m)

theorem adjacent_new (network : Network) : Adjacent (new network) where
  distinct _ _ h := by cases h
  once _ _ h := by
    obtain ⟨_, h, -⟩ := h
    cases h
  absent _ _ _ h := by cases h

/-! ## The edges into a node -/

/-- An enabled direction of a channel towards one of its two ends. -/
structure LeadsInto (g : NetworkGraph) (node : PublicKey) (e : Edge) (chan : ChannelInfo) : Prop where
  stored : g.channels.lookup e.shortChannelId = some chan
  capacity : e.capacitySat = chan.capacitySat
  enabled : e.policy.enabled = true
  direction : chan.node1 = node ∧ e.source = chan.node2 ∧ chan.twoToOne = some e.policy ∨
    chan.node2 = node ∧ e.source = chan.node1 ∧ chan.oneToTwo = some e.policy

theorem Adjacent.mem_channelsOf (h : Adjacent g) {node : PublicKey} {scid : ShortChannelId} :
    scid ∈ g.channelsOf node ↔ g.HasEnd node scid := by
  constructor
  · intro hmem
    by_contra hend
    exact h.absent node scid hend hmem
  · intro hend
    exact List.count_pos_iff.1 (Nat.lt_of_lt_of_eq Nat.one_pos (h.once node scid hend).symm)

theorem edgeOf_eq_some_iff {node : PublicKey} {scid : ShortChannelId} {chan : ChannelInfo} {e : Edge} :
    edgeOf node scid chan = some e ↔ IsEdge node scid chan e := by
  refine ⟨edgeOf_eq_some, fun h => ?_⟩
  obtain ⟨scid', source, policy, capacity⟩ := e
  obtain ⟨rfl, rfl, henabled, hdirection⟩ := h
  unfold edgeOf
  rcases hdirection with ⟨hnode, rfl, hpolicy⟩ | ⟨hnode, rfl, hpolicy⟩
  · rw [if_pos hnode]
    dsimp only
    rw [hpolicy, Option.bind_some, if_pos henabled]
  · rw [if_neg hnode]
    dsimp only
    rw [hpolicy, Option.bind_some, if_pos henabled]

theorem Adjacent.mem_edgesInto (h : Adjacent g) {node : PublicKey} {e : Edge} :
    e ∈ g.edgesInto node ↔ ∃ chan, g.LeadsInto node e chan := by
  constructor
  · intro he
    obtain ⟨scid, hscid, hfound⟩ := List.mem_filterMap.1 he
    obtain ⟨chan, hchan, hedge⟩ := Option.bind_eq_some_iff.1 hfound
    obtain ⟨rfl, hcap, henabled, hdirection⟩ := edgeOf_eq_some hedge
    refine ⟨chan, hchan, hcap, henabled, hdirection.imp id fun ⟨hnode, hrest⟩ => ⟨?_, hrest⟩⟩
    obtain ⟨chan', hchan', hend⟩ := h.mem_channelsOf.1 hscid
    obtain rfl := Option.some.inj (hchan.symm.trans hchan')
    exact hend.resolve_left hnode
  · rintro ⟨chan, hchan, hcap, henabled, hdirection⟩
    have hend : g.HasEnd node e.shortChannelId :=
      ⟨chan, hchan, hdirection.imp (fun hd => hd.1) fun hd => hd.1⟩
    refine List.mem_filterMap.2 ⟨e.shortChannelId, h.mem_channelsOf.2 hend, ?_⟩
    refine Option.bind_eq_some_iff.2 ⟨chan, hchan, edgeOf_eq_some_iff.2 ⟨rfl, hcap, henabled, ?_⟩⟩
    refine hdirection.imp id fun ⟨hnode, hrest⟩ => ⟨fun heq => ?_, hrest⟩
    exact h.distinct _ _ hchan (heq.trans hnode.symm)

theorem Adjacent.nodup_edgesInto (h : Adjacent g) (node : PublicKey) :
    ((g.edgesInto node).map (·.shortChannelId)).Nodup := by
  have hnodup : (g.channelsOf node).Nodup := by
    refine List.nodup_iff_count_le_one.2 fun scid => ?_
    by_cases hend : g.HasEnd node scid
    · exact (h.once node scid hend).le
    · rw [List.count_eq_zero_of_not_mem (h.absent node scid hend)]
      exact Nat.zero_le _
  refine List.pairwise_map.2 (List.Pairwise.filterMap _ (fun scid scid' hne e he e' he' => ?_) hnodup)
  obtain ⟨_, -, hedge⟩ := Option.bind_eq_some_iff.1 he
  obtain ⟨_, -, hedge'⟩ := Option.bind_eq_some_iff.1 he'
  rw [(edgeOf_eq_some hedge).scid, (edgeOf_eq_some hedge').scid]
  exact hne

/-- After any calls a channel is listed once at each of its two distinct ends and nowhere else, and
the edges into a node are the enabled directions towards it, each once. -/
theorem adjacency (C : Crypto) (payloads : GossipPayloads) (network : Network) (ms : List Gossip) :
    Adjacent ((new network).hearAll C payloads ms) ∧
      ∀ node, (((new network).hearAll C payloads ms).edgesInto node |>.map (·.shortChannelId)).Nodup ∧
        ∀ e, e ∈ ((new network).hearAll C payloads ms).edgesInto node ↔
          ∃ chan, ((new network).hearAll C payloads ms).LeadsInto node e chan := by
  have h : Adjacent ((new network).hearAll C payloads ms) := adjacent_hearAll (adjacent_new network) ms
  exact ⟨h, fun node => ⟨h.nodup_edgesInto node, fun e => h.mem_edgesInto⟩⟩

/-! ## Policies converge -/

theorem slot_insert {scid : ShortChannelId} {chan : ChannelInfo} {p : DirectionalInfo}
    {fromNode1 : Bool} (hchan : g.channels.lookup scid = some chan) (scid' : ShortChannelId) (d : Bool) :
    slot { g with channels := g.channels.insert scid (chan.setPolicy fromNode1 p) } scid' d =
      if scid' = scid ∧ d = fromNode1 then some p else g.slot scid' d := by
  unfold slot ChannelInfo.setPolicy
  by_cases hs : scid' = scid
  · subst hs
    rw [AList.lookup_insert, hchan]
    cases d <;> cases fromNode1 <;> simp
  · rw [AList.lookup_insert_ne hs, if_neg fun h => hs h.1]

theorem announces_direction {scid : ShortChannelId} {d : Bool} {msg : Wire.ChannelUpdate}
    (h : g.announces C payloads scid d msg = true) :
    scid = msg.shortChannelId ∧ d = decide (msg.channelFlags &&& 1 = 0) := by
  unfold announces at h
  rw [Bool.and_eq_true, Bool.and_eq_true, Bool.and_eq_true, decide_eq_true_eq, decide_eq_true_eq,
    beq_iff_eq] at h
  exact ⟨h.1.1.2.symm, h.1.2.symm⟩

/-- A direction is a register for the policies of its validly signed updates. -/
theorem slot_hear (msg : Wire.ChannelUpdate) (scid : ShortChannelId) (d : Bool) :
    (g.hear C payloads (.channelUpdate msg)).slot scid d =
      if g.announces C payloads scid d msg then
        writeLatest DirectionalInfo.timestamp (g.slot scid d) (policyOf msg)
      else g.slot scid d := by
  rcases hear_channelUpdate C payloads g msg rfl with ⟨heq, hkept⟩ | ⟨chan, hchan, hvalid, hwrite, heq⟩
  · rw [heq]
    split
    · next hvalid =>
      obtain ⟨rfl, rfl⟩ := announces_direction hvalid
      exact (hkept hvalid).symm
    · rfl
  · rw [heq, slot_insert hchan]
    by_cases hthis : scid = msg.shortChannelId ∧ d = decide (msg.channelFlags &&& 1 = 0)
    · obtain ⟨rfl, rfl⟩ := hthis
      rw [if_pos ⟨rfl, rfl⟩, if_pos hvalid, hwrite]
    · rw [if_neg hthis, if_neg fun h => hthis (announces_direction h)]

/-- Which updates are valid does not depend on the updates before. -/
theorem announces_hear (msg : Wire.ChannelUpdate) :
    (g.hear C payloads (.channelUpdate msg)).announces C payloads = g.announces C payloads := by
  funext scid d msg'
  unfold announces
  rw [fundingOf_hear_channelUpdate, (nodes_hear_channelUpdate msg).2]

variable (C payloads g) in
theorem slot_hearAll (msgs : List Wire.ChannelUpdate) (scid : ShortChannelId) (d : Bool) :
    (g.hearAll C payloads (msgs.map .channelUpdate)).slot scid d =
      ((msgs.filter (g.announces C payloads scid d)).map policyOf).foldl
        (writeLatest DirectionalInfo.timestamp) (g.slot scid d) := by
  induction msgs generalizing g with
  | nil => rfl
  | cons msg msgs ih =>
    have hstep := ih (g.hear C payloads (.channelUpdate msg))
    rw [slot_hear, announces_hear] at hstep
    refine hstep.trans ?_
    cases hvalid : g.announces C payloads scid d msg with
    | true => rw [List.filter_cons_of_pos hvalid, if_pos rfl, List.map_cons, List.foldl_cons]
    | false => rw [List.filter_cons_of_neg (ne_true_of_eq_false hvalid), if_neg Bool.false_ne_true]

variable (C payloads g) in
theorem frame_hearAll (msgs : List Wire.ChannelUpdate) :
    (g.hearAll C payloads (msgs.map .channelUpdate)).fundingOf = g.fundingOf ∧
      (g.hearAll C payloads (msgs.map .channelUpdate)).nodes = g.nodes ∧
      (g.hearAll C payloads (msgs.map .channelUpdate)).chainHash = g.chainHash := by
  induction msgs generalizing g with
  | nil => exact ⟨rfl, rfl, rfl⟩
  | cons msg msgs ih =>
    obtain ⟨hfunding, hnodes, hchain⟩ := ih (g.hear C payloads (.channelUpdate msg))
    obtain ⟨hnodes', hchain'⟩ : (g.hear C payloads (.channelUpdate msg)).nodes = g.nodes ∧
      (g.hear C payloads (.channelUpdate msg)).chainHash = g.chainHash := nodes_hear_channelUpdate msg
    exact ⟨hfunding.trans (fundingOf_hear_channelUpdate msg), hnodes.trans hnodes',
      hchain.trans hchain'⟩

/-- The two graphs hold the same. -/
structure Agrees (g g' : NetworkGraph) : Prop where
  chainHash : g.chainHash = g'.chainHash
  nodes : g.nodes = g'.nodes
  channels : ∀ scid, g.channels.lookup scid = g'.channels.lookup scid

/-- A channel is its ends, its capacity and its two policies. -/
theorem lookup_eq {scid : ShortChannelId} (hfunding : g.fundingOf scid = g'.fundingOf scid)
    (hslots : ∀ d, g.slot scid d = g'.slot scid d) :
    g.channels.lookup scid = g'.channels.lookup scid := by
  have hone := hslots true
  have htwo := hslots false
  unfold fundingOf at hfunding
  unfold slot at hone htwo
  cases hchan : g.channels.lookup scid with
  | none =>
    rw [hchan] at hfunding
    exact (Option.map_eq_none_iff.1 hfunding.symm).symm
  | some chan =>
    rw [hchan] at hfunding hone htwo
    obtain ⟨chan', hchan', heq⟩ := Option.map_eq_some_iff.1 hfunding.symm
    rw [hchan'] at hone htwo ⊢
    obtain ⟨h₁, heq⟩ := Prod.mk.inj heq
    obtain ⟨h₂, hcap⟩ := Prod.mk.inj heq
    obtain ⟨node1, node2, capacity, oneToTwo, twoToOne⟩ := chan
    obtain ⟨node1', node2', capacity', oneToTwo', twoToOne'⟩ := chan'
    obtain rfl : node1' = node1 := h₁
    obtain rfl : node2' = node2 := h₂
    obtain rfl : capacity' = capacity := hcap
    obtain rfl : oneToTwo = oneToTwo' := hone
    obtain rfl : twoToOne = twoToOne' := htwo
    rfl

/-- No call makes a policy earlier. -/
theorem le_slot_hear (m : Gossip) {scid : ShortChannelId} {d : Bool} {p : DirectionalInfo}
    (hp : g.slot scid d = some p) :
    ∃ p', (g.hear C payloads m).slot scid d = some p' ∧ p.timestamp ≤ p'.timestamp := by
  cases m with
  | channelUpdate msg =>
    rw [slot_hear]
    split
    · exact le_writeLatest (policyOf msg) hp
    · exact ⟨p, hp, le_rfl⟩
  | nodeAnnouncement msg =>
    rcases hear_cases C payloads g (.nodeAnnouncement msg) with heq | ⟨g', hok, heq⟩
    · rw [heq]
      exact ⟨p, hp, le_rfl⟩
    · obtain ⟨info, -, rfl⟩ := applyNodeAnnouncement_eq_ok hok
      rw [heq]
      exact ⟨p, hp, le_rfl⟩
  | channelAnnouncement msg capacitySat =>
    rcases hear_cases C payloads g (.channelAnnouncement msg capacitySat) with heq | ⟨g', hok, heq⟩
    · rw [heq]
      exact ⟨p, hp, le_rfl⟩
    · obtain ⟨hnew, -, rfl⟩ := applyChannelAnnouncement_eq_ok hok
      have hs : scid ≠ msg.shortChannelId := by
        rintro rfl
        rw [slot, hnew] at hp
        cases hp
      rw [heq]
      refine ⟨p, ?_, le_rfl⟩
      rw [slot, AList.lookup_insert_ne hs]
      exact hp

theorem le_slot_hearAll (ms : List Gossip) {scid : ShortChannelId} {d : Bool} {p : DirectionalInfo}
    (hp : g.slot scid d = some p) :
    ∃ p', (g.hearAll C payloads ms).slot scid d = some p' ∧ p.timestamp ≤ p'.timestamp := by
  induction ms generalizing g p with
  | nil => exact ⟨p, hp, le_rfl⟩
  | cons m ms ih =>
    obtain ⟨p', hp', hle⟩ : ∃ p', (g.hear C payloads m).slot scid d = some p' ∧
      p.timestamp ≤ p'.timestamp := le_slot_hear m hp
    obtain ⟨p'', hp'', hle'⟩ := ih hp'
    exact ⟨p'', hp'', hle.trans hle'⟩

/-- No two of the updates have the same channel, direction and timestamp. -/
def DistinctTimestamps (msgs : List Wire.ChannelUpdate) : Prop :=
  ∀ msg ∈ msgs, ∀ msg' ∈ msgs, msg.shortChannelId = msg'.shortChannelId →
    (msg.channelFlags &&& 1 = 0 ↔ msg'.channelFlags &&& 1 = 0) → msg.timestamp = msg'.timestamp →
    msg = msg'

theorem policyOf_inj {msgs : List Wire.ChannelUpdate} (h : DistinctTimestamps msgs)
    (scid : ShortChannelId) (d : Bool) :
    ∀ p ∈ (msgs.filter (g.announces C payloads scid d)).map policyOf,
      ∀ p' ∈ (msgs.filter (g.announces C payloads scid d)).map policyOf,
        p.timestamp = p'.timestamp → p = p' := by
  intro p hp p' hp' hstamp
  obtain ⟨msg, hmsg, rfl⟩ := List.mem_map.1 hp
  obtain ⟨msg', hmsg', rfl⟩ := List.mem_map.1 hp'
  obtain ⟨hin, hvalid⟩ := List.mem_filter.1 hmsg
  obtain ⟨hin', hvalid'⟩ := List.mem_filter.1 hmsg'
  obtain ⟨hs, hd⟩ := announces_direction hvalid
  obtain ⟨hs', hd'⟩ := announces_direction hvalid'
  have hdirection := decide_eq_decide.1 (hd.symm.trans hd')
  rw [h msg hin msg' hin' (hs.symm.trans hs') hdirection hstamp]

/-- Updates with distinct timestamps leave in every direction the policy of the latest validly signed
one, whatever their order and repetitions; and no calls make a policy earlier. -/
theorem updates_converge (C : Crypto) (payloads : GossipPayloads) (g : NetworkGraph)
    (msgs : List Wire.ChannelUpdate) (hdistinct : DistinctTimestamps msgs) :
    (∀ scid d, Latest DirectionalInfo.timestamp (g.slot scid d)
      ((msgs.filter (g.announces C payloads scid d)).map policyOf)
      ((g.hearAll C payloads (msgs.map .channelUpdate)).slot scid d)) ∧
    (∀ msgs' : List Wire.ChannelUpdate, (∀ msg, msg ∈ msgs' ↔ msg ∈ msgs) →
      Agrees (g.hearAll C payloads (msgs'.map .channelUpdate))
        (g.hearAll C payloads (msgs.map .channelUpdate))) ∧
    ∀ (ms : List Gossip) scid d p, g.slot scid d = some p →
      ∃ p', (g.hearAll C payloads ms).slot scid d = some p' ∧ p.timestamp ≤ p'.timestamp := by
  have hlatest : ∀ (msgs : List Wire.ChannelUpdate) scid d, Latest DirectionalInfo.timestamp
      (g.slot scid d) ((msgs.filter (g.announces C payloads scid d)).map policyOf)
      ((g.hearAll C payloads (msgs.map .channelUpdate)).slot scid d) := by
    intro msgs scid d
    rw [slot_hearAll]
    exact latest_foldl _ _
  refine ⟨hlatest msgs, fun msgs' hsame => ?_, fun ms scid d p hp => le_slot_hearAll ms hp⟩
  obtain ⟨hfunding, hnodes, hchain⟩ := frame_hearAll C payloads g msgs
  obtain ⟨hfunding', hnodes', hchain'⟩ := frame_hearAll C payloads g msgs'
  refine ⟨hchain'.trans hchain.symm, hnodes'.trans hnodes.symm, fun scid => ?_⟩
  refine lookup_eq (congrFun (hfunding'.trans hfunding.symm) scid) fun d => ?_
  refine Latest.unique (policyOf_inj hdistinct scid d) ((hlatest msgs' scid d).congr fun p => ?_)
    (hlatest msgs scid d)
  simp only [List.mem_map, List.mem_filter, hsame]

end NetworkGraph

namespace Demo

/-- An update is signed by its timestamp. -/
def stamps : GossipPayloads := ⟨fun _ => [], fun msg => Bytes.beBytes 4 msg.timestamp, fun _ => []⟩

/-- An update of the channel from node 0 to node 1, signed by node 0. -/
def update (timestamp : Nat) : Wire.ChannelUpdate where
  signature := Crypto.Transparent.sign ⟨Crypto.Transparent.ofNat 32 0⟩
    (Crypto.transparent.sha256d (Bytes.beBytes 4 timestamp))
  chainHash := Network.regtest.chainHash
  shortChannelId := 1
  timestamp := timestamp
  messageFlags := 1
  channelFlags := 0
  cltvExpiryDelta := 40
  htlcMinimumMsat := 1
  feeBaseMsat := 1000
  feeProportionalMillionths := 100
  htlcMaximumMsat := 10000000000

end Demo

namespace NetworkGraph

/-- Two updates of a channel of node 0, out of order and one twice. -/
theorem updates_converge_diamond :
    Agrees (Demo.diamond.hearAll .transparent Demo.stamps
        ([Demo.update 300, Demo.update 200, Demo.update 300].map .channelUpdate))
      (Demo.diamond.hearAll .transparent Demo.stamps
        ([Demo.update 200, Demo.update 300].map .channelUpdate)) ∧
    ((Demo.diamond.hearAll .transparent Demo.stamps
      ([Demo.update 200, Demo.update 300].map .channelUpdate)).slot 1 true).map (·.timestamp) =
        some 300 := by
  refine ⟨(updates_converge .transparent Demo.stamps Demo.diamond [Demo.update 200, Demo.update 300]
    ?_).2.1 [Demo.update 300, Demo.update 200, Demo.update 300] fun msg => ?_, ?_⟩
  · unfold DistinctTimestamps
    decide +kernel
  · simp only [List.mem_cons, List.not_mem_nil, or_false]
    tauto
  · decide +kernel

end NetworkGraph
