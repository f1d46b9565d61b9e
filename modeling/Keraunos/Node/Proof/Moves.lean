import Keraunos.Channel.Proof.Ids
import Keraunos.Node.Machine

/-!
# What a node does to its channels

Every function of the node is a sequence of moves: a call of a channel's method, a message of a
channel sent, a broadcast, a channel entered or moved to another key, or nothing that concerns the
channels. `Moves P` are the sequences of moves whose entries in the history are allowed by `P`;
`handleMessage_moves` and `step_moves` say which entries can be made. The invariants of nodes are
invariants of moves.
-/

open Bitcoin

namespace Node

variable {E : Env}

/-- The channel produced the message for its peer. -/
def Said (history : List Happening) (serial : Nat) (msg : Wire.Message) : Prop :=
  ∃ e i a, .acted e i (.ok a) ∈ history ∧ e.serial = serial ∧ msg ∈ i.toSend a

/-- The channel dropped a parked HTLC of this source. -/
def Dropped (history : List Happening) (source : HtlcSource) : Prop :=
  ∃ e msg o, Happening.acted e (.revokeAndAck msg) (.ok o) ∈ history ∧
    source ∈ o.failedAdds.map Prod.fst

/-- An output that is no broadcast and closes no channel. -/
def Plain {Data : Type} : Output Data → Prop
  | .broadcast _ | .event (.channelClosed ..) => False
  | _ => True

/-- The connections are the same, up to the state of their transports. -/
structure SamePeers (n n' : Node E) : Prop where
  byNodeId : n'.byNodeId = n.byNodeId
  nextPeer : n'.nextPeer = n.nextPeer
  nodeId : ∀ id, (n'.peers.lookup id).map (·.nodeId) = (n.peers.lookup id).map (·.nodeId)
  identified : ∀ id p', n'.peers.lookup id = some p' → ∃ p, n.peers.lookup id = some p ∧
    (E.identified p.transport → E.identified p'.transport)

/-- The new outputs meet `Q`. -/
def Emits (Q : Output E.Data → Prop) (n n' : Node E) : Prop :=
  ∃ new, n'.outputs = n.outputs ++ new ∧ ∀ o ∈ new, Q o

/-- Nothing happened but plain outputs. -/
structure Calm (n n' : Node E) : Prop extends SamePeers n n' where
  config : n'.config = n.config
  outputs : Emits Plain n n'

/-- The index of the connections names connections authenticated as the node. -/
structure Linked (n : Node E) : Prop where
  index : ∀ k id, n.byNodeId.lookup k = some id → ∃ p, n.peers.lookup id = some p ∧ p.nodeId = some k
  known : ∀ id p, n.peers.lookup id = some p → p.nodeId.isSome → E.identified p.transport
  fresh : ∀ id p, n.peers.lookup id = some p → id < n.nextPeer

/-- The elementary changes of a node. -/
inductive Move (P : Node E → Happening → Prop) (n n' : Node E) : Prop
  | idle : n'.channels = n.channels → n'.history = n.history → Calm n n' → Move P n n'
  /-- Connections come and go. -/
  | link : n'.channels = n.channels → n'.history = n.history → n'.config = n.config →
      Emits Plain n n' → (Linked n → Linked n') → Move P n n'
  | edit (id : ChannelId) (e e' : ChannelEntry) : n.channels.lookup id = some e →
      e'.channel = e.channel → e'.nodeId = e.nodeId → e'.serial = e.serial →
      n'.channels = n.channels.insert id e' → n'.history = n.history → Calm n n' → Move P n n'
  | act (id : ChannelId) (e : ChannelEntry) (i : Channel.Input) (a : i.Outcome) (ch : Channel) :
      n.channels.lookup id = some e → ¬ i.Funds → Channel.perform E.C i e.channel = .ok a ch →
      n'.channels = n.channels.insert id { e with channel := ch } →
      n'.history = n.history ++ [.acted e i (.ok a)] → Calm n n' →
      P n (.acted e i (.ok a)) → Move P n n'
  | refuse (id : ChannelId) (e : ChannelEntry) (i : Channel.Input) (err : ChannelError)
      (ch : Channel) : n.channels.lookup id = some e →
      Channel.perform E.C i e.channel = .error (.err err) ch →
      n'.channels = n.channels.insert id { e with channel := ch } →
      n'.history = n.history ++ [.acted e i (.error err)] → Calm n n' →
      P n (.acted e i (.error err)) → Move P n n'
  | spoke (serial : Nat) (msg : Wire.Message) : Said n.history serial msg →
      n'.channels = n.channels → n'.history = n.history ++ [.spoke serial msg] → Calm n n' →
      Move P n n'
  | forceClosed (id : ChannelId) (e : ChannelEntry) (tx : Transaction) (reason : String) :
      n.channels.lookup id = some e → e.channel.signedHolderCommitmentTx E.C = .ok tx →
      n'.channels = n.channels → n'.history = n.history ++ [.forceClosed e] →
      n'.outputs = n.outputs ++
        [.broadcast tx, .event (.channelClosed id reason (some (tx.txid E.C)))] →
      SamePeers n n' → n'.config = n.config → P n (.forceClosed e) → Move P n n'
  | published (id : ChannelId) (e e' : ChannelEntry) (tx : Transaction) :
      n.channels.lookup id = some e' → e'.nodeId = e.nodeId → e'.serial = e.serial →
      n'.channels = n.channels → n'.history = n.history ++ [.published e tx] →
      Emits (fun o => Plain o ∨ o = .broadcast tx ∨
        ∃ reason txid, o = .event (.channelClosed id reason txid)) n n' →
      SamePeers n n' → n'.config = n.config → P n (.published e tx) → Move P n n'
  | failedBack (source : HtlcSource) : n'.channels = n.channels →
      n'.history = n.history ++ [.failedBack source] → Calm n n' → P n (.failedBack source) →
      Move P n n'
  | opened (id : ChannelId) (e : ChannelEntry) : Channel.Fresh E.C e.channel →
      e.channel.channelId = id → e.serial = n.history.length →
      n'.channels = n.channels.insert id e →
      n'.history = n.history ++ [.opened e.serial id] → Calm n n' → P n (.opened e.serial id) →
      Move P n n'
  | fund (id : ChannelId) (e e' : ChannelEntry) (i : Channel.Input) (a : i.Outcome)
      (ch : Channel) : n.channels.lookup id = some e → i.Funds →
      Channel.perform E.C i e.channel = .ok a ch →
      e'.channel = ch → e'.nodeId = e.nodeId → e'.serial = e.serial →
      (∀ k, n'.channels.lookup k = if k = ch.channelId then some e' else
        if k = id then none else n.channels.lookup k) →
      n'.history = n.history ++
        [.acted e i (.ok a), .rekeyed e.serial id ch.channelId] → Calm n n' →
      P n (.acted e i (.ok a)) → P n (.rekeyed e.serial id ch.channelId) → Move P n n'
  | ordered (id : ChannelId) : n'.channels = n.channels →
      n'.history = n.history ++ [.ordered id] → Calm n n' → P n (.ordered id) → Move P n n'
  | polled : n'.channels = n.channels → n'.history = n.history ++ [.polled] →
      n'.outputs = n.outputs.tail → SamePeers n n' → n'.config = n.config → P n .polled → Move P n n'

namespace Emits

variable {Q Q' : Output E.Data → Prop} {n n' n'' : Node E}

theorem of_eq (h : n'.outputs = n.outputs) : Emits Q n n' := ⟨[], by rw [h, List.append_nil], nofun⟩

theorem one {o : Output E.Data} (h : n'.outputs = n.outputs ++ [o]) (ho : Q o) : Emits Q n n' :=
  ⟨[o], h, fun _ hx => List.mem_singleton.1 hx ▸ ho⟩

theorem two {o₁ o₂ : Output E.Data} (h : n'.outputs = n.outputs ++ [o₁, o₂]) (h₁ : Q o₁) (h₂ : Q o₂) :
    Emits Q n n' := by
  refine ⟨[o₁, o₂], h, fun o ho => ?_⟩
  rcases List.mem_cons.1 ho with rfl | ho
  · exact h₁
  · exact List.mem_singleton.1 ho ▸ h₂

theorem mono (h : Emits Q n n') (hQ : ∀ o, Q o → Q' o) : Emits Q' n n' := by
  obtain ⟨new, hnew, hall⟩ := h
  exact ⟨new, hnew, fun o ho => hQ o (hall o ho)⟩

theorem trans (h : Emits Q n n') (h' : Emits Q n' n'') : Emits Q n n'' := by
  obtain ⟨new, hnew, hall⟩ := h
  obtain ⟨new', hnew', hall'⟩ := h'
  refine ⟨new ++ new', by rw [hnew', hnew, List.append_assoc], fun o ho => ?_⟩
  rcases List.mem_append.1 ho with ho | ho
  · exact hall o ho
  · exact hall' o ho

end Emits

namespace SamePeers

variable {n n' n'' : Node E}

theorem rfl : SamePeers n n := ⟨.refl _, .refl _, fun _ => .refl _, fun _ p hp => ⟨p, hp, id⟩⟩

theorem of (hp : n'.peers = n.peers) (hb : n'.byNodeId = n.byNodeId)
    (hn : n'.nextPeer = n.nextPeer) : SamePeers n n' :=
  ⟨hb, hn, fun _ => by rw [hp], fun _ p h => ⟨p, hp ▸ h, id⟩⟩

theorem trans (h : SamePeers n n') (h' : SamePeers n' n'') : SamePeers n n'' := by
  refine ⟨h'.byNodeId.trans h.byNodeId, h'.nextPeer.trans h.nextPeer,
    fun id => (h'.nodeId id).trans (h.nodeId id), fun id p'' hp'' => ?_⟩
  obtain ⟨p', hp', hi'⟩ := h'.identified id p'' hp''
  obtain ⟨p, hp, hi⟩ := h.identified id p' hp'
  exact ⟨p, hp, hi' ∘ hi⟩

theorem known (h : SamePeers n n') (id : PeerId) :
    (n'.peers.lookup id).bind (·.nodeId) = (n.peers.lookup id).bind (·.nodeId) := by
  have hid := h.nodeId id
  cases hp : n.peers.lookup id with
  | none =>
    rw [hp] at hid
    rw [Option.map_eq_none_iff.1 hid]
  | some p =>
    rw [hp] at hid
    obtain ⟨p', hp', hk⟩ := Option.map_eq_some_iff.1 hid
    rw [hp']
    exact hk

theorem linked (h : SamePeers n n') (hl : Linked n) : Linked n' where
  index k id hk := by
    obtain ⟨p, hp, hk⟩ := hl.index k id (h.byNodeId ▸ hk)
    have hid := h.nodeId id
    rw [hp, Option.map_some] at hid
    obtain ⟨p', hp', hn⟩ := Option.map_eq_some_iff.1 hid
    exact ⟨p', hp', hn.trans hk⟩
  known id p' hp' hk := by
    obtain ⟨p, hp, hi⟩ := h.identified id p' hp'
    have hid := h.nodeId id
    rw [hp, hp', Option.map_some, Option.map_some] at hid
    exact hi (hl.known id p hp (Option.some.inj hid ▸ hk))
  fresh id p' hp' := by
    obtain ⟨p, hp, -⟩ := h.identified id p' hp'
    exact h.nextPeer ▸ hl.fresh id p hp

end SamePeers

namespace Calm

variable {n n' n'' : Node E}

/-- Only notes of the node changed. -/
theorem of (hp : n'.peers = n.peers) (hb : n'.byNodeId = n.byNodeId)
    (hn : n'.nextPeer = n.nextPeer) (hc : n'.config = n.config) (ho : n'.outputs = n.outputs) :
    Calm n n' :=
  ⟨.of hp hb hn, hc, .of_eq ho⟩

theorem rfl : Calm n n := of (.refl _) (.refl _) (.refl _) (.refl _) (.refl _)

theorem trans (h : Calm n n') (h' : Calm n' n'') : Calm n n'' :=
  ⟨h.toSamePeers.trans h'.toSamePeers, h'.config.trans h.config, h.outputs.trans h'.outputs⟩

end Calm

/-- A sequence of moves. -/
def Moves (P : Node E → Happening → Prop) : Node E → Node E → Prop :=
  Relation.ReflTransGen (Move P)

namespace Moves

variable {P : Node E → Happening → Prop} {n n' n'' : Node E}

theorem rfl : Moves P n n := Relation.ReflTransGen.refl

theorem one (h : Move P n n') : Moves P n n' := Relation.ReflTransGen.single h

theorem trans (h : Moves P n n') (h' : Moves P n' n'') : Moves P n n'' :=
  Relation.ReflTransGen.trans h h'

/-- Only notes of the node changed. -/
theorem idle (hc : n'.channels = n.channels) (hh : n'.history = n.history)
    (hp : n'.peers = n.peers) (hb : n'.byNodeId = n.byNodeId) (hn : n'.nextPeer = n.nextPeer)
    (hcfg : n'.config = n.config) (ho : n'.outputs = n.outputs) : Moves P n n' :=
  .one (.idle hc hh (.of hp hb hn hcfg ho))

/-- An invariant of the moves is an invariant of a sequence of them. -/
theorem invariant {I : Node E → Prop} (hI : ∀ a b, Move P a b → I a → I b) (h : Moves P n n')
    (hn : I n) : I n' := by
  induction h with
  | refl => exact hn
  | tail _ hm ih => exact hI _ _ hm ih

end Moves

/-- A weaker rule allows more. -/
theorem Move.mono {P Q : Node E → Happening → Prop} {n n' : Node E} (h : Move P n n')
    (hPQ : ∀ h, P n h → Q n h) : Move Q n n' := by
  cases h with
  | idle h₁ h₂ h₃ => exact .idle h₁ h₂ h₃
  | link h₁ h₂ h₃ h₄ h₅ => exact .link h₁ h₂ h₃ h₄ h₅
  | edit id e e' h₁ h₂ h₃ h₄ h₅ h₆ h₇ => exact .edit id e e' h₁ h₂ h₃ h₄ h₅ h₆ h₇
  | act id e i a ch h₁ h₂ h₃ h₄ h₅ h₆ h₇ => exact .act id e i a ch h₁ h₂ h₃ h₄ h₅ h₆ (hPQ _ h₇)
  | refuse id e i err ch h₁ h₂ h₃ h₄ h₅ h₆ => exact .refuse id e i err ch h₁ h₂ h₃ h₄ h₅ (hPQ _ h₆)
  | spoke serial msg h₁ h₂ h₃ h₄ => exact .spoke serial msg h₁ h₂ h₃ h₄
  | forceClosed id e tx reason h₁ h₂ h₃ h₄ h₅ h₆ h₇ h₈ =>
    exact .forceClosed id e tx reason h₁ h₂ h₃ h₄ h₅ h₆ h₇ (hPQ _ h₈)
  | published id e e' tx h₁ h₂ h₃ h₄ h₅ h₆ h₇ h₈ h₉ =>
    exact .published id e e' tx h₁ h₂ h₃ h₄ h₅ h₆ h₇ h₈ (hPQ _ h₉)
  | failedBack source h₁ h₂ h₃ h₄ => exact .failedBack source h₁ h₂ h₃ (hPQ _ h₄)
  | opened id e h₁ h₂ h₃ h₄ h₅ h₆ h₇ => exact .opened id e h₁ h₂ h₃ h₄ h₅ h₆ (hPQ _ h₇)
  | fund id e e' i a ch h₁ h₂ h₃ h₄ h₅ h₆ h₇ h₈ h₉ h₁₀ h₁₁ =>
    exact .fund id e e' i a ch h₁ h₂ h₃ h₄ h₅ h₆ h₇ h₈ h₉ (hPQ _ h₁₀) (hPQ _ h₁₁)
  | ordered id h₁ h₂ h₃ h₄ => exact .ordered id h₁ h₂ h₃ (hPQ _ h₄)
  | polled h₁ h₂ h₃ h₄ h₅ h₆ => exact .polled h₁ h₂ h₃ h₄ h₅ (hPQ _ h₆)

theorem Moves.mono {P Q : Node E → Happening → Prop} {n n' : Node E} (h : Moves P n n')
    (hPQ : ∀ n h, P n h → Q n h) : Moves Q n n' :=
  h.invariant (I := Moves Q n) (fun _ _ hm hmoves => hmoves.trans (.one (hm.mono (hPQ _)))) .rfl

/-- The connections stay linked. -/
theorem Move.linked {P : Node E → Happening → Prop} {n n' : Node E} (h : Move P n n')
    (hl : Linked n) : Linked n' := by
  cases h with
  | idle _ _ hc | edit _ _ _ _ _ _ _ _ _ hc | act _ _ _ _ _ _ _ _ _ _ hc
  | refuse _ _ _ _ _ _ _ _ _ hc | spoke _ _ _ _ _ hc | failedBack _ _ _ hc | ordered _ _ _ hc
  | opened _ _ _ _ _ _ _ hc | fund _ _ _ _ _ _ _ _ _ _ _ _ _ _ hc => exact hc.toSamePeers.linked hl
  | link _ _ _ _ hlink => exact hlink hl
  | forceClosed _ _ _ _ _ _ _ _ _ hc | published _ _ _ _ _ _ _ _ _ _ hc | polled _ _ _ hc =>
    exact hc.linked hl

/-- Entries that leave every channel under its key. -/
def Stays : Happening → Prop
  | .opened .. | .rekeyed .. => False
  | _ => True

/-- Every key has a channel of the same node and serial number. -/
def SameOwners (n n' : Node E) : Prop :=
  ∀ id, (n'.channels.lookup id).map (fun e => (e.nodeId, e.serial)) =
    (n.channels.lookup id).map fun e => (e.nodeId, e.serial)

namespace SameOwners

variable {n n' n'' : Node E} {id : ChannelId} {e : ChannelEntry}

theorem rfl : SameOwners n n := fun _ => .refl _

theorem trans (h : SameOwners n n') (h' : SameOwners n' n'') : SameOwners n n'' :=
  fun id => (h' id).trans (h id)

theorem of_channels (h : n'.channels = n.channels) : SameOwners n n' := fun _ => by rw [h]

theorem of_insert (e' : ChannelEntry) (he : n.channels.lookup id = some e)
    (hid : e'.nodeId = e.nodeId) (hs : e'.serial = e.serial)
    (h : n'.channels = n.channels.insert id e') : SameOwners n n' := by
  intro k
  by_cases hk : k = id
  · rw [hk, h, AList.lookup_insert, he, Option.map_some, Option.map_some, hid, hs]
  · rw [h, AList.lookup_insert_ne hk]

/-- The entry of a key before, given the one after. -/
theorem before {e' : ChannelEntry} (h : SameOwners n n') (he : n'.channels.lookup id = some e') :
    ∃ e, n.channels.lookup id = some e ∧ e'.nodeId = e.nodeId ∧ e'.serial = e.serial := by
  have hk := h id
  rw [he, Option.map_some] at hk
  obtain ⟨e, he, heq⟩ := Option.map_eq_some_iff.1 hk.symm
  exact ⟨e, he, (Prod.mk.inj heq).1.symm, (Prod.mk.inj heq).2.symm⟩

theorem after (h : SameOwners n n') (he : n.channels.lookup id = some e) :
    ∃ e', n'.channels.lookup id = some e' ∧ e'.nodeId = e.nodeId ∧ e'.serial = e.serial := by
  have hk := h id
  rw [he, Option.map_some] at hk
  obtain ⟨e', he', heq⟩ := Option.map_eq_some_iff.1 hk
  exact ⟨e', he', (Prod.mk.inj heq).1, (Prod.mk.inj heq).2⟩

end SameOwners

theorem Move.owners {P : Node E → Happening → Prop} {n n' : Node E} (h : Move P n n')
    (hP : ∀ h, P n h → Stays h) : SameOwners n n' := by
  cases h with
  | idle hc | link hc | spoke _ _ _ hc | failedBack _ hc | ordered _ hc | polled hc => exact .of_channels hc
  | forceClosed _ _ _ _ _ _ hc | published _ _ _ _ _ _ _ hc => exact .of_channels hc
  | edit id e e' he _ hid hs hc => exact .of_insert e' he hid hs hc
  | act id e i a ch he _ _ hc | refuse id e i err ch he _ hc =>
    exact .of_insert { e with channel := ch } he rfl rfl hc
  | opened _ _ _ _ _ _ _ _ h => exact (hP _ h).elim
  | fund _ _ _ _ _ _ _ _ _ _ _ _ _ _ _ _ h => exact (hP _ h).elim

theorem Moves.owners {P : Node E → Happening → Prop} {n n' : Node E} (h : Moves P n n')
    (hP : ∀ n h, P n h → Stays h) : SameOwners n n' :=
  h.invariant (I := SameOwners n) (fun _ _ hm ho => ho.trans (hm.owners (hP _))) .rfl

theorem Move.history {P : Node E → Happening → Prop} {n n' : Node E} (h : Move P n n') :
    n.history <+: n'.history := by
  cases h <;> simp_all

theorem Moves.history {P : Node E → Happening → Prop} {n n' : Node E} (h : Moves P n n') :
    n.history <+: n'.history :=
  h.invariant (I := fun m => n.history <+: m.history) (fun _ _ hm hp => hp.trans hm.history)
    (List.prefix_refl _)

theorem Said.mono {hs hs' : List Happening} {serial : Nat} {msg : Wire.Message}
    (h : Said hs serial msg) (hp : hs <+: hs') : Said hs' serial msg := by
  obtain ⟨e, i, a, hmem, hs, hmsg⟩ := h
  exact ⟨e, i, a, hp.subset hmem, hs, hmsg⟩

theorem Dropped.mono {hs hs' : List Happening} {source : HtlcSource} (h : Dropped hs source)
    (hp : hs <+: hs') : Dropped hs' source := by
  obtain ⟨e, msg, o, hmem, ho⟩ := h
  exact ⟨e, msg, o, hp.subset hmem, ho⟩

/-! ## Elementary actions -/

section
variable {P : Node E → Happening → Prop} {n : Node E}

/-- `x` run from `n` is a sequence of moves. -/
abbrev MovesOnly (P : Node E → Happening → Prop) {α : Type} (x : NodeAct E α) (n : Node E) : Prop :=
  Act.Ends x n (Moves P n)

/-- A sequence: the first part moves, and so does the second, from wherever the first ends. -/
theorem movesOnly_bind {α β : Type} {x : NodeAct E β} {f : β → NodeAct E α}
    (hx : MovesOnly P x n) (hf : ∀ b n', Moves P n n' → MovesOnly P (f b) n') :
    MovesOnly P (x >>= f) n :=
  Act.ends_bind (Act.wp_mono hx (fun b n' h => (hf b n' h).mono fun _ => h.trans) fun _ _ h => h)

/-- The channels and the history are the same. -/
structure Unchanged (n n' : Node E) : Prop extends Calm n n' where
  channels : n'.channels = n.channels
  history : n'.history = n.history

theorem Unchanged.rfl : Unchanged n n := ⟨.rfl, .refl _, .refl _⟩

theorem Unchanged.trans {n' n'' : Node E} (h : Unchanged n n') (h' : Unchanged n' n'') :
    Unchanged n n'' :=
  ⟨h.toCalm.trans h'.toCalm, h'.channels.trans h.channels, h'.history.trans h.history⟩

theorem Unchanged.moves {n' : Node E} (h : Unchanged n n') : Moves P n n' :=
  .one (.idle h.channels h.history h.toCalm)

/-- Actions that touch neither the channels nor the history. -/
def Quiet {α : Type} (x : NodeAct E α) (n : Node E) : Prop := Act.Ends x n (Unchanged n)

theorem Quiet.moves {α : Type} {x : NodeAct E α} (h : Quiet x n) : MovesOnly P x n :=
  Act.Ends.mono h fun _ h => h.moves

theorem quiet_bind {α β : Type} {x : NodeAct E β} {f : β → NodeAct E α} (hx : Quiet x n)
    (hf : ∀ b n', Quiet (f b) n') : Quiet (x >>= f) n :=
  Act.ends_bind (Act.wp_mono hx (fun b n' h => (hf b n').mono fun _ => h.trans) fun _ _ h => h)

theorem quiet_okOr {α : Type} (o : Option α) (e : NodeError) : Quiet (Act.okOr o e) n := by
  cases o
  · exact Act.ends_fail .rfl
  · exact Act.ends_pure .rfl

theorem emit_quiet {o : Output E.Data} (ho : Plain o := by trivial) : Quiet (emit o) n :=
  Unchanged.mk ⟨.of rfl rfl rfl, rfl, .one rfl ho⟩ rfl rfl

theorem event_quiet {e : NodeEvent} (he : Plain (.event e : Output E.Data) := by trivial) :
    Quiet (event e) n := emit_quiet he

/-- A connection's own notes and its transport change. -/
theorem setPeer_quiet {id : PeerId} {p : Peer E} (p' : Peer E) (hp : n.peers.lookup id = some p)
    (hid : p'.nodeId = p.nodeId)
    (ht : E.identified p.transport → E.identified p'.transport) : Quiet (setPeer id p') n := by
  refine Unchanged.mk ⟨⟨rfl, rfl, fun k => ?_, fun k q hq => ?_⟩, rfl, .of_eq rfl⟩ rfl rfl
  · show ((n.peers.insert id p').lookup k).map _ = _
    by_cases hk : k = id
    · rw [hk, AList.lookup_insert, hp, Option.map_some, Option.map_some, hid]
    · rw [AList.lookup_insert_ne hk]
  · change (n.peers.insert id p').lookup k = some q at hq
    by_cases hk : k = id
    · rw [hk, AList.lookup_insert] at hq
      exact ⟨p, hk ▸ hp, Option.some.inj hq ▸ ht⟩
    · rw [AList.lookup_insert_ne hk] at hq
      exact ⟨q, hq, fun h => h⟩

theorem randomBytes_quiet : Quiet (E := E) randomBytes n :=
  Unchanged.mk (.of rfl rfl rfl rfl rfl) rfl rfl

theorem randomSecretKey_quiet : Quiet (E := E) randomSecretKey n :=
  Unchanged.mk (.of rfl rfl rfl rfl rfl) rfl rfl

theorem sendToPeer_quiet (peer : PeerId) (msg : Wire.Message) : Quiet (sendToPeer peer msg) n := by
  refine Act.ends_get_bind (Act.ends_okOr_bind (fun p hp => ?_) fun _ => .rfl)
  have hset := setPeer_quiet { p with transport := (E.encrypt p.transport msg).1 } hp rfl
    (E.identified_encrypt _ _)
  refine quiet_bind hset fun _ n' => ?_
  split
  · exact Act.ends_fail .rfl
  · exact emit_quiet

theorem sendToNode_quiet (nodeId : PublicKey) (msg : Wire.Message) :
    Quiet (sendToNode nodeId msg) n :=
  Act.ends_get_bind (quiet_bind (quiet_okOr _ _) fun _ _ => sendToPeer_quiet _ _)

theorem ignoreErrors_moves {α : Type} {x : NodeAct E α} (h : MovesOnly P x n) :
    MovesOnly P (ignoreErrors x) n :=
  movesOnly_bind (Act.ends_attempt h) fun _ _ _ => Act.ends_pure .rfl

theorem sendWarning_moves (peer : PeerId) (text : String) : MovesOnly P (sendWarning peer text) n :=
  ignoreErrors_moves (sendToPeer_quiet _ _).moves

theorem forM_moves {α : Type} {l : List α} {f : α → NodeAct E Unit}
    (hf : ∀ a ∈ l, ∀ n', Moves P n n' → MovesOnly P (f a) n') : MovesOnly P (l.forM f) n := by
  induction l generalizing n with
  | nil => exact Act.ends_pure .rfl
  | cons a l ih =>
    refine movesOnly_bind (hf a (by simp) n .rfl) fun _ n' hn => ih fun b hb n'' hn' => ?_
    exact hf b (List.mem_cons_of_mem _ hb) n'' (hn.trans hn')

theorem broadcastToReadyPeers_moves (msg : Wire.Message) :
    MovesOnly P (broadcastToReadyPeers msg) n :=
  Act.ends_get_bind (forM_moves fun _ _ _ _ => ignoreErrors_moves (sendToPeer_quiet _ _).moves)

/-- What `entryOf` finds. -/
theorem entryOf_spec (id : ChannelId) :
    Act.wp (entryOf id) n (fun e n' => n' = n ∧ n.channels.lookup id = some e)
      (fun f n' => n' = n ∧ f = .err .channelNotFound) := by
  simp only [entryOf, Act.wp_bind, Act.wp_get, Act.wp_okOr]
  exact ⟨fun e he => ⟨trivial, he⟩, fun _ => ⟨trivial, trivial⟩⟩

/-- Look an entry up, then go on. -/
theorem entryOf_moves {α : Type} {id : ChannelId} {f : ChannelEntry → NodeAct E α}
    (hf : ∀ e, n.channels.lookup id = some e → MovesOnly P (f e) n) :
    MovesOnly P (entryOf id >>= f) n := by
  refine Act.ends_bind (Act.wp_mono (entryOf_spec id) ?_ ?_)
  · rintro e _ ⟨rfl, he⟩
    exact hf e he
  · rintro _ _ ⟨rfl, -⟩ _ _
    exact .rfl

theorem ends_entryOf {α : Type} {id : ChannelId} {e : ChannelEntry}
    {f : ChannelEntry → NodeAct E α} {Q : Node E → Prop} (he : n.channels.lookup id = some e)
    (h : Act.Ends (f e) n Q) : Act.Ends (entryOf id >>= f) n Q := by
  have hrun : entryOf id n = .ok e n := by
    show Act.okOr (n.channels.lookup id) _ n = _
    rw [he]
    rfl
  refine Act.ends_bind ?_
  rw [Act.wp, hrun]
  exact h

/-- What `askChannel` returns. -/
theorem askChannel_spec {α : Type} (id : ChannelId) (f : Channel → ChannelResult α) :
    Act.wp (askChannel id f) n
      (fun a n' => n' = n ∧ ∃ e, n.channels.lookup id = some e ∧ f e.channel = .ok a)
      (fun _ n' => n' = n) := by
  refine (Act.wp_bind _ _).2 (Act.wp_mono (entryOf_spec id) ?_ fun _ _ h => h.1)
  rintro e _ ⟨rfl, he⟩
  split
  · next a ha => exact ⟨rfl, e, he, ha⟩
  · rfl
  · rfl

/-- Ask a channel, then go on. -/
theorem askChannel_moves {α β : Type} {id : ChannelId} {f : Channel → ChannelResult β}
    {g : β → NodeAct E α}
    (hg : ∀ b e, n.channels.lookup id = some e → f e.channel = .ok b → MovesOnly P (g b) n) :
    MovesOnly P (askChannel id f >>= g) n := by
  refine Act.ends_bind (Act.wp_mono (askChannel_spec id f) ?_ ?_)
  · rintro b _ ⟨rfl, e, he, hb⟩
    exact hg b e he hb
  · rintro _ _ rfl _ _
    exact .rfl

/-- The method returns `r`. -/
def Yields {α : Type} (x : ChannelAct α) (ch : Channel) : Except ChannelError α → Prop
  | .ok a => ∃ ch', x ch = .ok a ch'
  | .error e => ∃ ch', x ch = .error (.err e) ch'

/-- A call of the method `i` of the channel `id` returned `a`. -/
structure Called (n n' : Node E) (id : ChannelId) (i : Channel.Input) (a : i.Outcome)
    (e : ChannelEntry) (ch : Channel) : Prop where
  lookup : n.channels.lookup id = some e
  run : Channel.perform E.C i e.channel = .ok a ch
  state : n' = { n with
    channels := n.channels.insert id { e with channel := ch }
    history := n.history ++ [.acted e i (.ok a)] }

namespace Called

variable {n' : Node E} {id : ChannelId} {i : Channel.Input} {a : i.Outcome}
  {e entry : ChannelEntry} {ch : Channel}

theorem lookup_after (h : Called n n' id i a e ch) :
    n'.channels.lookup id = some { e with channel := ch } := by
  rw [h.state, AList.lookup_insert]

theorem acted (h : Called n n' id i a e ch) : .acted e i (.ok a) ∈ n'.history := by
  rw [h.state]
  exact List.mem_append_right _ (List.mem_singleton_self _)

/-- What a call returned to send was said, by the entry looked up before the call. -/
theorem said (h : Called n n' id i a e ch) (hentry : n.channels.lookup id = some entry)
    {msg : Wire.Message} (hm : msg ∈ i.toSend a) : Said n'.history entry.serial msg := by
  obtain rfl := Option.some.inj (h.lookup.symm.trans hentry)
  exact ⟨e, i, a, h.acted, rfl, hm⟩

/-- The same, by the entry looked up after the call. -/
theorem said_after (h : Called n n' id i a e ch) (hentry : n'.channels.lookup id = some entry)
    {msg : Wire.Message} (hm : msg ∈ i.toSend a) : Said n'.history entry.serial msg := by
  obtain rfl := Option.some.inj (h.lookup_after.symm.trans hentry)
  exact ⟨e, i, a, h.acted, rfl, hm⟩

theorem calm (h : Called n n' id i a e ch) : Calm n n' := by
  rw [h.state]
  exact .of rfl rfl rfl rfl rfl

theorem moves (h : Called n n' id i a e ch) (hi : ¬ i.Funds) (hP : P n (.acted e i (.ok a))) :
    Moves P n n' :=
  .one (.act id e i a ch h.lookup hi h.run (by rw [h.state]) (by rw [h.state]) h.calm hP)

end Called

/-- A call of the method `i` of the channel `id` returned the error `err`. -/
structure Refused (n n' : Node E) (id : ChannelId) (i : Channel.Input) (err : ChannelError)
    (e : ChannelEntry) (ch : Channel) : Prop where
  lookup : n.channels.lookup id = some e
  run : Channel.perform E.C i e.channel = .error (.err err) ch
  state : n' = { n with
    channels := n.channels.insert id { e with channel := ch }
    history := n.history ++ [.acted e i (.error err)] }

theorem Refused.moves {n' : Node E} {id : ChannelId} {i : Channel.Input} {err : ChannelError}
    {e : ChannelEntry} {ch : Channel} (h : Refused n n' id i err e ch)
    (hP : P n (.acted e i (.error err))) : Moves P n n' := by
  refine .one (.refuse id e i err ch h.lookup h.run (by rw [h.state]) (by rw [h.state]) ?_ hP)
  rw [h.state]
  exact .of rfl rfl rfl rfl rfl

/-- What a call of a channel's method does. -/
theorem onChannel_spec (id : ChannelId) (i : Channel.Input) :
    Act.wp (onChannel id i) n (fun a n' => ∃ e ch, Called n n' id i a e ch)
      (fun f n' => n' = n ∧ (∀ err, f ≠ .err (.channel err)) ∨
        ∃ e err ch, f = .err (.channel err) ∧ Refused n n' id i err e ch) := by
  refine (Act.wp_bind _ _).2 (Act.wp_mono (entryOf_spec id) ?_ ?_)
  · rintro e _ ⟨rfl, he⟩
    split
    · next a ch hrun => exact ⟨e, ch, he, hrun, rfl⟩
    · next err ch hrun => exact .inr ⟨e, err, ch, rfl, he, hrun, rfl⟩
    · exact .inl ⟨rfl, nofun⟩
  · rintro f _ ⟨rfl, rfl⟩
    exact .inl ⟨rfl, nofun⟩

/-- What a call of a channel's method does, as moves. -/
theorem onChannel_called {id : ChannelId} {i : Channel.Input}
    (hP : ∀ e r, n.channels.lookup id = some e → Yields (Channel.perform E.C i) e.channel r →
      P n (.acted e i r)) :
    Act.wp (onChannel id i) n
      (fun a n' => ∃ e ch, Called n n' id i a e ch ∧ P n (.acted e i (.ok a)))
      (fun _ n' => Moves P n n') := by
  refine Act.wp_mono (onChannel_spec id i) ?_ ?_
  · rintro a n' ⟨e, ch, hc⟩
    exact ⟨e, ch, hc, hP e _ hc.lookup ⟨ch, hc.run⟩⟩
  · rintro f n' (⟨rfl, -⟩ | ⟨e, err, ch, -, hr⟩)
    · exact .rfl
    · exact hr.moves (hP e _ hr.lookup ⟨ch, hr.run⟩)

/-- Call a method and go on with what it returned. -/
theorem onChannel_moves {α : Type} {id : ChannelId} {i : Channel.Input}
    {f : i.Outcome → NodeAct E α} (hi : ¬ i.Funds)
    (hP : ∀ e r, n.channels.lookup id = some e → Yields (Channel.perform E.C i) e.channel r →
      P n (.acted e i r))
    (hf : ∀ a e ch n', Called n n' id i a e ch → Moves P n n' → MovesOnly P (f a) n') :
    MovesOnly P (onChannel id i >>= f) n := by
  refine Act.ends_bind (Act.wp_mono (onChannel_called hP) ?_ fun _ _ h _ _ => h)
  rintro a n' ⟨e, ch, hc, hPa⟩
  have hm := hc.moves hi hPa
  exact (hf a e ch n' hc hm).mono fun _ => hm.trans

/-- Send what the channel said. -/
theorem sendFor_moves {entry : ChannelEntry} {msg : Wire.Message}
    (h : Said n.history entry.serial msg) : MovesOnly P (sendFor entry msg) n := by
  refine Act.ends_bind (Act.wp_mono (sendToNode_quiet entry.nodeId msg) (fun _ n' hq => ?_)
    fun _ n' hq e' he => (hq e' he).moves)
  refine hq.moves.trans (.one ?_)
  exact .spoke entry.serial msg (hq.history.symm ▸ h) rfl rfl (.of rfl rfl rfl rfl rfl)

end

end Node
