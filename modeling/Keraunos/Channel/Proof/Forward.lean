import Keraunos.Channel.Proof.Calls
import Keraunos.Channel.Proof.Shape

/-!
# Forwarding exactly once

`deliver` is the channel as the node layer sees it: what counts of a call are the inbound HTLCs that
`on_revoke_and_ack` hands over. These are the HTLCs that the revocation commits on both sides, each
of them once and as the peer offered it (`forwardable_once`). In the ledger an inbound HTLC is
committed on both sides when its place in the peer's log is below `settled false`, which only a
revocation moves (`locked_iff`, `Shape.handed`).
-/

open Bitcoin Commitment

/-- What the node gets of an `update_add_htlc`. -/
def CommittedInboundHtlc.ofAdd (msg : Wire.UpdateAddHtlc) : CommittedInboundHtlc :=
  ⟨msg.id, msg.amountMsat, msg.paymentHash, msg.cltvExpiry, msg.onionRoutingPacket⟩

namespace Htlc

/-- What the node gets of an HTLC. -/
def handed (h : Htlc) : CommittedInboundHtlc :=
  ⟨h.id, h.amountMsat, h.paymentHash, h.cltvExpiry, h.onion⟩

/-- What is handed over, and whether it was. -/
def delivered (h : Htlc) : CommittedInboundHtlc × Bool := (h.handed, h.processed)

theorem lockIncluded_delivered (h : Htlc) : h.lockIncluded.delivered = h.delivered := by
  unfold lockIncluded
  simp only
  split <;> split <;> rfl

theorem lockRemoved_delivered (h : Htlc) : h.lockRemoved.delivered = h.delivered := by
  unfold lockRemoved
  simp only
  split <;> split <;> rfl

theorem lockIncluded_resolution (h : Htlc) : h.lockIncluded.resolution = h.resolution := by
  unfold lockIncluded
  simp only
  split <;> split <;> rfl

theorem lockRemoved_resolution (h : Htlc) : h.lockRemoved.resolution = h.resolution := by
  unfold lockRemoved
  simp only
  split <;> split <;> rfl

/-- The peer's HTLC, committed on both sides. -/
def locked (h : Htlc) : Bool :=
  !h.outbound && h.phaseHolder = .committed && h.phaseCounterparty = .committed

end Htlc

namespace Channel

variable {C : Crypto} {ch ch' ch₀ : Channel}

/-- What a call hands to the node. -/
def Input.forwarded : (i : Input) → i.Outcome → List CommittedInboundHtlc
  | .revokeAndAck _, o => RaaOutcome.forwardable o
  | _, _ => []

/-- One step: the HTLCs to forward. -/
def deliver (C : Crypto) (i : Input) : ChannelAct (List CommittedInboundHtlc) :=
  i.forwarded <$> perform C i

end Channel

/-! ## The ledger -/

namespace Ledger

variable {L : Ledger} {e : Entry}

/-- The peer's HTLCs with their onions. -/
def received (L : Ledger) : List (Offer × List UInt8) :=
  (L.entries.filter fun e => !e.outbound).map fun e => (e.toOffer, e.onion)

/-- What the node gets of such an HTLC. -/
def ofReceived (x : Offer × List UInt8) : CommittedInboundHtlc :=
  ⟨x.1.id, x.1.amountMsat, x.1.paymentHash, x.1.cltvExpiry, x.2⟩

theorem received_remove (L : Ledger) (m : Bool) (id : HtlcId) (r : HtlcResolution) :
    (L.remove m id r).received = L.received := by
  show ((L.entries.map _).filter _).map _ = _
  rw [List.filter_map, List.map_map]
  have hfil : L.entries.filter ((fun e => !e.outbound) ∘ fun e =>
      if e.key = (!m, id) then e.resolve (L.log m).length r else e) =
      L.entries.filter fun e => !e.outbound := by
    refine List.filter_congr fun e _ => ?_
    simp only [Function.comp_apply]
    split <;> rfl
  rw [hfil]
  refine List.map_congr_left fun e _ => ?_
  simp only [Function.comp_apply]
  split <;> rfl

theorem received_ids (h : Wf L) : (L.received.map (·.1.id)).Nodup := by
  unfold received
  rw [List.map_map]
  refine List.Nodup.of_map (fun id => (false, id)) ?_
  rw [List.map_map]
  have hkeys : (L.entries.filter fun e => !e.outbound).map
      ((fun id => (false, id)) ∘ (fun x : Offer × List UInt8 => x.1.id) ∘ fun e : Entry =>
        (e.toOffer, e.onion)) = (L.entries.filter fun e => !e.outbound).map Entry.key := by
    refine List.map_congr_left fun e he => ?_
    have ho := (List.mem_filter.1 he).2
    simp_all [Entry.key]
  rw [hkeys]
  exact h.keys.sublist (List.filter_sublist.map _)

/-- An HTLC of the peer is committed on both sides when its add is settled and not removed. -/
theorem locked_iff (h : Wf L) : (L.toHtlc e).locked = true ↔
    e.outbound = false ∧ e.removal = none ∧ e.addAt < L.settled false := by
  have hack := h.settled_le false
  unfold Htlc.locked
  simp only [Bool.and_eq_true, Bool.not_eq_true', toHtlc]
  constructor
  · rintro ⟨⟨ho, hh⟩, hc⟩
    refine ⟨ho, ?_⟩
    rcases hrem : e.removal with _ | ⟨j, r⟩
    · refine ⟨rfl, ?_⟩
      by_contra hlt
      by_cases hlt' : e.addAt < L.acked false <;>
      simp [phase, ho, Entry.backPhase, hrem, hlt, hlt'] at hc
    · by_cases hj : j < L.acked true <;> simp [phase, ho, Entry.backPhase, hrem, hj] at hc
  · rintro ⟨ho, hrem, hlt⟩
    have hlt' : e.addAt < L.acked false := Nat.lt_of_lt_of_le hlt hack
    simp [phase, ho, Entry.backPhase, Entry.frontPhase, hrem, hlt, hlt']

/-- The locks keep what is handed over, and whether it was. -/
theorem lockRevoked_delivered (L : Ledger) (e : Entry) :
    (L.lockRevoked e (L.toHtlc e)).delivered = (L.toHtlc e).delivered := by
  have hin : (if L.entering e then (L.toHtlc e).lockIncluded else L.toHtlc e).delivered =
      (L.toHtlc e).delivered := by
    split
    · exact Htlc.lockIncluded_delivered _
    · rfl
  rw [← hin]
  unfold lockRevoked
  simp only
  split
  · exact Htlc.lockRemoved_delivered _
  · rfl

theorem lockRevoked_key (L : Ledger) (e : Entry) : (L.lockRevoked e (L.toHtlc e)).key = e.key := by
  unfold lockRevoked
  simp only
  split <;> split <;> simp [Channel.Shape.lockIncluded_key, Channel.Shape.lockRemoved_key]

/-- What a revocation leaves committed on both sides. -/
theorem locked_lockRevoked (h : Wf L) (he : e ∈ L.entries) :
    (L.lockRevoked e (L.toHtlc e)).locked = true ↔
      e.outbound = false ∧ e.removal = none ∧ e.addAt < L.signed := by
  have hproc : ∀ h : Htlc, h.process.locked = h.locked := by
    intro h
    unfold Htlc.process
    split <;> rfl
  have hset : L.revoke.settled false = L.signed := by simp [revoke]
  rw [← hproc, ← toHtlc_revoke h he, locked_iff h.revoke, hset]

/-- What is not settled is not removed. -/
theorem removal_of_unsettled (h : Wf L) (he : e ∈ L.entries)
    (hle : L.settled e.outbound ≤ e.addAt) : e.removal = none := by
  rcases hrem : e.removal with _ | ⟨j, r⟩
  · rfl
  · exact absurd ((h.entry e he).removed j r hrem).2 (Nat.not_lt.2 hle)

/-- What a revocation hands over: the peer's HTLCs that it settles. -/
theorem forwardable_lockRevoked (h : Wf L) (he : e ∈ L.entries) :
    (L.lockRevoked e (L.toHtlc e)).forwardable = true ↔
      e.outbound = false ∧ L.settled false ≤ e.addAt ∧ e.addAt < L.signed := by
  have hdone : (L.lockRevoked e (L.toHtlc e)).processed =
      (!e.outbound && decide (e.addAt < L.settled false)) :=
    congrArg Prod.snd (L.lockRevoked_delivered e)
  have hres : (L.lockRevoked e (L.toHtlc e)).resolution = e.removal.map (·.2) := by
    unfold lockRevoked
    simp only
    split <;> split <;> simp [Htlc.lockIncluded_resolution, Htlc.lockRemoved_resolution, toHtlc]
  have hfor : (L.lockRevoked e (L.toHtlc e)).forwardable = true ↔
      (L.lockRevoked e (L.toHtlc e)).locked = true ∧
      (L.lockRevoked e (L.toHtlc e)).processed = false ∧
      (L.lockRevoked e (L.toHtlc e)).resolution = none := by
    simp only [Htlc.forwardable, Htlc.locked, Bool.and_eq_true, Bool.not_eq_true',
      Option.isNone_iff_eq_none]
    tauto
  rw [hfor, locked_lockRevoked h he, hdone, hres]
  constructor
  · rintro ⟨⟨ho, _, hlt⟩, hp, _⟩
    simp only [ho, Bool.not_false, Bool.true_and, decide_eq_false_iff_not, Nat.not_lt] at hp
    exact ⟨ho, hp, hlt⟩
  · rintro ⟨ho, hle, hlt⟩
    have hrem := removal_of_unsettled h he (ho ▸ hle)
    exact ⟨⟨ho, hrem, hlt⟩, by simp [hle], by simp [hrem]⟩

end Ledger

namespace Channel

variable {C : Crypto} {ch ch' ch₀ : Channel} {L : Ledger}

/-- A quiet move leaves what was received and what is settled alone. -/
theorem Quiet.shape (hq : Quiet C ch ch') (hS : Shape L ch) :
    ∃ L', Shape L' ch' ∧ L'.received = L.received ∧ L'.settled false = L.settled false := by
  obtain ⟨hm, htaken⟩ := hq
  cases hm with
  | offer amountMsat paymentHash cltvExpiry onion source _ ha =>
    refine ⟨_, hS.offer ha _ _ _ _ _, ?_, rfl⟩
    simp [Ledger.received, Ledger.add]
  | resolveInbound id r x ha hx =>
    exact ⟨_, hS.resolveInbound ha hx r, L.received_remove _ _ _, rfl⟩
  | receive msg =>
    exact absurd (congrArg Prod.fst htaken) (Nat.succ_ne_self _)
  | resolveOutbound id r x hx =>
    exact ⟨_, hS.resolveOutbound hx r, L.received_remove _ _ _, rfl⟩
  | sign _ _ ha => cases (congrArg (·.2.2) htaken).trans ha
  | revoke => exact absurd (congrArg (·.2.1) htaken) (Nat.succ_ne_self _)
  | _ => exact ⟨L, ⟨hS.wf, hS.htlcs, hS.ids, hS.idle, hS.snapshot⟩, rfl, rfl⟩

theorem QuietMoves.shape (hq : QuietMoves C ch ch') (hS : Shape L ch) :
    ∃ L', Shape L' ch' ∧ L'.received = L.received ∧ L'.settled false = L.settled false := by
  refine hq.invariant (I := fun c => ∃ L', Shape L' c ∧ L'.received = L.received ∧
    L'.settled false = L.settled false) ?_ ⟨L, hS, Eq.refl _, Eq.refl _⟩
  intro a b hab h
  obtain ⟨L', hS', hrec, hset⟩ := h
  obtain ⟨L'', hS'', hrec', hset'⟩ := hab.shape hS'
  exact ⟨L'', hS'', hrec'.trans hrec, hset'.trans hset⟩

theorem MaySign.shape {cs : Option Wire.CommitmentSigned} (hs : MaySign C ch cs ch')
    (hS : Shape L ch) :
    ∃ L', Shape L' ch' ∧ L'.received = L.received ∧ L'.settled false = L.settled false := by
  cases hs with
  | none => exact ⟨L, hS, rfl, rfl⟩
  | some => exact ⟨_, hS.sign _ _, rfl, rfl⟩

section
variable {pending : PendingCounterpartyCommitment} {secrets : Shachain.SecretStore}
  {point : PublicKey}

/-- The HTLCs after a revocation, those handed over included. -/
theorem Shape.mem_revoked (hS : Shape L ch) (ha : ch.awaitingRaa = true)
    (hp : ch.pendingCounterpartyCommitment = some pending) {h : Htlc} :
    h ∈ (ch.acceptRevocation pending secrets point).gcHtlcs.htlcs ↔
      ∃ e ∈ L.entries, L.baked e = false ∧ h = L.lockRevoked e (L.toHtlc e) ∧ h.isGone = false := by
  show h ∈ List.filter _ _ ↔ _
  rw [List.mem_filter, hS.acceptRevocation_htlcs ha hp, List.mem_map]
  constructor
  · intro ⟨⟨e, he, heq⟩, hg⟩
    obtain ⟨hmem, hb⟩ := List.mem_filter.1 he
    exact ⟨e, hmem, by simpa using hb, heq.symm, by simpa using hg⟩
  · intro ⟨e, he, hb, heq, hg⟩
    exact ⟨⟨e, List.mem_filter.2 ⟨he, by simpa using hb⟩, heq.symm⟩, by simpa using hg⟩

/-- The HTLCs handed over, from the ledger. -/
theorem Shape.handed (hS : Shape L ch) (ha : ch.awaitingRaa = true)
    (hp : ch.pendingCounterpartyCommitment = some pending) :
    ((ch.acceptRevocation pending secrets point).gcHtlcs.htlcs.filter Htlc.forwardable).map
        Htlc.handed =
      (L.received.filter fun x => L.settled false ≤ x.1.addAt && x.1.addAt < L.signed).map
        Ledger.ofReceived := by
  show (((ch.acceptRevocation pending secrets point).htlcs.filter fun h => !h.isGone).filter
    Htlc.forwardable).map Htlc.handed = _
  rw [hS.acceptRevocation_htlcs ha hp, Ledger.received, List.filter_map, List.filter_map,
    List.filter_map, List.map_map, List.map_map, List.filter_filter, List.filter_filter,
    List.filter_filter]
  refine (congrArg (List.map _) (List.filter_congr fun e he => ?_)).trans
    (List.map_congr_left fun e _ => congrArg Prod.fst (L.lockRevoked_delivered e))
  have hiff := Ledger.forwardable_lockRevoked hS.wf he
  rw [Bool.eq_iff_iff]
  simp only [Function.comp_apply, Bool.and_eq_true, Bool.not_eq_true', decide_eq_true_eq, hiff]
  constructor
  · intro ⟨⟨⟨ho, hle, hlt⟩, _⟩, _⟩
    exact ⟨⟨hle, hlt⟩, ho⟩
  · intro ⟨⟨hle, hlt⟩, ho⟩
    have hfor := hiff.2 ⟨ho, hle, hlt⟩
    simp only [Htlc.forwardable, Bool.and_eq_true, decide_eq_true_eq] at hfor
    refine ⟨⟨⟨ho, hle, hlt⟩, by simp [Htlc.isGone, hfor.2]⟩, ?_⟩
    simp [Ledger.baked, Ledger.removal_of_unsettled hS.wf he (ho ▸ hle)]

end

/-! ## What becomes committed -/

/-- Every HTLC of the peer that is committed on both sides in `ch'` was so in `ch`. -/
def LocksNothing (ch ch' : Channel) : Prop :=
  ∀ h ∈ ch'.htlcs, h.locked = true → ∃ h' ∈ ch.htlcs, h'.key = h.key ∧ h'.locked = true

theorem LocksNothing.trans {ch'' : Channel} (h : LocksNothing ch ch') (h' : LocksNothing ch' ch'') :
    LocksNothing ch ch'' := by
  intro x hx hl
  obtain ⟨y, hy, hk, hl'⟩ := h' x hx hl
  obtain ⟨z, hz, hk', hl''⟩ := h y hy hl'
  exact ⟨z, hz, hk'.trans hk, hl''⟩

/-- A mutation that leaves its HTLC off one side. -/
theorem locksNothing_mutFirst {k : Bool × HtlcId} {f : Htlc → Htlc}
    (hf : ∀ h, h.key = k → (f h).locked = false) (hs : ch'.htlcs = htlcMut k f ch.htlcs) :
    LocksNothing ch ch' := by
  intro x hx hl
  rw [hs] at hx
  rcases List.mem_mutFirst hx with hx | ⟨a, ha, rfl⟩
  · exact ⟨x, hx, rfl, hl⟩
  · have hk := List.find?_some ha
    cases hl.symm.trans (hf a (of_decide_eq_true hk))

theorem locksNothing_concat {x : Htlc} (hx : x.locked = false) (hs : ch'.htlcs = ch.htlcs ++ [x]) :
    LocksNothing ch ch' := by
  intro y hy hl
  rw [hs] at hy
  rcases List.mem_append.1 hy with hy | hy
  · exact ⟨y, hy, rfl, hl⟩
  · obtain rfl := List.mem_singleton.1 hy
    cases hx.symm.trans hl

theorem locksNothing_refl (hs : ch'.htlcs = ch.htlcs) : LocksNothing ch ch' :=
  fun x hx hl => ⟨x, hs ▸ hx, rfl, hl⟩

theorem Quiet.locksNothing (hq : Quiet C ch ch') : LocksNothing ch ch' := by
  obtain ⟨hm, htaken⟩ := hq
  cases hm with
  | offer => exact locksNothing_concat (by simp [Htlc.locked]) rfl
  | resolveInbound =>
    refine locksNothing_mutFirst ?_ rfl
    simp [Htlc.locked]
  | receive => exact absurd (congrArg Prod.fst htaken) (Nat.succ_ne_self _)
  | resolveOutbound =>
    refine locksNothing_mutFirst ?_ rfl
    simp [Htlc.locked]
  | revoke => exact absurd (congrArg (·.2.1) htaken) (Nat.succ_ne_self _)
  | _ => exact locksNothing_refl rfl

theorem QuietMoves.locksNothing (hq : QuietMoves C ch ch') : LocksNothing ch ch' :=
  hq.invariant (I := LocksNothing ch) (fun _ _ hab h => h.trans hab.locksNothing)
    (locksNothing_refl (Eq.refl _))

theorem MaySign.locksNothing {cs : Option Wire.CommitmentSigned} (hs : MaySign C ch cs ch') :
    LocksNothing ch ch' := by
  cases hs <;> exact locksNothing_refl rfl

/-- Our commitment is the last of the two that an HTLC of the peer enters. -/
theorem accept_locksNothing (h : Phased ch) (number : Nat) (b : Built)
    (msg : Wire.CommitmentSigned) :
    LocksNothing ch (ch.acceptCommitment number b msg).gcHtlcs := by
  intro x hx hl
  have hmem : x ∈ (ch.htlcs.map Htlc.lockHolder).map Htlc.acknowledge := (List.mem_filter.1 hx).1
  rw [List.map_map] at hmem
  obtain ⟨y, hy, rfl⟩ := List.mem_map.1 hmem
  refine ⟨y, hy, ?_, ?_⟩
  · exact (congrArg Prod.fst (fixed_lockHolder_acknowledge y)).symm
  · rcases (h.disciplined y hy).stages with ⟨ho, h1⟩ | ⟨ho, h1⟩
    · rcases h1 with h1 | h1 | h1 | h1 | h1 <;> obtain ⟨hh, hc, hr⟩ := h1 <;>
      simp [Htlc.locked, Htlc.lockHolder, Htlc.acknowledge, Htlc.acksAdd, Htlc.acksRemoval, ho, hh,
        hc, hr] at hl
    · rcases h1 with h1 | h1 | h1 | h1 | h1 | h1 <;> obtain ⟨hh, hc, hr⟩ := h1 <;>
      simp [Htlc.locked, Htlc.lockHolder, Htlc.acknowledge, Htlc.acksAdd, Htlc.acksRemoval, ho, hh,
        hc, hr] at hl ⊢

/-- `fs` are the HTLCs of the peer that a revocation commits on both sides, none of them resolved. -/
structure HandsOver (ch mid : Channel) (fs : List CommittedInboundHtlc) : Prop where
  sound : ∀ c ∈ fs, ∃ h ∈ mid.htlcs, c = h.handed ∧ h.locked = true ∧ h.resolution = none ∧
    ∀ h' ∈ ch.htlcs, h'.key = h.key → h'.locked = false
  complete : ∀ h ∈ mid.htlcs, h.locked = true →
    h.handed ∈ fs ∨ ∃ h' ∈ ch.htlcs, h'.key = h.key ∧ h'.locked = true

theorem Shape.handsOver (hS : Shape L ch) (ha : ch.awaitingRaa = true)
    {pending : PendingCounterpartyCommitment}
    (hp : ch.pendingCounterpartyCommitment = some pending) (secrets : Shachain.SecretStore)
    (point : PublicKey) :
    HandsOver ch (ch.acceptRevocation pending secrets point).gcHtlcs
      (((ch.acceptRevocation pending secrets point).gcHtlcs.htlcs.filter Htlc.forwardable).map
        Htlc.handed) := by
  refine ⟨fun c hc => ?_, fun h hh hl => ?_⟩
  · obtain ⟨h, hh, rfl⟩ := List.mem_map.1 hc
    obtain ⟨hmem, hfor⟩ := List.mem_filter.1 hh
    obtain ⟨e, he, -, rfl, -⟩ := (hS.mem_revoked ha hp).1 hmem
    obtain ⟨ho, hle, -⟩ := (Ledger.forwardable_lockRevoked hS.wf he).1 hfor
    refine ⟨_, hmem, rfl, ?_, ?_, fun h' hh' hk => ?_⟩
    · simp_all [Htlc.forwardable, Htlc.locked]
    · simp_all [Htlc.forwardable]
    · rw [hS.htlcs] at hh'
      obtain ⟨e', he', -, rfl⟩ := Ledger.mem_htlcs.1 hh'
      obtain rfl := Ledger.eq_of_key hS.wf he' he (hk.trans (L.lockRevoked_key e))
      rw [← Bool.not_eq_true, Ledger.locked_iff hS.wf]
      exact fun hl => absurd hl.2.2 (Nat.not_lt.2 hle)
  · obtain ⟨e, he, hb, rfl, -⟩ := (hS.mem_revoked ha hp).1 hh
    obtain ⟨ho, hrem, hlt⟩ := (Ledger.locked_lockRevoked hS.wf he).1 hl
    by_cases hset : e.addAt < L.settled false
    · refine .inr ⟨L.toHtlc e, hS.htlcs ▸ Ledger.mem_htlcs.2 ⟨e, he, hb, rfl⟩,
        (L.lockRevoked_key e).symm, ?_⟩
      exact (Ledger.locked_iff hS.wf).2 ⟨ho, hrem, hset⟩
    · refine .inl (List.mem_map_of_mem (List.mem_filter.2 ⟨hh, ?_⟩))
      exact (Ledger.forwardable_lockRevoked hS.wf he).2 ⟨ho, Nat.le_of_not_lt hset, hlt⟩

/-! ## Runs -/

/-- The HTLCs handed over in a run, in order. -/
def handedOver (tr : Trace Input ChannelError (List CommittedInboundHtlc)) :
    List CommittedInboundHtlc :=
  tr.flatMap fun x => x.2.toOption.getD []

/-- The add an accepted input brings. -/
def acceptedAdd : Input × Except ChannelError (List CommittedInboundHtlc) →
    Option Wire.UpdateAddHtlc
  | (.updateAddHtlc msg, .ok _) => some msg
  | _ => none

/-- What a run has received and handed over, in the ledger. -/
structure Tracked (tr : Trace Input ChannelError (List CommittedInboundHtlc)) (L : Ledger)
    (ch : Channel) : Prop where
  shape : Shape L ch
  received : L.received.map Ledger.ofReceived = (tr.filterMap acceptedAdd).map .ofAdd
  known : ∀ c ∈ handedOver tr, ∃ x ∈ L.received, x.1.addAt < L.settled false ∧
    c = Ledger.ofReceived x
  once : ((handedOver tr).map (·.id)).Nodup

section
variable {tr : Trace Input ChannelError (List CommittedInboundHtlc)}

/-- A call that takes and hands over nothing. -/
theorem Tracked.idle (h : Tracked tr L ch) {L' : Ledger} (hS : Shape L' ch')
    (hrec : L'.received = L.received) (hset : L'.settled false = L.settled false)
    {x : Input × Except ChannelError (List CommittedInboundHtlc)} (hacc : acceptedAdd x = none)
    (hnil : x.2.toOption.getD [] = []) : Tracked (tr ++ [x]) L' ch' := by
  have hhand : handedOver (tr ++ [x]) = handedOver tr := by simp [handedOver, hnil]
  refine ⟨hS, ?_, ?_, ?_⟩
  · simp [hrec, h.received, hacc]
  · rw [hhand, hrec, hset]
    exact h.known
  · rw [hhand]
    exact h.once

theorem Tracked.quiet (h : Tracked tr L ch) (hq : QuietMoves C ch ch')
    {x : Input × Except ChannelError (List CommittedInboundHtlc)} (hacc : acceptedAdd x = none)
    (hnil : x.2.toOption.getD [] = []) : ∃ L', Tracked (tr ++ [x]) L' ch' := by
  obtain ⟨L', hS, hrec, hset⟩ := hq.shape h.shape
  exact ⟨L', h.idle hS hrec hset hacc hnil⟩

theorem Tracked.receive (h : Tracked tr L ch) {msg : Wire.UpdateAddHtlc}
    (hc : ch.checkUpdateAddHtlc msg = .ok ()) :
    ∃ L', Tracked (tr ++ [(.updateAddHtlc msg, .ok [])]) L' (ch.receive msg) := by
  have hid : msg.id = ch.nextCounterpartyHtlcId := by
    simp only [checkUpdateAddHtlc, Fault.bind_eq_ok, Fault.require_eq_ok] at hc
    obtain ⟨_, -, _, -, _, hid, -⟩ := hc
    exact hid
  have hhand : handedOver (tr ++ [(.updateAddHtlc msg, .ok [])]) = handedOver tr := by
    simp [handedOver, Except.toOption]
  have hrec : (L.add false msg.id msg.amountMsat msg.paymentHash msg.cltvExpiry
      msg.onionRoutingPacket none).received = L.received ++
      [(⟨(L.log false).length, msg.id, msg.amountMsat, msg.paymentHash, msg.cltvExpiry⟩,
        msg.onionRoutingPacket)] := by
    simp [Ledger.received, Ledger.add]
  refine ⟨_, h.shape.receive hid, ?_, ?_, hhand ▸ h.once⟩
  · simp [hrec, h.received, acceptedAdd, Ledger.ofReceived, CommittedInboundHtlc.ofAdd]
  · rw [hhand, hrec]
    intro c hc
    obtain ⟨x, hx, hlt, rfl⟩ := h.known c hc
    exact ⟨x, List.mem_append_left _ hx, hlt, rfl⟩

/-- A revocation hands over what it settles: nothing that was handed over before. -/
theorem Tracked.revoke (h : Tracked tr L ch) (msg : Wire.RevokeAndAck)
    {pending : PendingCounterpartyCommitment} (secrets : Shachain.SecretStore)
    (ha : ch.awaitingRaa = true) (hp : ch.pendingCounterpartyCommitment = some pending) :
    Tracked (tr ++ [(.revokeAndAck msg, .ok (((ch.acceptRevocation pending secrets
        msg.nextPerCommitmentPoint).gcHtlcs.htlcs.filter Htlc.forwardable).map Htlc.handed))])
      L.revoke (ch.revoked pending secrets msg.nextPerCommitmentPoint) := by
  have hS := h.shape.revoke ha hp secrets msg.nextPerCommitmentPoint
  have hset : L.revoke.settled false = L.signed := by simp [Ledger.revoke]
  have hids := Ledger.received_ids h.shape.wf
  rw [h.shape.handed ha hp]
  have hhand : ∀ fs, handedOver (tr ++ [(.revokeAndAck msg, .ok fs)]) = handedOver tr ++ fs := by
    intro fs
    simp [handedOver, Except.toOption]
  refine ⟨⟨hS.wf, hS.htlcs, hS.ids, hS.idle, hS.snapshot⟩, ?_, ?_, ?_⟩
  · simp only [List.filterMap_append, List.filterMap_cons, acceptedAdd, List.filterMap_nil,
      List.append_nil]
    exact h.received
  · rw [hhand, hset]
    intro c hc
    rcases List.mem_append.1 hc with hc | hc
    · obtain ⟨x, hx, hlt, rfl⟩ := h.known c hc
      exact ⟨x, hx, Nat.lt_of_lt_of_le hlt h.shape.wf.le_signed, rfl⟩
    · obtain ⟨x, hx, rfl⟩ := List.mem_map.1 hc
      obtain ⟨hmem, hcond⟩ := List.mem_filter.1 hx
      simp only [Bool.and_eq_true, decide_eq_true_eq] at hcond
      exact ⟨x, hmem, hcond.2, rfl⟩
  · rw [hhand, List.map_append, List.nodup_append]
    refine ⟨h.once, ?_, ?_⟩
    · rw [List.map_map]
      exact hids.sublist (List.filter_sublist.map _)
    · intro a ha b hb hab
      obtain ⟨c, hc, rfl⟩ := List.mem_map.1 ha
      obtain ⟨c', hc', rfl⟩ := List.mem_map.1 hb
      obtain ⟨x, hx, hlt, rfl⟩ := h.known c hc
      obtain ⟨y, hy, rfl⟩ := List.mem_map.1 hc'
      obtain ⟨hmem, hcond⟩ := List.mem_filter.1 hy
      simp only [Bool.and_eq_true, decide_eq_true_eq] at hcond
      obtain rfl : x = y := List.inj_on_of_nodup_map hids hx hmem hab
      exact absurd hlt (Nat.not_lt.2 hcond.1)

/-- A quiet call hands nothing over. -/
theorem forwarded_of_quiet {i : Input} (hq : i.Quiet) (o : i.Outcome) :
    i.forwarded o = [] ∧ acceptedAdd (i, .ok (i.forwarded o)) = none := by
  cases i <;> first | exact ⟨rfl, rfl⟩ | exact hq.elim

theorem Tracked.calls (h : Tracked tr L ch) {i : Input} {o : i.Outcome} (hd : i ≠ .disconnect)
    (hc : Calls C ch i o ch') : ∃ L', Tracked (tr ++ [(i, .ok (i.forwarded o))]) L' ch' := by
  cases hc with
  | quiet hq hm =>
    obtain ⟨hnil, hacc⟩ := forwarded_of_quiet hq o
    exact h.quiet hm hacc hnil
  | received msg hc => exact h.receive hc
  | signed => exact ⟨_, h.idle (h.shape.sign _ _) rfl rfl rfl rfl⟩
  | accepted msg m b => exact ⟨_, h.idle (h.shape.accept _ b msg) rfl rfl rfl rfl⟩
  | revoked msg o pending secrets ha hp hm hs hfor =>
    have hrev := h.revoke msg secrets ha hp
    obtain ⟨L', hS, hrec, hset⟩ := hm.shape hrev.shape
    obtain ⟨L'', hS', hrec', hset'⟩ := hs.shape hS
    rw [show Input.forwarded (.revokeAndAck msg) o = _ from hfor]
    refine ⟨L'', hS', ?_, ?_, hrev.once⟩
    · rw [hrec', hrec]
      exact hrev.received
    · rw [hrec', hrec, hset', hset]
      exact hrev.known
  | lost => exact absurd rfl hd

/-- The same run, by the messages it sends. -/
theorem step_run_of_deliver (hr : Run (deliver C) ch₀ tr ch) :
    ∃ tr', Run (step C) ch₀ tr' ch ∧ tr'.map Prod.fst = tr.map Prod.fst :=
  Run.relabel (p := perform C) (a := Input.forwarded) (b := Input.toSend) hr

theorem tracked_of_run (h₀ : Fresh C ch₀) (hr : Run (deliver C) ch₀ tr ch)
    (hd : ∀ x ∈ tr, x.1 ≠ .disconnect) : ∃ L, Tracked tr L ch := by
  induction hr with
  | nil => exact ⟨{}, h₀.initial.shape, rfl, by simp [handedOver], by simp [handedOver]⟩
  | @ok tr ch ch' i fs hr hf ih =>
    obtain ⟨L, hL⟩ := ih fun x hx => hd x (List.mem_append_left _ hx)
    obtain ⟨tr', hr', -⟩ := step_run_of_deliver hr
    obtain ⟨o, ho, rfl⟩ := Act.map_eq_ok.1 hf
    exact hL.calls (hd (i, .ok (i.forwarded o)) (by simp)) (Act.wp_ok (perform_calls (inUse_of_run h₀ hr') i) ho)
  | @err tr ch ch' i e hr hf ih =>
    obtain ⟨L, hL⟩ := ih fun x hx => hd x (List.mem_append_left _ hx)
    obtain ⟨tr', hr', -⟩ := step_run_of_deliver hr
    refine hL.quiet (Act.wp_error (perform_calls (inUse_of_run h₀ hr') i)
      (Act.map_eq_error.1 hf) e rfl) ?_ rfl
    cases i <;> rfl

/-- Without a disconnect, whatever the peer sends: an inbound HTLC is handed over at most once, as
the one `update_add_htlc` that created it says; the HTLCs handed over by a `revoke_and_ack` are those
that it commits on both sides, none of them resolved; and no other call, and no call that fails,
commits an inbound HTLC on both sides or hands one over. -/
theorem forwardable_once (h₀ : Fresh C ch₀) (hr : Run (deliver C) ch₀ tr ch)
    (hd : ∀ x ∈ tr, x.1 ≠ .disconnect) :
    ((handedOver tr).map (·.id)).Nodup ∧
    ((tr.filterMap acceptedAdd).map (·.id)).Nodup ∧
    (∀ c ∈ handedOver tr, ∃ msg ∈ tr.filterMap acceptedAdd, c = .ofAdd msg) ∧
    (∀ msg fs ch', deliver C (.revokeAndAck msg) ch = .ok fs ch' →
      ∃ pending secrets, ch.pendingCounterpartyCommitment = some pending ∧
        HandsOver ch (ch.acceptRevocation pending secrets msg.nextPerCommitmentPoint).gcHtlcs fs ∧
        LocksNothing (ch.acceptRevocation pending secrets msg.nextPerCommitmentPoint).gcHtlcs ch') ∧
    (∀ i fs ch', i ≠ .disconnect → (∀ msg, i ≠ .revokeAndAck msg) → deliver C i ch = .ok fs ch' →
      fs = [] ∧ LocksNothing ch ch') ∧
    ∀ i e ch', i ≠ .disconnect → deliver C i ch = .error (.err e) ch' → LocksNothing ch ch' := by
  obtain ⟨L, hL⟩ := tracked_of_run h₀ hr hd
  obtain ⟨tr', hr', -⟩ := step_run_of_deliver hr
  have huse := inUse_of_run h₀ hr'
  refine ⟨hL.once, ?_, fun c hc => ?_, fun msg fs ch' hok => ?_, fun i fs ch' hi hno hok => ?_,
    fun i e ch' hi herr => ?_⟩
  · have hids : (L.received.map Ledger.ofReceived).map (·.id) = L.received.map (·.1.id) := by
      rw [List.map_map]
      rfl
    have hacc : ((tr.filterMap acceptedAdd).map .ofAdd).map CommittedInboundHtlc.id =
        (tr.filterMap acceptedAdd).map (·.id) := by
      rw [List.map_map]
      rfl
    rw [← hacc, ← hL.received, hids]
    exact Ledger.received_ids hL.shape.wf
  · obtain ⟨x, hx, -, rfl⟩ := hL.known c hc
    have hmem : Ledger.ofReceived x ∈ (tr.filterMap acceptedAdd).map .ofAdd :=
      hL.received ▸ List.mem_map_of_mem hx
    obtain ⟨msg, hmsg, heq⟩ := List.mem_map.1 hmem
    exact ⟨msg, hmsg, heq.symm⟩
  · obtain ⟨o, ho, rfl⟩ := Act.map_eq_ok.1 hok
    have hcall := Act.wp_ok (perform_calls huse _) ho
    cases hcall with
    | quiet hq => exact hq.elim
    | revoked _ _ pending secrets ha hp hm hs hfor =>
      refine ⟨pending, secrets, hp, ?_, ?_⟩
      · rw [show Input.forwarded (.revokeAndAck msg) o = _ from hfor]
        exact hL.shape.handsOver ha hp secrets _
      · refine LocksNothing.trans ?_ (hm.locksNothing.trans hs.locksNothing)
        intro x hx hl
        obtain ⟨y, hy, rfl⟩ := List.mem_map.1 hx
        refine ⟨y, hy, ?_, ?_⟩
        · exact (congrArg Prod.fst (fixed_process y)).symm
        · unfold Htlc.process at hl
          split at hl <;> exact hl
  · obtain ⟨o, ho, rfl⟩ := Act.map_eq_ok.1 hok
    have hcall := Act.wp_ok (perform_calls huse i) ho
    cases hcall with
    | quiet hq hm => exact ⟨(forwarded_of_quiet hq o).1, hm.locksNothing⟩
    | received msg => exact ⟨rfl, locksNothing_concat (by simp [Htlc.locked]) rfl⟩
    | signed => exact ⟨rfl, locksNothing_refl rfl⟩
    | accepted msg m b => exact ⟨rfl, accept_locksNothing (phased_of_run h₀ hr') _ b msg⟩
    | revoked msg => exact absurd rfl (hno msg)
    | lost => exact absurd rfl hi
  · exact (Act.wp_error (perform_calls huse i) (Act.map_eq_error.1 herr) e rfl).locksNothing

end

/-- The accepter of a payment, handed over by the `revoke_and_ack` that commits it. -/
theorem forwardable_once_bob :
    ∃ tr ch, Run (deliver Demo.C) Demo.bob.1 tr ch ∧ (∀ x ∈ tr, x.1 ≠ .disconnect) ∧
      (handedOver tr).length = 1 ∧ ((handedOver tr).map (·.id)).Nodup := by
  have hany : ((Run.exec (deliver Demo.C) Demo.bob.1 (Pair.inputs Demo.C .b Demo.start
      (Demo.handshake ++ Demo.payment))).any fun r =>
      (handedOver r.1).length = 1 ∧ ∀ x ∈ r.1, x.1 ≠ .disconnect) = true := by
    rw [Demo.bob_tabled, Demo.start_tabled]
    decide +kernel
  obtain ⟨r, hexec, hr⟩ := (Option.any_eq_true _ _).1 hany
  obtain ⟨hlen, hd⟩ := of_decide_eq_true hr
  have hrun := Run.of_exec hexec
  exact ⟨r.1, r.2, hrun, hd, hlen, (forwardable_once Demo.bob_fresh hrun hd).1⟩

end Channel
