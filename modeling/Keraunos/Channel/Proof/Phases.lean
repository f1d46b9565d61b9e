import Keraunos.Channel.Pair
import Keraunos.Channel.Proof.Moves

/-!
# Phase discipline

Of the pairs of phases an HTLC could have, a channel only reaches eleven, and an HTLC is resolved
exactly when it has left, or is leaving, one of the two commitments (`Htlc.Disciplined`). This holds
in every run, disconnects included (`phase_discipline`).

The loops of `on_revoke_and_ack` find HTLCs by direction and id, which a peer can make ambiguous.
What carries the proof is that a resolved inbound HTLC is the first of its key (`Phased.first`), so
the key of a snapshot leads to the HTLC that was leaving (`Phased.removed`).
-/

namespace Htlc

/-- The pairs `(phase_holder, phase_counterparty)` of an HTLC of one direction. -/
def phasePairs (outbound : Bool) : List (HtlcPhase × HtlcPhase) :=
  if outbound then
    [(.notYet, .pending), (.pending, .committed), (.committed, .committed), (.removing, .committed),
      (.gone, .removing)]
  else
    [(.pending, .notYet), (.committed, .notYet), (.committed, .pending), (.committed, .committed),
      (.committed, .removing), (.removing, .gone)]

/-- The phases are a pair of its direction, and it is resolved if one of them says so. -/
structure Disciplined (h : Htlc) : Prop where
  phases : (h.phaseHolder, h.phaseCounterparty) ∈ phasePairs h.outbound
  resolved : h.resolution.isSome = (h.phaseHolder.credited || h.phaseCounterparty.credited)

/-- Disciplined, or about to be collected. -/
def Settling (h : Htlc) : Prop := h.Disciplined ∨ h.isGone = true ∧ h.resolution.isSome

variable {h : Htlc}

/-- The stages of an HTLC, by direction. -/
theorem Disciplined.stages (hd : h.Disciplined) :
    h.outbound = true ∧
      (h.phaseHolder = .notYet ∧ h.phaseCounterparty = .pending ∧ h.resolution = none ∨
      h.phaseHolder = .pending ∧ h.phaseCounterparty = .committed ∧ h.resolution = none ∨
      h.phaseHolder = .committed ∧ h.phaseCounterparty = .committed ∧ h.resolution = none ∨
      h.phaseHolder = .removing ∧ h.phaseCounterparty = .committed ∧ h.resolution.isSome ∨
      h.phaseHolder = .gone ∧ h.phaseCounterparty = .removing ∧ h.resolution.isSome) ∨
    h.outbound = false ∧
      (h.phaseHolder = .pending ∧ h.phaseCounterparty = .notYet ∧ h.resolution = none ∨
      h.phaseHolder = .committed ∧ h.phaseCounterparty = .notYet ∧ h.resolution = none ∨
      h.phaseHolder = .committed ∧ h.phaseCounterparty = .pending ∧ h.resolution = none ∨
      h.phaseHolder = .committed ∧ h.phaseCounterparty = .committed ∧ h.resolution = none ∨
      h.phaseHolder = .committed ∧ h.phaseCounterparty = .removing ∧ h.resolution.isSome ∨
      h.phaseHolder = .removing ∧ h.phaseCounterparty = .gone ∧ h.resolution.isSome) := by
  obtain ⟨hp, hr⟩ := hd
  cases ho : h.outbound <;>
  simp only [ho, phasePairs, if_true, Bool.false_eq_true, if_false, List.mem_cons, Prod.mk.injEq,
    List.not_mem_nil, or_false] at hp
  · rcases hp with ⟨h1, h2⟩ | ⟨h1, h2⟩ | ⟨h1, h2⟩ | ⟨h1, h2⟩ | ⟨h1, h2⟩ | ⟨h1, h2⟩ <;>
    simp_all [HtlcPhase.credited]
  · rcases hp with ⟨h1, h2⟩ | ⟨h1, h2⟩ | ⟨h1, h2⟩ | ⟨h1, h2⟩ | ⟨h1, h2⟩ <;>
    simp_all [HtlcPhase.credited]

/-! ## Transitions -/

/-- `apply_balance` credits no HTLC without a resolution. -/
theorem Disciplined.credited (hd : h.Disciplined) {side : Bool}
    (hc : (h.phase side).credited = true) : h.resolution.isSome := by
  rw [hd.resolved]
  cases side
  · exact Bool.or_eq_true_iff.2 (.inr hc)
  · exact Bool.or_eq_true_iff.2 (.inl hc)

theorem Disciplined.settling (hd : h.Disciplined) : h.Settling := .inl hd

/-- What is left after collecting. -/
theorem Settling.disciplined (hs : h.Settling) (hg : h.isGone = false) : h.Disciplined := by
  rcases hs with hd | ⟨hg', -⟩
  · exact hd
  · cases hg.symm.trans hg'

theorem Settling.resolved (hs : h.Settling) (hg : h.isGone = true) : h.resolution.isSome := by
  rcases hs with hd | ⟨-, hr⟩
  · rw [hd.resolved]
    simp only [isGone, Bool.and_eq_true, decide_eq_true_eq] at hg
    simp [hg.1, HtlcPhase.credited]
  · exact hr

/-- On both commitments and not resolved. -/
theorem disciplined_committed (hh : h.phaseHolder = .committed)
    (hc : h.phaseCounterparty = .committed) (hr : h.resolution = none) : h.Disciplined := by
  refine ⟨?_, by simp [hh, hc, hr, HtlcPhase.credited]⟩
  rw [hh, hc]
  cases h.outbound <;> decide

theorem Disciplined.lockHolder_acknowledge (hd : h.Disciplined) :
    h.lockHolder.acknowledge.Settling := by
  rcases hd.stages with ⟨ho, h1 | h1 | h1 | h1 | h1⟩ | ⟨ho, h1 | h1 | h1 | h1 | h1 | h1⟩ <;>
  obtain ⟨hh, hc, hr⟩ := h1
  case inr.inr.inr.inr.inr.inr =>
    exact .inr (by simp [lockHolder, acknowledge, acksAdd, acksRemoval, isGone, ho, hh, hc, hr])
  all_goals
    refine .inl ⟨?_, ?_⟩ <;>
    simp [lockHolder, acknowledge, acksAdd, acksRemoval, ho, hh, hc, hr, phasePairs,
      HtlcPhase.credited]

@[simp] theorem lockIncluded_phaseCounterparty (h : Htlc) : h.lockIncluded.phaseCounterparty =
    if h.phaseCounterparty = .pending then .committed else h.phaseCounterparty := by
  unfold Htlc.lockIncluded
  split <;> simp only <;> split <;> rfl

@[simp] theorem lockRemoved_phaseCounterparty (h : Htlc) : h.lockRemoved.phaseCounterparty =
    if h.phaseCounterparty = .removing then .gone else h.phaseCounterparty := by
  unfold Htlc.lockRemoved
  split <;> simp only <;> split <;> rfl

theorem Settling.lockIncluded (hs : h.Settling) : h.lockIncluded.Settling := by
  rcases hs with hd | ⟨hg, hr⟩
  · rcases hd.stages with ⟨ho, h1 | h1 | h1 | h1 | h1⟩ | ⟨ho, h1 | h1 | h1 | h1 | h1 | h1⟩ <;>
    obtain ⟨hh, hc, hr⟩ := h1 <;>
    refine .inl ⟨?_, ?_⟩ <;>
    simp [Htlc.lockIncluded, ho, hh, hc, hr, phasePairs, HtlcPhase.credited]
  · simp only [isGone, Bool.and_eq_true, decide_eq_true_eq] at hg
    exact .inr (by simp [Htlc.lockIncluded, isGone, hg, hr])

/-- An inbound HTLC is locked out of our commitment only when it has left theirs. -/
theorem Settling.lockRemoved (hs : h.Settling)
    (hc : h.outbound = false → h.phaseCounterparty.credited = true) : h.lockRemoved.Settling := by
  rcases hs with hd | ⟨hg, hr⟩
  · rcases hd.stages with ⟨ho, h1⟩ | ⟨ho, h1⟩
    · rcases h1 with h1 | h1 | h1 | h1 | h1 <;> obtain ⟨hh, hcp, hr⟩ := h1
      case inr.inr.inr.inr =>
        exact .inr (by simp [Htlc.lockRemoved, isGone, ho, hh, hcp, hr])
      all_goals
        refine .inl ⟨?_, ?_⟩ <;>
        simp [Htlc.lockRemoved, ho, hh, hcp, hr, phasePairs, HtlcPhase.credited]
    · have hleft := hc ho
      rcases h1 with h1 | h1 | h1 | h1 | h1 | h1 <;> obtain ⟨hh, hcp, hr⟩ := h1 <;>
      simp only [hcp, HtlcPhase.credited, Bool.false_eq_true] at hleft <;>
      refine .inl ⟨?_, ?_⟩ <;>
      simp [Htlc.lockRemoved, ho, hh, hcp, hr, phasePairs, HtlcPhase.credited]
  · simp only [isGone, Bool.and_eq_true, decide_eq_true_eq] at hg
    exact .inr (by simp [Htlc.lockRemoved, isGone, hg, hr])

theorem Disciplined.process (hd : h.Disciplined) : h.process.Disciplined := by
  unfold Htlc.process
  split
  · exact ⟨hd.phases, hd.resolved⟩
  · exact hd

end Htlc

namespace Channel

open Bitcoin

/-! ## Rollback -/

/-- Our own resolution, queued again: a malformed one is not. -/
def requeuedRemoval (h : Htlc) : List HoldingCellOp :=
  match h.resolution with
  | some (.fulfill p) => [.fulfill h.id p]
  | some (.fail r) => [.fail h.id r]
  | _ => []

/-- What the loop of `on_disconnect` makes of an HTLC, by its stage. -/
inductive RollsBack (ch : Channel) (h : Htlc) : Rollback → Prop
  | keep : (h.phaseCounterparty = .pending → h.key ∈ ch.snapshotIncluded) →
      (h.phaseCounterparty = .removing → h.key ∈ ch.snapshotRemoved) →
      (h.outbound = true → h.phaseHolder ≠ .removing) →
      (h.outbound = false → h.phaseHolder = .pending → ch.inOurCurrent h = true) →
      RollsBack ch h { keep := some h }
  | unoffer (source : HtlcSource) : h.outbound = true → h.phaseHolder = .notYet →
      h.phaseCounterparty = .pending → h.key ∉ ch.snapshotIncluded → h.source = some source →
      RollsBack ch h { keep := none
                       requeue := [.add h.amountMsat h.paymentHash h.cltvExpiry h.onion source] }
  | unacknowledge : h.outbound = false → h.phaseHolder = .committed →
      h.phaseCounterparty = .pending → h.key ∉ ch.snapshotIncluded →
      RollsBack ch h { keep := some { h with phaseCounterparty := .notYet } }
  | unresolve : h.outbound = false → h.phaseHolder = .committed →
      h.phaseCounterparty = .removing → h.key ∉ ch.snapshotRemoved →
      RollsBack ch h { keep := some { h with resolution := none, phaseCounterparty := .committed }
                       requeue := requeuedRemoval h }
  | unacknowledgeRemoval : h.outbound = true → h.phaseHolder = .gone →
      h.phaseCounterparty = .removing → h.key ∉ ch.snapshotRemoved →
      RollsBack ch h { keep := some { h with
        resolution := none, phaseCounterparty := .committed, phaseHolder := .committed } }
  | unremove : h.outbound = true → h.phaseHolder = .removing → h.phaseCounterparty = .committed →
      RollsBack ch h { keep := some { h with resolution := none, phaseHolder := .committed } }
  | forget : h.outbound = false → h.phaseHolder = .pending → h.phaseCounterparty = .notYet →
      ch.inOurCurrent h = false → RollsBack ch h { keep := none, forgotten := some h.id }

/-- The rollback of a disciplined HTLC does not panic. -/
theorem rollback_spec (ch : Channel) {h : Htlc} (hd : h.Disciplined)
    (hs : h.outbound = true → h.source.isSome) : ∃ r, ch.rollback h = some r ∧ RollsBack ch h r := by
  rcases hd.stages with ⟨ho, h1⟩ | ⟨ho, h1⟩
  · rcases h1 with h1 | h1 | h1 | h1 | h1 <;> obtain ⟨hh, hc, hr⟩ := h1
    case inl.inl =>
      obtain ⟨source, hsrc⟩ := Option.isSome_iff_exists.1 (hs ho)
      by_cases hk : h.key ∈ ch.snapshotIncluded
      · refine ⟨_, ?_, .keep (fun _ => hk) ?_ ?_ ?_⟩ <;>
        simp [rollback, rollbackRemoval, ho, hh, hc, hk]
      · refine ⟨_, ?_, .unoffer source ho hh hc hk hsrc⟩
        simp [rollback, ho, hc, hk, hsrc]
    case inl.inr.inl | inl.inr.inr.inl =>
      refine ⟨_, ?_, .keep ?_ ?_ ?_ ?_⟩ <;> simp [rollback, rollbackRemoval, ho, hh, hc]
    case inl.inr.inr.inr.inl =>
      refine ⟨_, ?_, .unremove ho hh hc⟩
      simp [rollback, rollbackRemoval, ho, hh, hc]
    case inl.inr.inr.inr.inr =>
      by_cases hk : h.key ∈ ch.snapshotRemoved
      · refine ⟨_, ?_, .keep ?_ (fun _ => hk) ?_ ?_⟩ <;>
        simp [rollback, rollbackRemoval, ho, hh, hc, hk]
      · refine ⟨_, ?_, .unacknowledgeRemoval ho hh hc hk⟩
        simp [rollback, rollbackRemoval, ho, hc, hk]
  · rcases h1 with h1 | h1 | h1 | h1 | h1 | h1 <;> obtain ⟨hh, hc, hr⟩ := h1
    case inr.inl =>
      cases hcur : ch.inOurCurrent h with
      | true =>
        refine ⟨_, ?_, .keep ?_ ?_ ?_ (fun _ _ => hcur)⟩ <;>
        simp [rollback, rollbackRemoval, ho, hh, hc, hcur]
      | false =>
        refine ⟨_, ?_, .forget ho hh hc hcur⟩
        simp [rollback, rollbackRemoval, ho, hh, hc, hcur]
    case inr.inr.inr.inl =>
      by_cases hk : h.key ∈ ch.snapshotIncluded
      · refine ⟨_, ?_, .keep (fun _ => hk) ?_ ?_ ?_⟩ <;>
        simp [rollback, rollbackRemoval, ho, hh, hc, hk]
      · refine ⟨_, ?_, .unacknowledge ho hh hc hk⟩
        simp [rollback, rollbackRemoval, ho, hh, hc, hk]
    case inr.inr.inr.inr.inr.inl =>
      by_cases hk : h.key ∈ ch.snapshotRemoved
      · refine ⟨_, ?_, .keep ?_ (fun _ => hk) ?_ ?_⟩ <;>
        simp [rollback, rollbackRemoval, ho, hh, hc, hk]
      · have hrm : ch.rollbackRemoval h =
            ({ h with resolution := none, phaseCounterparty := .committed }, requeuedRemoval h) := by
          unfold rollbackRemoval
          rw [if_pos ⟨hc, hk⟩, if_neg (by simp [ho])]
          rfl
        refine ⟨_, ?_, .unresolve ho hh hc hk⟩
        simp [rollback, ho, hh, hc, hrm]
    all_goals
      refine ⟨_, ?_, .keep ?_ ?_ ?_ ?_⟩ <;> simp [rollback, rollbackRemoval, ho, hh, hc]

/-! ## The invariant -/

/-- `b`, after `a` in the list, is not a resolved inbound HTLC of the same key. -/
def Precedes (a b : Htlc) : Prop := b.outbound = false → b.resolution.isSome → a.key ≠ b.key

/-- The phases of a channel's HTLCs are in order. -/
structure Phased (ch : Channel) : Prop where
  disciplined : ∀ h ∈ ch.htlcs, h.Disciplined
  sourced : ∀ h ∈ ch.htlcs, h.outbound = true → h.source.isSome
  first : ch.htlcs.Pairwise Precedes
  removed : ∀ pending, ch.pendingCounterpartyCommitment = some pending → ∀ k ∈ pending.removed,
    k.1 = false → ∃ h, ch.findHtlc k = some h ∧ h.phaseCounterparty = .removing

/-- The list in the loops of `on_revoke_and_ack`, of which `removed` is the second. -/
structure Locking (removed : List (Bool × HtlcId)) (hs : List Htlc) : Prop where
  settling : ∀ h ∈ hs, h.Settling
  sourced : ∀ h ∈ hs, h.outbound = true → h.source.isSome
  first : hs.Pairwise Precedes
  removed : ∀ k ∈ removed, k.1 = false →
    ∃ h, hs.find? (fun h => h.key = k) = some h ∧ h.phaseCounterparty.credited = true

/-- What the locks keep of an HTLC. -/
def fixed (h : Htlc) : (Bool × HtlcId) × Option HtlcSource × Option HtlcResolution :=
  (h.key, h.source, h.resolution)

theorem fixed_lockIncluded (h : Htlc) : fixed h.lockIncluded = fixed h := by
  unfold Htlc.lockIncluded
  simp only
  split <;> split <;> rfl

theorem fixed_lockRemoved (h : Htlc) : fixed h.lockRemoved = fixed h := by
  unfold Htlc.lockRemoved
  simp only
  split <;> split <;> rfl

theorem fixed_lockHolder_acknowledge (h : Htlc) : fixed h.lockHolder.acknowledge = fixed h := by
  unfold Htlc.lockHolder Htlc.acknowledge
  split <;> split <;> try split
  all_goals rfl

theorem fixed_process (h : Htlc) : fixed h.process = fixed h := by
  unfold Htlc.process
  split <;> rfl

section
variable {hs hs' : List Htlc}

theorem first_of_fixed (heq : hs'.map fixed = hs.map fixed) (h : hs.Pairwise Precedes) :
    hs'.Pairwise Precedes := by
  have hmap : (hs.map fixed).Pairwise fun x y => y.1.1 = false → y.2.2.isSome → x.1 ≠ y.1 :=
    List.pairwise_map.2 h
  rw [← heq] at hmap
  have hpair := List.pairwise_map.1 hmap
  exact hpair

theorem sourced_of_fixed (heq : hs'.map fixed = hs.map fixed)
    (h : ∀ h ∈ hs, h.outbound = true → h.source.isSome) :
    ∀ h ∈ hs', h.outbound = true → h.source.isSome := by
  intro x hx ho
  have hmem : fixed x ∈ hs.map fixed := heq ▸ List.mem_map_of_mem hx
  obtain ⟨y, hy, hxy⟩ := List.mem_map.1 hmem
  obtain ⟨hk, hs, -⟩ : y.key = x.key ∧ y.source = x.source ∧ y.resolution = x.resolution := by
    simpa [fixed] using hxy
  rw [← hs]
  exact h y hy ((congrArg Prod.fst hk).trans ho)

/-- A resolved inbound HTLC is found under its key. -/
theorem find_of_first (hf : hs.Pairwise Precedes) {x : Htlc} (hx : x ∈ hs)
    (ho : x.outbound = false) (hr : x.resolution.isSome) :
    hs.find? (fun h => h.key = x.key) = some x := by
  induction hs with
  | nil => cases hx
  | cons a hs ih =>
    rw [List.pairwise_cons] at hf
    rcases List.mem_cons.1 hx with rfl | hx
    · simp
    · have hne := hf.1 x hx ho hr
      simp [hne, ih hf.2 hx]

/-- Resolving the first HTLC of a key. -/
theorem first_resolve (hf : hs.Pairwise Precedes) (k : Bool × HtlcId) (f : Htlc → Htlc)
    (hkey : ∀ h, (f h).key = h.key) : (htlcMut k f hs).Pairwise Precedes := by
  induction hs with
  | nil => exact hf
  | cons a hs ih =>
    rw [List.pairwise_cons] at hf
    unfold htlcMut List.mutFirst
    split
    · refine List.pairwise_cons.2 ⟨fun b hb ho hr => ?_, hf.2⟩
      rw [hkey]
      exact hf.1 b hb ho hr
    · next hne =>
      refine List.pairwise_cons.2 ⟨fun b hb ho hr => ?_, ih hf.2⟩
      rcases List.mem_mutFirst hb with hb | ⟨c, hc, rfl⟩
      · exact hf.1 b hb ho hr
      · have hck : c.key = k := by simpa using List.find?_some hc
        rw [hkey, hck]
        simpa using hne

end

namespace Locking

variable {removed : List (Bool × HtlcId)} {hs : List Htlc}

/-- A lock on one HTLC. -/
theorem lock (h : Locking removed hs) (k : Bool × HtlcId) {f : Htlc → Htlc}
    (hfix : ∀ x, fixed (f x) = fixed x)
    (hset : ∀ x, hs.find? (fun h => h.key = k) = some x → x.Settling → (f x).Settling)
    (hcred : ∀ x, x.phaseCounterparty.credited = true → (f x).phaseCounterparty.credited = true) :
    Locking removed (htlcMut k f hs) := by
  have hkey : ∀ x, (f x).key = x.key := fun x => congrArg Prod.fst (hfix x)
  have hmap : (htlcMut k f hs).map fixed = hs.map fixed := List.map_mutFirst fun x _ => hfix x
  refine ⟨fun x hx => ?_, sourced_of_fixed hmap h.sourced, first_of_fixed hmap h.first, ?_⟩
  · rcases List.mem_mutFirst hx with hx | ⟨a, ha, rfl⟩
    · exact h.settling x hx
    · exact hset a ha (h.settling a (List.mem_of_find?_eq_some ha))
  · intro k' hk' ho
    obtain ⟨x, hx, hxc⟩ := h.removed k' hk' ho
    by_cases hkk : k = k'
    · subst hkk
      refine ⟨f x, ?_, hcred x hxc⟩
      unfold htlcMut
      rw [List.find?_mutFirst_self fun a => by rw [hkey], hx]
      rfl
    · refine ⟨x, ?_, hxc⟩
      unfold htlcMut
      rw [List.find?_mutFirst_other (fun a => by rw [hkey]) fun a ha => ?_, hx]
      have hak : a.key = k := of_decide_eq_true ha
      simp [hak, hkk]

theorem lockIncluded (h : Locking removed hs) (ks : List (Bool × HtlcId)) :
    Locking removed (ks.foldl (fun hs k => htlcMut k Htlc.lockIncluded hs) hs) := by
  induction ks generalizing hs with
  | nil => exact h
  | cons k ks ih =>
    refine ih (h.lock k fixed_lockIncluded (fun x _ hx => hx.lockIncluded) fun x hx => ?_)
    rw [Htlc.lockIncluded_phaseCounterparty]
    split
    · next hp => simp [hp, HtlcPhase.credited] at hx
    · exact hx

theorem lockRemoved (h : Locking removed hs) {ks : List (Bool × HtlcId)} (hks : ∀ k ∈ ks, k ∈ removed) :
    Locking removed (ks.foldl (fun hs k => htlcMut k Htlc.lockRemoved hs) hs) := by
  induction ks generalizing hs with
  | nil => exact h
  | cons k ks ih =>
    refine ih (h.lock k fixed_lockRemoved (fun x hx hset => ?_) fun x hx => ?_)
      fun k' hk' => hks k' (List.mem_cons_of_mem _ hk')
    · refine hset.lockRemoved fun ho => ?_
      have hxk : x.key = k := by simpa using List.find?_some hx
      obtain ⟨y, hy, hyc⟩ := h.removed k (hks k List.mem_cons_self)
        ((congrArg Prod.fst hxk).symm.trans ho)
      obtain rfl := Option.some.inj (hx.symm.trans hy)
      exact hyc
    · rw [Htlc.lockRemoved_phaseCounterparty]
      split
      · rfl
      · exact hx

end Locking

/-! ## Operations -/

theorem inboundCommitted_eq_ok {ch : Channel} {id : HtlcId} {h : Htlc} :
    ch.inboundCommitted id = .ok h ↔ ch.findHtlc (false, id) = some h ∧ h.resolution = none ∧
      h.phaseHolder = .committed ∧ h.phaseCounterparty = .committed := by
  simp only [inboundCommitted, Fault.bind_eq_ok, Fault.okOr_eq_ok, Fault.require_eq_ok, pure,
    Except.pure, Except.ok.injEq, Option.isNone_iff_eq_none]
  constructor
  · rintro ⟨x, hf, _, hr, _, hp, hx⟩
    subst hx
    exact ⟨hf, hr, hp⟩
  · rintro ⟨hf, hr, hp⟩
    exact ⟨h, hf, (), hr, (), hp, rfl⟩

theorem outboundCommitted_eq_ok {ch : Channel} {id : HtlcId} {h : Htlc} :
    ch.outboundCommitted id = .ok h ↔ ch.findHtlc (true, id) = some h ∧ h.resolution = none ∧
      h.phaseHolder = .committed ∧ h.phaseCounterparty = .committed := by
  simp only [outboundCommitted, Fault.bind_eq_ok, Fault.okOr_eq_ok, Fault.require_eq_ok, pure,
    Except.pure, Except.ok.injEq, Option.isNone_iff_eq_none]
  constructor
  · rintro ⟨x, hf, _, hr, _, hp, hx⟩
    subst hx
    exact ⟨hf, hr, hp⟩
  · rintro ⟨hf, hr, hp⟩
    exact ⟨h, hf, (), hr, (), hp, rfl⟩

theorem findHtlc_key {ch : Channel} {k : Bool × HtlcId} {h : Htlc} (hf : ch.findHtlc k = some h) :
    h.key = k := by
  simpa using List.find?_some hf

namespace Phased

variable {ch : Channel}

/-- The same HTLCs and the same commitment in flight. -/
theorem congr (h : Phased ch) {ch' : Channel} (hs : ch'.htlcs = ch.htlcs)
    (hp : ch'.pendingCounterpartyCommitment = ch.pendingCounterpartyCommitment) : Phased ch' := by
  refine ⟨hs ▸ h.disciplined, hs ▸ h.sourced, hs ▸ h.first, fun pending hpd k hk ho => ?_⟩
  unfold findHtlc
  rw [hs]
  exact h.removed pending (hp ▸ hpd) k hk ho

/-- A new HTLC. -/
theorem concat (h : Phased ch) {ch' : Channel} {x : Htlc} (hs : ch'.htlcs = ch.htlcs ++ [x])
    (hp : ch'.pendingCounterpartyCommitment = ch.pendingCounterpartyCommitment)
    (hd : x.Disciplined) (hsrc : x.outbound = true → x.source.isSome) (hr : x.resolution = none) :
    Phased ch' where
  disciplined y hy := by
    rw [hs] at hy
    rcases List.mem_append.1 hy with hy | hy
    · exact h.disciplined y hy
    · exact List.mem_singleton.1 hy ▸ hd
  sourced y hy ho := by
    rw [hs] at hy
    rcases List.mem_append.1 hy with hy | hy
    · exact h.sourced y hy ho
    · obtain rfl := List.mem_singleton.1 hy
      exact hsrc ho
  first := by
    rw [hs]
    refine List.pairwise_append.2 ⟨h.first, List.pairwise_singleton _ _, fun a _ b hb _ hres => ?_⟩
    rw [List.mem_singleton.1 hb, hr] at hres
    cases hres
  removed pending hpd k hk ho := by
    obtain ⟨y, hy, hyc⟩ := h.removed pending (hp ▸ hpd) k hk ho
    refine ⟨y, ?_, hyc⟩
    unfold findHtlc at hy ⊢
    rw [hs, List.find?_append, hy]
    rfl

theorem offer (h : Phased ch) (amountMsat : Msat) (paymentHash : PaymentHash) (cltvExpiry : Nat)
    (onion : List UInt8) (source : HtlcSource) :
    Phased (ch.offer amountMsat paymentHash cltvExpiry onion source) :=
  h.concat rfl rfl ⟨by simp [Htlc.phasePairs], rfl⟩ (fun _ => rfl) rfl

theorem receive (h : Phased ch) (msg : Wire.UpdateAddHtlc) : Phased (ch.receive msg) :=
  h.concat rfl rfl ⟨by simp [Htlc.phasePairs], rfl⟩ (fun ho => nomatch ho) rfl

/-- A resolution of the HTLC found under a key. -/
theorem resolve (h : Phased ch) {ch' : Channel} {k : Bool × HtlcId} {x : Htlc} {f : Htlc → Htlc}
    (hs : ch'.htlcs = htlcMut k f ch.htlcs)
    (hp : ch'.pendingCounterpartyCommitment = ch.pendingCounterpartyCommitment)
    (hx : ch.findHtlc k = some x) (hd : (f x).Disciplined)
    (hkey : ∀ y, (f y).key = y.key ∧ (f y).source = y.source)
    (hrem : k.1 = false → (f x).phaseCounterparty = .removing) : Phased ch' where
  disciplined y hy := by
    rw [hs] at hy
    rcases List.mem_mutFirst hy with hy | ⟨a, ha, rfl⟩
    · exact h.disciplined y hy
    · obtain rfl := Option.some.inj (hx.symm.trans ha)
      exact hd
  sourced y hy ho := by
    rw [hs] at hy
    rcases List.mem_mutFirst hy with hy | ⟨a, ha, rfl⟩
    · exact h.sourced y hy ho
    · rw [(hkey a).2]
      exact h.sourced a (List.mem_of_find?_eq_some ha)
        ((congrArg Prod.fst (hkey a).1).symm.trans ho)
  first := by
    rw [hs]
    exact first_resolve h.first k f fun y => (hkey y).1
  removed pending hpd k' hk' ho := by
    obtain ⟨y, hy, hyc⟩ := h.removed pending (hp ▸ hpd) k' hk' ho
    unfold findHtlc htlcMut at *
    rw [hs]
    by_cases hkk : k = k'
    · subst hkk
      refine ⟨f x, ?_, hrem ho⟩
      rw [List.find?_mutFirst_self fun a => by rw [(hkey a).1], hx]
      rfl
    · refine ⟨y, ?_, hyc⟩
      rw [List.find?_mutFirst_other (fun a => by rw [(hkey a).1]) fun a ha => ?_, hy]
      have hak : a.key = k := of_decide_eq_true ha
      simp [hak, hkk]

theorem resolveInbound (h : Phased ch) {id : HtlcId} {x : Htlc} (hx : ch.inboundCommitted id = .ok x)
    (r : HtlcResolution) : Phased (ch.resolveInbound id r) := by
  obtain ⟨hf, -, hh, -⟩ := inboundCommitted_eq_ok.1 hx
  have ho : x.outbound = false := congrArg Prod.fst (findHtlc_key hf)
  refine h.resolve rfl rfl hf ⟨?_, ?_⟩ (fun _ => ⟨rfl, rfl⟩) fun _ => rfl
  · simp [hh, ho, Htlc.phasePairs]
  · simp [HtlcPhase.credited]

theorem resolveOutbound (h : Phased ch) {id : HtlcId} {x : Htlc}
    (hx : ch.outboundCommitted id = .ok x) (r : HtlcResolution) :
    Phased (ch.resolveOutbound id r) := by
  obtain ⟨hf, -, -, hc⟩ := outboundCommitted_eq_ok.1 hx
  have ho : x.outbound = true := congrArg Prod.fst (findHtlc_key hf)
  refine h.resolve rfl rfl hf ⟨?_, ?_⟩ (fun _ => ⟨rfl, rfl⟩) fun hk => nomatch hk
  · simp [hc, ho, Htlc.phasePairs]
  · simp [HtlcPhase.credited]

theorem sign (h : Phased ch) (point : PublicKey) (b : Built) : Phased (ch.sign point b) where
  disciplined := h.disciplined
  sourced := h.sourced
  first := h.first
  removed pending hpd k hk ho := by
    obtain rfl := Option.some.inj hpd
    obtain ⟨x, hx, rfl⟩ := List.mem_map.1 hk
    obtain ⟨hmem, hc⟩ := List.mem_filter.1 hx
    have hc' : x.phaseCounterparty = .removing := of_decide_eq_true hc
    have hres : x.resolution.isSome := by
      rw [(h.disciplined x hmem).resolved, hc']
      simp [HtlcPhase.credited]
    exact ⟨x, find_of_first h.first hmem ho hres, hc'⟩

theorem accept (h : Phased ch) (number : Nat) (b : Built) (msg : Wire.CommitmentSigned) :
    Phased (ch.acceptCommitment number b msg).gcHtlcs := by
  have hlist : (ch.acceptCommitment number b msg).gcHtlcs.htlcs =
      (ch.htlcs.map fun x => x.lockHolder.acknowledge).filter fun x => !x.isGone := by
    simp [gcHtlcs, acceptCommitment, Function.comp_def]
  have hmap : (ch.htlcs.map fun x => x.lockHolder.acknowledge).map fixed = ch.htlcs.map fixed := by
    rw [List.map_map]
    exact List.map_congr_left fun x _ => fixed_lockHolder_acknowledge x
  refine ⟨fun y hy => ?_, fun y hy => ?_, ?_, fun pending hpd k hk ho => ?_⟩
  · rw [hlist] at hy
    obtain ⟨hy, hg⟩ := List.mem_filter.1 hy
    obtain ⟨x, hx, rfl⟩ := List.mem_map.1 hy
    exact (h.disciplined x hx).lockHolder_acknowledge.disciplined (by simpa using hg)
  · rw [hlist] at hy
    exact sourced_of_fixed hmap h.sourced y (List.mem_filter.1 hy).1
  · rw [hlist]
    exact (first_of_fixed hmap h.first).sublist List.filter_sublist
  · obtain ⟨x, hx, hxc⟩ := h.removed pending hpd k hk ho
    have hmem := List.mem_of_find?_eq_some hx
    have hfx : x.lockHolder.acknowledge = x := by
      have hxo : x.outbound = false := (congrArg Prod.fst (findHtlc_key hx)).trans ho
      rcases (h.disciplined x hmem).stages with ⟨hxo', -⟩ | ⟨-, h1⟩
      · cases hxo.symm.trans hxo'
      · rcases h1 with h1 | h1 | h1 | h1 | h1 | h1 <;> obtain ⟨hh, hc, -⟩ := h1 <;>
        simp only [hxc, reduceCtorEq] at hc
        simp [Htlc.lockHolder, Htlc.acknowledge, Htlc.acksAdd, Htlc.acksRemoval, hxo, hh, hxc]
    refine ⟨x, ?_, hxc⟩
    unfold findHtlc at hx ⊢
    rw [hlist]
    refine List.find?_filter_of_find? ?_ (by simp [Htlc.isGone, hxc])
    rw [List.find?_map]
    have hcomp : ((fun y : Htlc => decide (y.key = k)) ∘ fun x => x.lockHolder.acknowledge) =
        fun y : Htlc => decide (y.key = k) :=
      funext fun y => by
        simp [show y.lockHolder.acknowledge.key = y.key from
          congrArg Prod.fst (fixed_lockHolder_acknowledge y)]
    rw [hcomp, hx, Option.map_some, hfx]

/-- The HTLCs after the two loops of `on_revoke_and_ack`. -/
theorem locking (h : Phased ch) {pending : PendingCounterpartyCommitment}
    (hp : ch.pendingCounterpartyCommitment = some pending) (secrets : Shachain.SecretStore)
    (nextPoint : PublicKey) :
    Locking pending.removed (ch.acceptRevocation pending secrets nextPoint).htlcs := by
  have hstart : Locking pending.removed ch.htlcs :=
    ⟨fun x hx => (h.disciplined x hx).settling, h.sourced, h.first, fun k hk ho => by
      obtain ⟨x, hx, hxc⟩ := h.removed pending hp k hk ho
      exact ⟨x, hx, by simp [hxc, HtlcPhase.credited]⟩⟩
  exact (hstart.lockIncluded pending.included).lockRemoved fun _ hk => hk

theorem revoke (h : Phased ch) {pending : PendingCounterpartyCommitment}
    (hp : ch.pendingCounterpartyCommitment = some pending) (secrets : Shachain.SecretStore)
    (nextPoint : PublicKey) :
    Phased (ch.acceptRevocation pending secrets nextPoint).gcHtlcs.processed := by
  have hl := h.locking hp secrets nextPoint
  have hmap : (ch.acceptRevocation pending secrets nextPoint).gcHtlcs.processed.htlcs.map fixed =
      ((ch.acceptRevocation pending secrets nextPoint).htlcs.filter fun x => !x.isGone).map fixed := by
    show (List.map _ _).map fixed = _
    rw [List.map_map]
    exact List.map_congr_left fun x _ => fixed_process x
  refine ⟨fun y hy => ?_, ?_, ?_, fun pending hpd => nomatch hpd⟩
  · obtain ⟨x, hx, rfl⟩ := List.mem_map.1 hy
    obtain ⟨hx, hg⟩ := List.mem_filter.1 hx
    exact ((hl.settling x hx).disciplined (by simpa using hg)).process
  · exact sourced_of_fixed hmap fun x hx => hl.sourced x (List.mem_filter.1 hx).1
  · exact first_of_fixed hmap (hl.first.sublist List.filter_sublist)

/-! ## Disconnect -/

/-- The rollback of every HTLC of the channel. -/
theorem rollbacks (h : Phased ch) : ∃ rs, ch.htlcs.mapM ch.rollback = some rs ∧
    ∀ r, r ∈ rs ↔ ∃ x ∈ ch.htlcs, ch.rollback x = some r :=
  List.exists_mapM fun x hx => by
    obtain ⟨r, hr, -⟩ := rollback_spec ch (h.disciplined x hx) (h.sourced x hx)
    exact ⟨r, hr⟩

/-- By its stage. -/
theorem rollsBack (h : Phased ch) {x : Htlc} (hx : x ∈ ch.htlcs) {r : Rollback}
    (hr : ch.rollback x = some r) : RollsBack ch x r := by
  obtain ⟨r', hr', hrb⟩ := rollback_spec ch (h.disciplined x hx) (h.sourced x hx)
  exact Option.some.inj (hr'.symm.trans hr) ▸ hrb

/-- An HTLC that is kept, before and after. -/
theorem keeps (h : Phased ch) {x y : Htlc} (hx : x ∈ ch.htlcs)
    (hy : (ch.rollback x).bind (·.keep) = some y) :
    y.Disciplined ∧ y.key = x.key ∧ y.source = x.source ∧
      (y.resolution = x.resolution ∨ y.resolution = none) := by
  obtain ⟨r, hr, hk⟩ := Option.bind_eq_some_iff.1 hy
  have hd := h.disciplined x hx
  cases h.rollsBack hx hr with
  | keep =>
    obtain rfl := Option.some.inj hk
    exact ⟨hd, rfl, rfl, .inl rfl⟩
  | unoffer | forget => cases hk
  | unacknowledge ho hh hc =>
    obtain rfl := Option.some.inj hk
    refine ⟨⟨by simp [ho, hh, Htlc.phasePairs], ?_⟩, rfl, rfl, .inl rfl⟩
    have hres := hd.resolved
    simpa [hh, hc, HtlcPhase.credited] using hres
  | unresolve ho hh =>
    obtain rfl := Option.some.inj hk
    exact ⟨Htlc.disciplined_committed hh rfl rfl, rfl, rfl, .inr rfl⟩
  | unacknowledgeRemoval =>
    obtain rfl := Option.some.inj hk
    exact ⟨Htlc.disciplined_committed rfl rfl rfl, rfl, rfl, .inr rfl⟩
  | unremove ho hh hc =>
    obtain rfl := Option.some.inj hk
    exact ⟨Htlc.disciplined_committed rfl hc rfl, rfl, rfl, .inr rfl⟩

theorem rolledBack (h : Phased ch) {rs : List Rollback} (hrs : ch.htlcs.mapM ch.rollback = some rs) :
    Phased (ch.rolledBack rs) := by
  have hlist : (ch.rolledBack rs).htlcs = ch.htlcs.filterMap fun x => (ch.rollback x).bind (·.keep) :=
    List.filterMap_of_mapM hrs
  refine ⟨fun y hy => ?_, fun y hy ho => ?_, ?_, fun pending hpd k hk ho => ?_⟩
  · rw [hlist] at hy
    obtain ⟨x, hx, hxy⟩ := List.mem_filterMap.1 hy
    exact (h.keeps hx hxy).1
  · rw [hlist] at hy
    obtain ⟨x, hx, hxy⟩ := List.mem_filterMap.1 hy
    obtain ⟨-, hkey, hsrc, -⟩ := h.keeps hx hxy
    rw [hsrc]
    exact h.sourced x hx ((congrArg Prod.fst hkey).symm.trans ho)
  · rw [hlist, List.pairwise_filterMap]
    refine List.Pairwise.imp_of_mem ?_ h.first
    intro a b ha hb hab a' ha' b' hb' ho hres
    obtain ⟨-, hka, -⟩ := h.keeps ha ha'
    obtain ⟨-, hkb, -, hr⟩ := h.keeps hb hb'
    rw [hka, hkb]
    refine hab ((congrArg Prod.fst hkb).symm.trans ho) ?_
    rcases hr with hr | hr
    · exact hr ▸ hres
    · simp [hr] at hres
  · obtain ⟨x, hx, hxc⟩ := h.removed pending hpd k hk ho
    have hmem := List.mem_of_find?_eq_some hx
    have hxk := findHtlc_key hx
    have hsnap : x.key ∈ ch.snapshotRemoved := by
      have hp : ch.pendingCounterpartyCommitment = some pending := hpd
      rw [hxk]
      simpa [snapshotRemoved, hp] using hk
    -- It was signed out of their commitment, so it stays.
    have hkeep : (ch.rollback x).bind (·.keep) = some x := by
      obtain ⟨r, hr, hrb⟩ := rollback_spec ch (h.disciplined x hmem) (h.sourced x hmem)
      rw [hr, Option.bind_some]
      cases hrb with
      | keep => rfl
      | unoffer _ _ _ hc | unacknowledge _ _ hc | unremove _ _ hc | forget _ _ hc =>
        cases hxc.symm.trans hc
      | unresolve _ _ _ hn | unacknowledgeRemoval _ _ _ hn => exact absurd hsnap hn
    refine ⟨x, ?_, hxc⟩
    unfold findHtlc at hx ⊢
    obtain ⟨hpx, as, bs, hsplit, has⟩ := List.find?_eq_some_iff_append.1 hx
    rw [hlist, List.find?_filterMap, List.find?_eq_some_iff_append.2 ⟨?_, as, bs, hsplit, ?_⟩]
    · exact hkeep
    · simp [hkeep, hxk]
    · intro a ha
      have hak : a.key ≠ k := by simpa using has a ha
      cases hy : (ch.rollback a).bind (·.keep) with
      | none => rfl
      | some y =>
        have hyk := (h.keeps (hsplit ▸ List.mem_append_left _ ha) hy).2.1
        simp [hyk, hak]

end Phased

/-! ## Runs -/

section
variable {C : Crypto} {ch ch₀ : Channel}

theorem Initial.phased (h : Initial ch) : Phased ch where
  disciplined := by simp [h.htlcs]
  sourced := by simp [h.htlcs]
  first := by simp [h.htlcs]
  removed := by simp [h.pending]

theorem Move.phased {ch' : Channel} (hm : Move C ch ch') (h : Phased ch) : Phased ch' := by
  cases hm with
  | offer _ _ _ _ _ => exact h.offer _ _ _ _ _
  | receive msg => exact h.receive msg
  | resolveInbound id r x _ hx => exact h.resolveInbound hx r
  | resolveOutbound id r x hx => exact h.resolveOutbound hx r
  | sign point b => exact h.sign point b
  | revoke pending secret point secrets nextPoint _ hp => exact h.revoke hp secrets nextPoint
  | _ => exact h.congr rfl rfl

theorem Moves.phased {ch' : Channel} (hm : Moves C ch ch') (h : Phased ch) : Phased ch' :=
  hm.invariant (fun _ _ hm => hm.phased) h

/-- A step keeps the phases in order. -/
theorem Stepped.phased {i : Input} {ch' : Channel} (hs : Stepped C ch i ch') (h : Phased ch) :
    Phased ch' := by
  cases hs with
  | moves _ hm => exact hm.phased h
  | refused => exact h
  | accepted msg b => exact h.accept _ b msg
  | rolledBack rs hrs => exact h.rolledBack hrs

theorem phased_of_run {tr : Trace Input ChannelError (List Wire.Message)} (h₀ : Fresh C ch₀)
    (hr : Run (step C) ch₀ tr ch) : Phased ch :=
  Run.invariant (A := fun _ => True) h₀.initial.phased
    (fun ch i _ h => (step_stepped i ch).mono fun _ hs => hs.phased h) hr fun _ _ => trivial

/-- In every run, whatever the peer sends and disconnects included: the phases of every HTLC are one
of the eleven pairs and it is resolved if one of them says so, between and within the steps; and no
garbage collection settles an HTLC without a resolution. -/
theorem phase_discipline {tr : Trace Input ChannelError (List Wire.Message)} (h₀ : Fresh C ch₀)
    (hr : Run (step C) ch₀ tr ch) :
    (∀ ch', Moves C ch ch' → ∀ h ∈ ch'.htlcs, h.Disciplined ∧
      ∀ side, (h.phase side).credited = true → h.resolution.isSome) ∧
    (∀ number b msg, ∀ h ∈ (ch.acceptCommitment number b msg).htlcs,
      h.isGone = true → h.resolution.isSome) ∧
    ∀ pending secrets point, ch.pendingCounterpartyCommitment = some pending →
      ∀ h ∈ (ch.acceptRevocation pending secrets point).htlcs, h.isGone = true →
        h.resolution.isSome := by
  have hph := phased_of_run h₀ hr
  refine ⟨fun ch' hm h hh => ?_, fun number b msg h hh hg => ?_,
    fun pending secrets point hp h hh hg => ?_⟩
  · have hd := (hm.phased hph).disciplined h hh
    exact ⟨hd, fun _ => hd.credited⟩
  · simp only [acceptCommitment, List.map_map] at hh
    obtain ⟨x, hx, rfl⟩ := List.mem_map.1 hh
    exact (hph.disciplined x hx).lockHolder_acknowledge.resolved hg
  · exact ((hph.locking hp secrets point).settling h hh).resolved hg

end

/-- An add that was acknowledged, but not yet signed when the connection was lost. -/
theorem phase_discipline_bob :
    ∃ tr ch, Run (step Demo.C) Demo.bob.1 tr ch ∧
      (ch.htlcs.map fun h => (h.phaseHolder, h.phaseCounterparty)) = [(.committed, .notYet)] ∧
      ∀ h ∈ ch.htlcs, h.Disciplined := by
  obtain ⟨tr, ch, hr, hph, -⟩ := Demo.exists_chan
    (Demo.handshake ++ Demo.payment.take 4 ++ [.command .b .disconnect]) .b
    (fun ch => (ch.htlcs.map fun h => (h.phaseHolder, h.phaseCounterparty)) = [(.committed, .notYet)])
    (by decide +kernel)
  exact ⟨tr, ch, hr, hph, fun h hh => ((phase_discipline Demo.bob_fresh hr).1 ch .rfl h hh).1⟩

end Channel
