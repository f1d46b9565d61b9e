import Keraunos.Channel.Ledger
import Keraunos.Channel.Proof.Moves

/-!
# The HTLCs of a channel follow its ledger

`Channel.Shape L ch`: the HTLCs of `ch`, with both their phases, are those of the ledger `L`, and
the snapshot of an unanswered `commitment_signed` lists what that commitment adds and drops. Each
operation on HTLCs is one operation of the ledger (`Shape.offer`, `Shape.receive`,
`Shape.resolveInbound`, `Shape.resolveOutbound`, `Shape.sign`, `Shape.revoke`, `Shape.accept`);
nothing else in a channel matters to it.
-/

namespace Ledger

variable {L : Ledger} {e : Entry}

/-! ## Phases and counters -/

/-- What a commitment includes: added far enough, and not removed far enough. -/
theorem included_iff (h : Wf L) (he : e ∈ L.entries) (s : Bool) :
    (L.phase e s).included = true ↔
      e.addAt < L.cut s e.outbound ∧ e.removal.all (L.cut s (!e.outbound) ≤ ·.1) = true := by
  have hadd := (h.entry e he).added
  have hset := h.settled_le e.outbound
  have hset' := h.settled_le !e.outbound
  unfold phase cut
  rcases hrem : e.removal with _ | ⟨j, r⟩
  · by_cases ho : e.outbound = s
    · simp only [ho, if_true, Entry.backPhase, hrem, Option.all_none, and_true]
      rw [ho] at hset
      split
      · next hlt => simpa [HtlcPhase.included] using Nat.lt_of_lt_of_le hlt hset
      · split <;> simp_all [HtlcPhase.included]
    · simp only [ho, if_false, Entry.frontPhase, hrem, Option.all_none, and_true, hadd, iff_true]
      split <;> rfl
  · obtain ⟨hj, hlock⟩ := (h.entry e he).removed j r hrem
    by_cases ho : e.outbound = s
    · have hne : (!e.outbound) ≠ s := by simp [ho]
      have hs : L.log (!e.outbound) = L.log (!s) := by rw [ho]
      simp only [ho, if_true, Entry.backPhase, hrem, Option.all_some]
      rw [hs] at hj
      have : ¬ (L.log !s).length ≤ j := by omega
      split <;> simp [HtlcPhase.included, this]
    · have hs : (!e.outbound) = s := by simpa [Bool.eq_not, Bool.not_eq_eq_eq_not] using ho
      simp only [ho, if_false, Entry.frontPhase, hrem, Option.all_some, hs, if_true, hadd, true_and,
        decide_eq_true_eq]
      rw [hs] at hset'
      split
      · simp [HtlcPhase.included]; omega
      · split <;> simp [HtlcPhase.included] <;> omega

/-- What a commitment has settled: removed far enough. -/
theorem credited_iff (h : Wf L) (he : e ∈ L.entries) (s : Bool) :
    (L.phase e s).credited = e.removal.any (·.1 < L.cut s (!e.outbound)) := by
  have hset' := h.settled_le !e.outbound
  unfold phase cut
  rcases hrem : e.removal with _ | ⟨j, r⟩
  · by_cases ho : e.outbound = s
    · simp only [ho, if_true, Entry.backPhase, hrem, Option.any_none]
      split
      · rfl
      · split <;> rfl
    · simp only [ho, if_false, Entry.frontPhase, hrem, Option.any_none]
      split <;> rfl
  · obtain ⟨hj, -⟩ := (h.entry e he).removed j r hrem
    by_cases ho : e.outbound = s
    · rw [ho] at hj
      simp only [ho, if_true, Entry.backPhase, hrem, Option.any_some]
      split <;> simp [HtlcPhase.credited, hj]
    · have hs : (!e.outbound) = s := by simpa [Bool.eq_not, Bool.not_eq_eq_eq_not] using ho
      simp only [ho, if_false, Entry.frontPhase, hrem, Option.any_some, hs, if_true]
      rw [hs] at hset'
      split
      · simp [HtlcPhase.credited]; omega
      · split <;> simp [HtlcPhase.credited] <;> omega

theorem frontPhase_eq_gone {lock gone removing : Nat} :
    e.frontPhase lock gone removing = .gone ↔ e.removal.any (·.1 < gone) = true := by
  unfold Entry.frontPhase
  rcases e.removal with _ | ⟨j, r⟩
  · simp only [Option.any_none]
    split <;> simp
  · simp only [Option.any_some, decide_eq_true_eq]
    split
    · simp_all
    · split <;> simp_all

theorem backPhase_eq_gone {lock included gone : Nat} :
    e.backPhase lock included gone = .gone ↔ e.removal.any (·.1 < gone) = true := by
  unfold Entry.backPhase
  rcases e.removal with _ | ⟨j, r⟩
  · simp only [Option.any_none]
    split
    · simp
    · split <;> simp
  · simp only [Option.any_some, decide_eq_true_eq]
    split <;> simp_all

/-- The HTLCs gone from both commitments are the baked ones. -/
theorem toHtlc_isGone (h : Wf L) : (L.toHtlc e).isGone = L.baked e := by
  have hle := h.settled_le !e.outbound
  have hboth : (L.toHtlc e).isGone = true ↔
      e.removal.any (·.1 < L.acked !e.outbound) = true ∧
      e.removal.any (·.1 < L.settled !e.outbound) = true := by
    simp only [Htlc.isGone, Bool.and_eq_true, decide_eq_true_eq]
    simp only [toHtlc, phase]
    cases ho : e.outbound
    · simp only [Bool.false_eq_true, if_false, if_true, frontPhase_eq_gone, backPhase_eq_gone]
      exact and_comm
    · simp only [Bool.true_eq_false, if_false, if_true, frontPhase_eq_gone, backPhase_eq_gone]
  rw [Bool.eq_iff_iff, hboth, baked]
  refine and_iff_right_of_imp fun hb => ?_
  simp only [Option.any_eq_true, decide_eq_true_eq] at hb ⊢
  obtain ⟨x, hx, hlt⟩ := hb
  exact ⟨x, hx, Nat.lt_of_lt_of_le hlt hle⟩

/-! ## Counters that move -/

/-- Locking and acknowledging an HTLC is what `accept` does to its entry. -/
theorem toHtlc_accept (h : Wf L) (he : e ∈ L.entries) :
    L.accept.toHtlc e = (L.toHtlc e).lockHolder.acknowledge := by
  have hadd := (h.entry e he).added
  have hset := h.settled_le
  rcases hrem : e.removal with _ | ⟨j, r⟩
  · have hle := hset e.outbound
    cases ho : e.outbound <;> rw [ho] at hadd hle <;>
    by_cases h1 : e.addAt < L.acked e.outbound <;> by_cases h2 : e.addAt < L.settled e.outbound <;>
    rw [ho] at h1 h2 <;> first
    | omega
    | simp [toHtlc, phase, Entry.frontPhase, Entry.backPhase, Htlc.lockHolder, Htlc.acknowledge,
        Htlc.acksAdd, Htlc.acksRemoval, accept, ho, hrem, h1, h2, hadd]
  · have hle := hset !e.outbound
    obtain ⟨hj, -⟩ := (h.entry e he).removed j r hrem
    cases ho : e.outbound <;> rw [ho] at hj hle <;>
    by_cases h1 : j < L.acked !e.outbound <;> by_cases h2 : j < L.settled !e.outbound <;>
    rw [ho] at h1 h2 <;> simp only [Bool.not_false, Bool.not_true] at hj hle h1 h2 <;> first
    | omega
    | simp [toHtlc, phase, Entry.frontPhase, Entry.backPhase, Htlc.lockHolder, Htlc.acknowledge,
        Htlc.acksAdd, Htlc.acksRemoval, accept, ho, hrem, h1, h2, hj]

/-- What `on_revoke_and_ack` does to one HTLC. -/
def lockRevoked (L : Ledger) (e : Entry) (h : Htlc) : Htlc :=
  let h := if L.entering e then h.lockIncluded else h
  if L.leaving e then h.lockRemoved else h

/-- An add in the signed commitment is locked, and handed over if it is the peer's. -/
theorem toHtlc_revoke_of_live (h : Wf L) (he : e ∈ L.entries) (hrem : e.removal = none) :
    L.revoke.toHtlc e = (L.lockRevoked e (L.toHtlc e)).process := by
  have hadd := (h.entry e he).added
  cases ho : e.outbound <;> rw [ho] at hadd
  · by_cases h1 : e.addAt < L.settled false
    · have h2 : e.addAt < L.signed := Nat.lt_of_lt_of_le h1 h.le_signed
      have h3 : e.addAt < L.acked false := Nat.lt_of_lt_of_le h2 h.signed_le
      simp [toHtlc, phase, Entry.frontPhase, Entry.backPhase, lockRevoked, entering, leaving,
        Htlc.process, Htlc.forwardable, revoke, ho, hrem, h1, h2, h3, Nat.not_le_of_lt h1]
    · by_cases h2 : e.addAt < L.signed
      · have h3 : e.addAt < L.acked false := Nat.lt_of_lt_of_le h2 h.signed_le
        simp [toHtlc, phase, Entry.frontPhase, Entry.backPhase, lockRevoked, entering, leaving,
          Htlc.lockIncluded, Htlc.process, Htlc.forwardable, revoke, ho, hrem, h1, h2, h3,
          Nat.le_of_not_lt h1]
      · by_cases h3 : e.addAt < L.acked false <;>
        simp [toHtlc, phase, Entry.frontPhase, Entry.backPhase, lockRevoked, entering, leaving,
          Htlc.process, Htlc.forwardable, revoke, ho, hrem, h1, h2, h3]
  · by_cases h1 : e.addAt < L.acked true
    · by_cases h2 : e.addAt < L.settled true <;>
      simp [toHtlc, phase, Entry.frontPhase, Entry.backPhase, lockRevoked, entering, leaving,
        Htlc.process, Htlc.forwardable, revoke, ho, hrem, h1, h2, hadd, Nat.not_le_of_lt h1]
    · have h2 : ¬ e.addAt < L.settled true := fun h2 => h1 (Nat.lt_of_lt_of_le h2 (h.settled_le true))
      simp [toHtlc, phase, Entry.frontPhase, Entry.backPhase, lockRevoked, entering, leaving,
        Htlc.lockIncluded, Htlc.process, Htlc.forwardable, revoke, ho, hrem, h1, h2, hadd,
        Nat.le_of_not_lt h1]

/-- A removal in the signed commitment is locked. -/
theorem toHtlc_revoke_of_removed (h : Wf L) (he : e ∈ L.entries) {j : Nat} {r : HtlcResolution}
    (hrem : e.removal = some (j, r)) :
    L.revoke.toHtlc e = (L.lockRevoked e (L.toHtlc e)).process := by
  obtain ⟨hj, hlock⟩ := (h.entry e he).removed j r hrem
  cases ho : e.outbound <;> rw [ho] at hj hlock
  · have hs : e.addAt < L.signed := Nat.lt_of_lt_of_le hlock h.le_signed
    have hj' : j < (L.log true).length := hj
    by_cases h1 : j < L.acked true
    · by_cases h2 : j < L.settled true <;>
      simp [toHtlc, phase, Entry.frontPhase, Entry.backPhase, lockRevoked, entering, leaving,
        Htlc.process, Htlc.forwardable, revoke, ho, hrem, h1, h2, hlock, hs, hj',
        Nat.not_le_of_lt hlock, Nat.not_le_of_lt h1]
    · have h2 : ¬ j < L.settled true := fun h2 => h1 (Nat.lt_of_lt_of_le h2 (h.settled_le true))
      simp [toHtlc, phase, Entry.frontPhase, Entry.backPhase, lockRevoked, entering, leaving,
        Htlc.lockRemoved, Htlc.process, Htlc.forwardable, revoke, ho, hrem, h1, h2, hlock, hs, hj',
        Nat.not_le_of_lt hlock, Nat.le_of_not_lt h1]
  · have ha : ¬ L.acked true ≤ e.addAt := Nat.not_le_of_lt (Nat.lt_of_lt_of_le hlock (h.settled_le true))
    by_cases h1 : j < L.settled false
    · have h2 : j < L.signed := Nat.lt_of_lt_of_le h1 h.le_signed
      simp [toHtlc, phase, Entry.frontPhase, Entry.backPhase, lockRevoked, entering, leaving,
        Htlc.process, Htlc.forwardable, revoke, ho, hrem, h1, h2, ha, Nat.not_le_of_lt h1]
    · by_cases h2 : j < L.signed
      · have h3 : j < L.acked false := Nat.lt_of_lt_of_le h2 h.signed_le
        simp [toHtlc, phase, Entry.frontPhase, Entry.backPhase, lockRevoked, entering, leaving,
          Htlc.lockRemoved, Htlc.process, Htlc.forwardable, revoke, ho, hrem, h1, h2, h3, ha,
          Nat.le_of_not_lt h1]
      · by_cases h3 : j < L.acked false <;>
        simp [toHtlc, phase, Entry.frontPhase, Entry.backPhase, lockRevoked, entering, leaving,
          Htlc.process, Htlc.forwardable, revoke, ho, hrem, h1, h2, h3, ha]

theorem toHtlc_revoke (h : Wf L) (he : e ∈ L.entries) :
    L.revoke.toHtlc e = (L.lockRevoked e (L.toHtlc e)).process := by
  rcases hrem : e.removal with _ | ⟨j, r⟩
  · exact toHtlc_revoke_of_live h he hrem
  · exact toHtlc_revoke_of_removed h he hrem

@[simp] theorem toHtlc_key (L : Ledger) (e : Entry) : (L.toHtlc e).key = e.key := rfl

theorem mem_htlcs {h : Htlc} : h ∈ L.htlcs ↔ ∃ e ∈ L.entries, L.baked e = false ∧ L.toHtlc e = h := by
  simp [htlcs, and_assoc]

theorem htlcs_keys (h : Wf L) : (L.htlcs.map Htlc.key).Nodup := by
  have hsub : (L.htlcs.map Htlc.key).Sublist (L.entries.map Entry.key) := by
    unfold htlcs
    rw [List.map_map]
    exact List.filter_sublist.map Entry.key
  exact h.keys.sublist hsub

/-- An entry is determined by its key. -/
theorem eq_of_key (h : Wf L) {e' : Entry} (he : e ∈ L.entries) (he' : e' ∈ L.entries)
    (hk : e.key = e'.key) : e = e' :=
  List.inj_on_of_nodup_map h.keys he he' hk

/-- What is baked stays baked. -/
theorem baked_mono {L' : Ledger} (hset : ∀ m, L.settled m ≤ L'.settled m)
    (hb : L.baked e = true) : L'.baked e = true := by
  simp only [baked, Option.any_eq_true, decide_eq_true_eq] at hb ⊢
  obtain ⟨x, hx, hlt⟩ := hb
  exact ⟨x, hx, Nat.lt_of_lt_of_le hlt (hset _)⟩

theorem settled_le_accept (h : Wf L) (m : Bool) : L.settled m ≤ L.accept.settled m := by
  cases m <;> simp [accept, h.settled_le]

theorem settled_le_revoke (h : Wf L) (m : Bool) : L.settled m ≤ L.revoke.settled m := by
  cases m <;> simp [revoke, h.le_signed]

/-- What we sign now adds the HTLCs pending on the peer's commitment. -/
theorem entering_sign (h : Wf L) (he : e ∈ L.entries) :
    L.sign.entering e = true ↔ L.baked e = false ∧ L.phase e false = .pending := by
  rcases hrem : e.removal with _ | ⟨j, r⟩
  · cases ho : e.outbound
    · by_cases h1 : e.addAt < L.settled false
      · simp [entering, sign, baked, phase, Entry.backPhase, ho, hrem, h1, Nat.not_le_of_lt h1]
      · by_cases h2 : e.addAt < L.acked false <;>
        simp [entering, sign, baked, phase, Entry.backPhase, ho, hrem, h1, h2, Nat.le_of_not_lt h1]
    · by_cases h1 : e.addAt < L.acked true <;>
      simp [entering, sign, baked, phase, Entry.frontPhase, ho, hrem, h1, Nat.not_le_of_lt,
        Nat.le_of_not_lt]
  · -- A removed HTLC was locked before.
    obtain ⟨-, hlock⟩ := (h.entry e he).removed j r hrem
    have hack := Nat.lt_of_lt_of_le hlock (h.settled_le _)
    cases ho : e.outbound <;> rw [ho] at hlock hack
    · by_cases h1 : j < L.acked true <;>
      simp [entering, sign, phase, Entry.backPhase, ho, hrem, h1, Nat.not_le_of_lt hlock]
    · by_cases h1 : j < L.settled false
      · simp [entering, sign, phase, Entry.frontPhase, ho, hrem, h1, Nat.not_le_of_lt hack]
      · by_cases h2 : j < L.acked false <;>
        simp [entering, sign, phase, Entry.frontPhase, ho, hrem, h1, h2, Nat.not_le_of_lt hack]

/-- What we sign now drops the HTLCs being removed from the peer's commitment. -/
theorem leaving_sign (h : Wf L) :
    L.sign.leaving e = true ↔ L.baked e = false ∧ L.phase e false = .removing := by
  rcases hrem : e.removal with _ | ⟨j, r⟩
  · cases ho : e.outbound
    · by_cases h1 : e.addAt < L.settled false
      · simp [leaving, phase, Entry.backPhase, ho, hrem, h1]
      · by_cases h2 : e.addAt < L.acked false <;>
        simp [leaving, phase, Entry.backPhase, ho, hrem, h1, h2]
    · by_cases h1 : e.addAt < L.acked true <;>
      simp [leaving, phase, Entry.frontPhase, ho, hrem, h1]
  · cases ho : e.outbound
    · by_cases h1 : j < L.acked true
      · simp [leaving, sign, baked, phase, Entry.backPhase, ho, hrem, h1, Nat.not_le_of_lt h1]
      · have h2 : ¬ j < L.settled true := fun h2 => h1 (Nat.lt_of_lt_of_le h2 (h.settled_le true))
        simp [leaving, sign, baked, phase, Entry.backPhase, ho, hrem, h1, Nat.le_of_not_lt h1,
          Nat.le_of_not_lt h2]
    · by_cases h1 : j < L.settled false
      · simp [leaving, sign, baked, phase, Entry.frontPhase, ho, hrem, h1, Nat.not_le_of_lt h1]
      · by_cases h2 : j < L.acked false <;>
        simp [leaving, sign, baked, phase, Entry.frontPhase, ho, hrem, h1, h2, Nat.le_of_not_lt h1]

/-- Entries that change pointwise, and then those that are gone collected. -/
theorem htlcs_map {L' : Ledger} (h' : Wf L') {g : Entry → Entry} {f : Htlc → Htlc}
    (hes : L'.entries = L.entries.map g)
    (hb : ∀ e ∈ L.entries, L.baked e = true → L'.baked (g e) = true)
    (hf : ∀ e ∈ L.entries, L.baked e = false → L'.toHtlc (g e) = f (L.toHtlc e)) :
    L'.htlcs = (L.htlcs.map f).filter fun h => !h.isGone := by
  unfold htlcs
  rw [hes]
  generalize L.entries = es at hb hf
  induction es with
  | nil => rfl
  | cons e es ih =>
    have ih' := ih (fun e he => hb e (List.mem_cons_of_mem _ he))
      (fun e he => hf e (List.mem_cons_of_mem _ he))
    cases hbe : L.baked e with
    | true =>
      have := hb e (List.mem_cons_self ..) hbe
      simpa [hbe, this] using ih'
    | false =>
      have hfe := hf e (List.mem_cons_self ..) hbe
      have hgone : (f (L.toHtlc e)).isGone = L'.baked (g e) := by rw [← hfe, toHtlc_isGone h']
      cases hbe' : L'.baked (g e) with
      | true => simpa [hbe, hbe', hgone] using ih'
      | false => simpa [hbe, hbe', hgone, hfe] using ih'

/-- A new HTLC is pending on the recipient's commitment and not yet on the offerer's. -/
theorem htlcs_add (h : Wf L) (m : Bool) (id : HtlcId) (amountMsat : Msat)
    (paymentHash : PaymentHash) (cltvExpiry : Nat) (onion : List UInt8)
    (source : Option HtlcSource) :
    (L.add m id amountMsat paymentHash cltvExpiry onion source).htlcs = L.htlcs ++
      [Htlc.mk m id amountMsat paymentHash cltvExpiry onion source none
        (if m then .notYet else .pending) (if m then .pending else .notYet) false] := by
  have h1 : ¬ (L.log m).length < L.acked m := Nat.not_lt.2 (h.acked_le m)
  have h2 : ¬ (L.log m).length < L.settled m :=
    fun h2 => h1 (Nat.lt_of_lt_of_le h2 (h.settled_le m))
  show ((L.entries ++ [_]).filter fun e => !L.baked e).map L.toHtlc = _
  rw [List.filter_append, List.map_append]
  refine congrArg (L.htlcs ++ ·) ?_
  cases m <;> simp [baked, toHtlc, phase, Entry.frontPhase, Entry.backPhase, h1, h2]

/-- Entries that change pointwise, with nothing to collect. -/
theorem htlcs_map_of_baked {L' : Ledger} {g : Entry → Entry} {f : Htlc → Htlc}
    (hes : L'.entries = L.entries.map g) (hb : ∀ e ∈ L.entries, L'.baked (g e) = L.baked e)
    (hf : ∀ e ∈ L.entries, L.baked e = false → L'.toHtlc (g e) = f (L.toHtlc e)) :
    L'.htlcs = L.htlcs.map f := by
  unfold htlcs
  rw [hes, List.filter_map, List.map_map, List.map_map]
  have hfil : L.entries.filter ((fun e => !L'.baked e) ∘ g) = L.entries.filter fun e => !L.baked e :=
    List.filter_congr fun e he => by simp [hb e he]
  rw [hfil]
  refine List.map_congr_left fun e he => ?_
  obtain ⟨hmem, hlive⟩ := List.mem_filter.1 he
  exact hf e hmem (by simpa using hlive)

/-- What a removal by side `m` does to the HTLC: it leaves the offerer's commitment. -/
def resolved (m : Bool) (r : HtlcResolution) (x : Htlc) : Htlc :=
  { x with
    resolution := some r
    phaseHolder := if m then x.phaseHolder else .removing
    phaseCounterparty := if m then .removing else x.phaseCounterparty }

/-- A removal of a live HTLC that is locked on both commitments. -/
theorem htlcs_remove (h : Wf L) {m : Bool} {id : HtlcId} (r : HtlcResolution)
    (hlock : ∀ e ∈ L.entries, e.key = (!m, id) → e.removal = none ∧ e.addAt < L.settled !m) :
    (L.remove m id r).htlcs = Channel.htlcMut (!m, id) (resolved m r) L.htlcs := by
  have hmut : Channel.htlcMut (!m, id) (resolved m r) L.htlcs =
      L.htlcs.map fun x => if x.key = (!m, id) then resolved m r x else x :=
    List.mutFirst_eq_map (htlcs_keys h)
  have hset : ¬ (L.log m).length < L.settled m :=
    Nat.not_lt.2 (Nat.le_trans (h.settled_le m) (h.acked_le m))
  have hack : ¬ (L.log m).length < L.acked m := Nat.not_lt.2 (h.acked_le m)
  rw [hmut]
  refine htlcs_map_of_baked rfl ?_ ?_
  · intro e he
    split
    · next hk =>
      obtain ⟨hnone, -⟩ := hlock e he hk
      have hout : e.outbound = !m := congrArg Prod.fst hk
      simp [baked, hnone, hout, remove, push, hset]
    · rfl
  · intro e he _
    rw [toHtlc_key]
    split
    · next hk =>
      obtain ⟨hnone, hadd⟩ := hlock e he hk
      have hout : e.outbound = !m := congrArg Prod.fst hk
      have hadd' : e.addAt < L.acked !m := Nat.lt_of_lt_of_le hadd (h.settled_le _)
      cases m <;> simp only [Bool.not_false, Bool.not_true] at hout hadd hadd' <;>
      simp [toHtlc, phase, Entry.frontPhase, Entry.backPhase, Entry.resolve, resolved, remove, push,
        hnone, hout, hadd, hadd', hset, hack]
    · rfl

end Ledger

namespace Channel

/-- The id the next HTLC of side `m` gets. -/
def nextId (ch : Channel) (m : Bool) : Nat :=
  if m then ch.nextHolderHtlcId else ch.nextCounterpartyHtlcId

/-- The HTLCs of a channel are those of a ledger. -/
structure Shape (L : Ledger) (ch : Channel) : Prop where
  wf : L.Wf
  htlcs : ch.htlcs = L.htlcs
  ids : ∀ m, (Update.offers (L.log m)).map (·.id) = List.range (ch.nextId m)
  idle : ch.awaitingRaa = false → L.signed = L.settled false
  snapshot : ch.awaitingRaa = true → ∀ pending, ch.pendingCounterpartyCommitment = some pending →
    pending.included = (L.entries.filter L.entering).map Entry.key ∧
    pending.removed = (L.entries.filter L.leaving).map Entry.key

theorem Initial.shape {ch : Channel} (h : Initial ch) : Shape {} ch where
  wf := Ledger.wf_empty
  htlcs := h.htlcs
  ids m := by cases m <;> simp [nextId, h.holderId, h.counterpartyId, Update.offers]
  idle _ := rfl
  snapshot ha := by simp [h.awaiting] at ha

namespace Shape

variable {L : Ledger} {ch : Channel}

/-- The entries of a side have ids below its counter. -/
theorem id_lt (h : Shape L ch) {e : Entry} (he : e ∈ L.entries) : e.id < ch.nextId e.outbound := by
  have hoff : e.toOffer ∈ Update.offers (L.log e.outbound) := by
    rw [← h.wf.offers e.outbound]
    exact List.mem_map_of_mem (List.mem_filter.2 ⟨he, by simp⟩)
  have hid : e.id ∈ (Update.offers (L.log e.outbound)).map (·.id) := List.mem_map_of_mem hoff
  rw [h.ids] at hid
  exact List.mem_range.1 hid

theorem nextId_fresh (h : Shape L ch) (m : Bool) :
    (m, ch.nextId m) ∉ L.entries.map Entry.key := by
  intro hmem
  obtain ⟨e, he, hk⟩ := List.mem_map.1 hmem
  obtain ⟨ho, hid⟩ := Prod.mk.inj hk
  have := h.id_lt he
  rw [ho, hid] at this
  exact Nat.lt_irrefl _ this

/-- The HTLC found under a key is that of the entry with this key. -/
theorem find_spec (h : Shape L ch) {k : Bool × HtlcId} {x : Htlc} (hf : ch.findHtlc k = some x) :
    ∃ e ∈ L.entries, L.baked e = false ∧ e.key = k ∧ x = L.toHtlc e := by
  have hk := List.find?_some hf
  have hmem := List.mem_of_find?_eq_some hf
  rw [h.htlcs] at hmem
  obtain ⟨e, he, hb, rfl⟩ := Ledger.mem_htlcs.1 hmem
  exact ⟨e, he, hb, of_decide_eq_true hk, rfl⟩

/-! ## Operations -/

theorem offer (h : Shape L ch) (ha : ch.awaitingRaa = false) (amountMsat : Msat)
    (paymentHash : PaymentHash) (cltvExpiry : Nat) (onion : List UInt8) (source : HtlcSource) :
    Shape (L.add true ch.nextHolderHtlcId amountMsat paymentHash cltvExpiry onion (some source))
      (ch.offer amountMsat paymentHash cltvExpiry onion source) where
  wf := h.wf.add (h.nextId_fresh true) _ _ _ _ _
  htlcs := by
    rw [Ledger.htlcs_add h.wf, ← h.htlcs]
    rfl
  ids m := by
    cases m with
    | false => exact h.ids false
    | true =>
      show (Update.offers ((L.push true _).log true)).map (·.id) = List.range (ch.nextHolderHtlcId + 1)
      have := h.ids true
      rw [Ledger.push_log_self, Update.offers_concat, List.map_append, this, List.range_succ]
      rfl
  idle := h.idle
  snapshot ha' := by cases ha.symm.trans ha'

theorem receive (h : Shape L ch) {msg : Wire.UpdateAddHtlc}
    (hid : msg.id = ch.nextCounterpartyHtlcId) :
    Shape (L.add false msg.id msg.amountMsat msg.paymentHash msg.cltvExpiry msg.onionRoutingPacket
      none) (ch.receive msg) where
  wf := h.wf.add (hid ▸ h.nextId_fresh false) _ _ _ _ _
  htlcs := by
    rw [Ledger.htlcs_add h.wf, ← h.htlcs]
    rfl
  ids m := by
    cases m with
    | true => exact h.ids true
    | false =>
      show (Update.offers ((L.push false _).log false)).map (·.id) =
        List.range (ch.nextCounterpartyHtlcId + 1)
      have := h.ids false
      rw [Ledger.push_log_self, Update.offers_concat, List.map_append, this, List.range_succ]
      simp [Update.offer?, hid, nextId]
  idle := h.idle
  snapshot ha pending hp := by
    obtain ⟨h1, h2⟩ := h.snapshot ha pending hp
    -- The new HTLC comes after what we signed.
    have hnew : ¬ (L.log false).length < L.signed :=
      Nat.not_lt.2 (Nat.le_trans h.wf.signed_le (h.wf.acked_le false))
    refine ⟨h1.trans ?_, h2.trans ?_⟩
    · show _ = ((L.entries ++ [_]).filter L.entering).map Entry.key
      simp [Ledger.entering, hnew]
    · show _ = ((L.entries ++ [_]).filter L.leaving).map Entry.key
      simp [Ledger.leaving]

/-- An HTLC without a resolution and committed on both commitments was locked and not removed. -/
theorem locked_of_committed {e : Entry} (hres : (L.toHtlc e).resolution.isNone)
    (hp : (L.toHtlc e).phaseHolder = .committed ∧ (L.toHtlc e).phaseCounterparty = .committed) :
    e.removal = none ∧ e.addAt < L.settled e.outbound := by
  have hnone : e.removal = none := by simpa [Ledger.toHtlc] using hres
  refine ⟨hnone, ?_⟩
  by_contra hlt
  obtain ⟨h1, h2⟩ := hp
  cases ho : e.outbound <;> rw [ho] at hlt <;>
  simp [Ledger.toHtlc, Ledger.phase, ho, Entry.backPhase, hnone, hlt] at h1 h2 <;>
  split at * <;> simp_all

/-- What the guard of a removal gives for the ledger. -/
theorem removable (h : Shape L ch) {k : Bool × HtlcId} {x : Htlc} (hf : ch.findHtlc k = some x)
    (hres : x.resolution.isNone)
    (hp : x.phaseHolder = .committed ∧ x.phaseCounterparty = .committed) :
    k ∈ L.entries.map Entry.key ∧
      ∀ e ∈ L.entries, e.key = k → e.removal = none ∧ e.addAt < L.settled k.1 := by
  obtain ⟨e, he, -, hk, rfl⟩ := h.find_spec hf
  obtain ⟨hnone, hadd⟩ := locked_of_committed hres hp
  refine ⟨hk ▸ List.mem_map_of_mem he, ?_⟩
  intro e' he' hk'
  obtain rfl := Ledger.eq_of_key h.wf he' he (hk'.trans hk.symm)
  rw [← hk]
  exact ⟨hnone, hadd⟩

theorem inbound_removable (h : Shape L ch) {id : HtlcId} {x : Htlc}
    (hx : ch.inboundCommitted id = .ok x) :
    (false, id) ∈ L.entries.map Entry.key ∧
      ∀ e ∈ L.entries, e.key = (false, id) → e.removal = none ∧ e.addAt < L.settled false := by
  simp only [inboundCommitted, Fault.bind_eq_ok, Fault.okOr_eq_ok, Fault.require_eq_ok, pure,
    Except.pure, Except.ok.injEq] at hx
  obtain ⟨_, hf, _, hres, _, hp, rfl⟩ := hx
  exact h.removable hf hres hp

theorem outbound_removable (h : Shape L ch) {id : HtlcId} {x : Htlc}
    (hx : ch.outboundCommitted id = .ok x) :
    (true, id) ∈ L.entries.map Entry.key ∧
      ∀ e ∈ L.entries, e.key = (true, id) → e.removal = none ∧ e.addAt < L.settled true := by
  simp only [outboundCommitted, Fault.bind_eq_ok, Fault.okOr_eq_ok, Fault.require_eq_ok, pure,
    Except.pure, Except.ok.injEq] at hx
  obtain ⟨_, hf, _, hres, _, hp, rfl⟩ := hx
  exact h.removable hf hres hp

/-- A removal adds no HTLC. -/
theorem offers_remove (L : Ledger) (m n : Bool) (id : HtlcId) (r : HtlcResolution) :
    Update.offers ((L.remove m id r).log n) = Update.offers (L.log n) := by
  show Update.offers ((L.push m (.remove id r)).log n) = _
  by_cases hn : n = m
  · subst hn
    rw [Ledger.push_log_self, Update.offers_concat]
    simp [Update.offer?]
  · obtain rfl : n = !m := by simpa [Bool.eq_not] using hn
    rw [Ledger.push_log_not]

theorem resolveInbound (h : Shape L ch) (ha : ch.awaitingRaa = false) {id : HtlcId} {x : Htlc}
    (hx : ch.inboundCommitted id = .ok x) (r : HtlcResolution) :
    Shape (L.remove true id r) (ch.resolveInbound id r) := by
  obtain ⟨hid, hlock⟩ := h.inbound_removable hx
  refine ⟨h.wf.remove r hid hlock, ?_, ?_, h.idle, ?_⟩
  · rw [Ledger.htlcs_remove (m := true) h.wf r hlock, ← h.htlcs]
    rfl
  · intro m
    rw [offers_remove]
    exact h.ids m
  · intro ha'
    cases ha.symm.trans ha'

theorem resolveOutbound (h : Shape L ch) {id : HtlcId} {x : Htlc}
    (hx : ch.outboundCommitted id = .ok x) (r : HtlcResolution) :
    Shape (L.remove false id r) (ch.resolveOutbound id r) := by
  obtain ⟨hid, hlock⟩ := h.outbound_removable hx
  refine ⟨h.wf.remove r hid hlock, ?_, ?_, h.idle, ?_⟩
  · rw [Ledger.htlcs_remove (m := false) h.wf r hlock, ← h.htlcs]
    rfl
  · intro m
    rw [offers_remove]
    exact h.ids m
  · intro ha pending hp
    obtain ⟨h1, h2⟩ := h.snapshot ha pending hp
    -- The removal comes after what we signed.
    have hnew : ¬ (L.log false).length < L.signed :=
      Nat.not_lt.2 (Nat.le_trans h.wf.signed_le (h.wf.acked_le false))
    have hmark : ∀ p : Entry → Bool, (∀ e ∈ L.entries, p (if e.key = (true, id) then
          e.resolve (L.log false).length r else e) = p e) →
        ((L.remove false id r).entries.filter p).map Entry.key =
          (L.entries.filter p).map Entry.key := by
      intro p hp
      show ((L.entries.map _).filter p).map Entry.key = _
      rw [List.filter_map, List.map_map]
      refine (List.map_congr_left fun e _ => ?_).trans
        (congrArg (List.map Entry.key) (List.filter_congr fun e he => hp e he))
      simp only [Function.comp_apply, Bool.not_false]
      split <;> rfl
    refine ⟨h1.trans (hmark _ fun e _ => ?_).symm, h2.trans (hmark _ fun e he => ?_).symm⟩
    · split <;> rfl
    · split
      · next hk =>
        have hout : e.outbound = true := congrArg Prod.fst hk
        simp [Ledger.leaving, (hlock e he hk).1, hout, hnew]
      · rfl

theorem keysInPhase_eq (h : Shape L ch) {p : HtlcPhase} {q : Entry → Bool}
    (hq : ∀ e ∈ L.entries, q e = true ↔ L.baked e = false ∧ L.phase e false = p) :
    ch.keysInPhase p = (L.entries.filter q).map Entry.key := by
  unfold keysInPhase
  rw [h.htlcs, Ledger.htlcs, List.filter_map, List.map_map, List.filter_filter]
  refine congrArg (List.map Entry.key) (List.filter_congr fun e he => ?_)
  rw [Bool.eq_iff_iff, hq e he]
  simp only [Function.comp_apply, Bool.and_eq_true, decide_eq_true_eq, Bool.not_eq_true']
  exact and_comm

theorem sign (h : Shape L ch) (point : PublicKey) (b : Built) :
    Shape L.sign (ch.sign point b) where
  wf := h.wf.sign
  htlcs := h.htlcs
  ids := h.ids
  idle ha := by cases ha
  snapshot _ pending hp := by
    obtain rfl := Option.some.inj hp
    exact ⟨h.keysInPhase_eq fun e he => Ledger.entering_sign h.wf he,
      h.keysInPhase_eq fun e _ => Ledger.leaving_sign h.wf⟩

theorem accept (h : Shape L ch) (number : Nat) (b : Built) (msg : Wire.CommitmentSigned) :
    Shape L.accept (ch.acceptCommitment number b msg).gcHtlcs where
  wf := h.wf.accept
  htlcs := by
    have hmap := Ledger.htlcs_map (L := L) (g := id)
      (f := fun x => x.lockHolder.acknowledge) h.wf.accept (List.map_id _).symm ?_
      fun e he _ => Ledger.toHtlc_accept h.wf he
    · rw [hmap, ← h.htlcs]
      simp [gcHtlcs, acceptCommitment, Function.comp_def]
    · intro e _ hb
      exact Ledger.baked_mono (Ledger.settled_le_accept h.wf) hb
  ids := h.ids
  idle := h.idle
  snapshot := h.snapshot

theorem mem_keys_filter (h : Shape L ch) {e : Entry} (he : e ∈ L.entries) (p : Entry → Bool) :
    e.key ∈ (L.entries.filter p).map Entry.key ↔ p e = true := by
  constructor
  · intro hmem
    obtain ⟨e', he', hk⟩ := List.mem_map.1 hmem
    obtain ⟨hmem', hp⟩ := List.mem_filter.1 he'
    obtain rfl := Ledger.eq_of_key h.wf hmem' he hk
    exact hp
  · intro hp
    exact List.mem_map_of_mem (List.mem_filter.2 ⟨he, hp⟩)

theorem keys_filter_nodup (h : Shape L ch) (p : Entry → Bool) :
    ((L.entries.filter p).map Entry.key).Nodup :=
  h.wf.keys.sublist (List.filter_sublist.map Entry.key)

theorem lockIncluded_key (x : Htlc) : x.lockIncluded.key = x.key := by
  unfold Htlc.lockIncluded
  simp only
  split <;> split <;> rfl

theorem lockRemoved_key (x : Htlc) : x.lockRemoved.key = x.key := by
  unfold Htlc.lockRemoved
  simp only
  split <;> split <;> rfl

/-- A loop over the keys of some entries mutates their HTLCs. -/
theorem foldl_htlcMut (h : Shape L ch) {f : Htlc → Htlc} (hf : ∀ x, (f x).key = x.key)
    {p : Entry → Bool} {g : Entry → Htlc} (hg : ∀ e, (g e).key = e.key) :
    ((L.entries.filter p).map Entry.key).foldl (fun hs k => htlcMut k f hs)
        ((L.entries.filter fun e => !L.baked e).map g) =
      (L.entries.filter fun e => !L.baked e).map fun e => if p e then f (g e) else g e := by
  have hkeys : (((L.entries.filter fun e => !L.baked e).map g).map Htlc.key).Nodup := by
    rw [List.map_map, show Htlc.key ∘ g = Entry.key from funext hg]
    exact h.wf.keys.sublist (List.filter_sublist.map Entry.key)
  have hfold := List.foldl_mutFirst hf (h.keys_filter_nodup p) hkeys
    (p := fun x => decide (x.key ∈ (L.entries.filter p).map Entry.key)) fun x _ => decide_eq_true_iff
  refine hfold.trans ?_
  rw [List.map_map]
  refine List.map_congr_left fun e he => ?_
  have hmem := (List.mem_filter.1 he).1
  simp only [Function.comp_apply, hg, decide_eq_true_eq, h.mem_keys_filter hmem]

/-- The two loops of `on_revoke_and_ack` lock what the signed commitment adds and drops. -/
theorem acceptRevocation_htlcs (h : Shape L ch) {pending : PendingCounterpartyCommitment}
    (ha : ch.awaitingRaa = true) (hp : ch.pendingCounterpartyCommitment = some pending)
    (secrets : Shachain.SecretStore) (nextPoint : PublicKey) :
    (ch.acceptRevocation pending secrets nextPoint).htlcs =
      (L.entries.filter fun e => !L.baked e).map fun e => L.lockRevoked e (L.toHtlc e) := by
  obtain ⟨hinc, hrem⟩ := h.snapshot ha pending hp
  show pending.removed.foldl (fun hs k => htlcMut k Htlc.lockRemoved hs)
    (pending.included.foldl (fun hs k => htlcMut k Htlc.lockIncluded hs) ch.htlcs) = _
  rw [h.htlcs, hinc, hrem, Ledger.htlcs, h.foldl_htlcMut lockIncluded_key L.toHtlc_key,
    h.foldl_htlcMut lockRemoved_key]
  · rfl
  · intro e
    split
    · exact lockIncluded_key _
    · rfl

theorem process_isGone (x : Htlc) : x.process.isGone = x.isGone := by
  unfold Htlc.process
  split <;> rfl

theorem revoke (h : Shape L ch) {pending : PendingCounterpartyCommitment}
    (ha : ch.awaitingRaa = true) (hp : ch.pendingCounterpartyCommitment = some pending)
    (secrets : Shachain.SecretStore) (nextPoint : PublicKey) :
    Shape L.revoke (ch.acceptRevocation pending secrets nextPoint).gcHtlcs.processed where
  wf := h.wf.revoke
  htlcs := by
    show (((ch.acceptRevocation pending secrets nextPoint).htlcs.filter fun x => !x.isGone).map
      Htlc.process) = _
    rw [h.acceptRevocation_htlcs ha hp, List.filter_map, List.map_map, List.filter_filter,
      Ledger.htlcs]
    have hlive : ∀ e ∈ L.entries, L.revoke.baked e =
        ((L.lockRevoked e (L.toHtlc e)).isGone || L.baked e) := by
      intro e he
      have hgone : (L.lockRevoked e (L.toHtlc e)).isGone = L.revoke.baked e := by
        rw [← process_isGone, ← Ledger.toHtlc_revoke h.wf he, Ledger.toHtlc_isGone h.wf.revoke]
      rw [hgone, Bool.eq_iff_iff, Bool.or_eq_true]
      exact ⟨.inl, fun hb => hb.elim id (Ledger.baked_mono (Ledger.settled_le_revoke h.wf))⟩
    have hfil : L.revoke.entries.filter (fun e => !L.revoke.baked e) = L.entries.filter fun e =>
        ((fun x : Htlc => !x.isGone) ∘ fun e => L.lockRevoked e (L.toHtlc e)) e && !L.baked e :=
      List.filter_congr fun e he => by simp [hlive e he]
    rw [hfil]
    refine List.map_congr_left fun e he => ?_
    exact (Ledger.toHtlc_revoke h.wf (List.mem_filter.1 he).1).symm
  ids := h.ids
  idle _ := by simp [Ledger.revoke]
  snapshot ha' := by cases ha'

end Shape

end Channel
