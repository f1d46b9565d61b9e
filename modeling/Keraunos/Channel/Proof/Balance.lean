import Keraunos.Channel.Pair
import Keraunos.Channel.Proof.Shape
import Mathlib.Algebra.BigOperators.Group.List.Basic
import Mathlib.Algebra.Order.BigOperators.Group.List
import Mathlib.Data.List.MinMax

/-!
# Balance conservation

Every balance a channel computes is exact: no subtraction saturates, neither in `balances_for` nor
in `gc_htlcs`, and nothing is created or lost (`balance_conservation`).

An HTLC is admitted against one commitment only, the recipient's. The invariant is therefore about
the moment of the add: when it was made, its offerer could pay it and all its earlier HTLCs out of
what was settled then (`Ledger.Solvent`). Any later partial sum, on either commitment, is bounded
by that of the last HTLC it debits (`Ledger.nonneg_of_solvent`).
-/

namespace Htlc

/-- Fulfilled with the preimage. -/
def isFulfilled (h : Htlc) : Bool := h.resolution.any HtlcResolution.isFulfill

/-- `apply_balance` with checked subtractions: `none` where one would saturate. -/
def applyBalanceExact (h : Htlc) (phase : HtlcPhase) (bal : Msat × Msat) : Option (Msat × Msat) :=
  if phase.included then
    if h.outbound then
      if h.amountMsat ≤ bal.1 then some (bal.1 - h.amountMsat, bal.2) else none
    else if h.amountMsat ≤ bal.2 then some (bal.1, bal.2 - h.amountMsat) else none
  else if phase.credited then
    match h.resolution with
    | some (.fulfill _) =>
      if h.outbound then
        if h.amountMsat ≤ bal.1 then some (bal.1 - h.amountMsat, bal.2 + h.amountMsat) else none
      else
        if h.amountMsat ≤ bal.2 then some (bal.1 + h.amountMsat, bal.2 - h.amountMsat) else none
    | _ => some bal
  else some bal

/-- What an HTLC in phase `p` does to the balance of side `m`. -/
def effect (h : Htlc) (p : HtlcPhase) (m : Bool) : Int :=
  if p.included then if h.outbound = m then -h.amountMsat else 0
  else if p.credited && h.isFulfilled then if h.outbound = m then -h.amountMsat else h.amountMsat
  else 0

/-- Only what is included is missing from the two balances. -/
theorem effect_sum (h : Htlc) (p : HtlcPhase) :
    h.effect p true + h.effect p false + (if p.included then (h.amountMsat : Int) else 0) = 0 := by
  unfold effect
  cases h.outbound <;> split <;> simp
  · split <;> simp
  · split <;> simp

/-- Where both balances stay nonnegative, `apply_balance` is exact. -/
theorem applyBalance_exact (h : Htlc) (p : HtlcPhase) (bal : Msat × Msat)
    (h1 : 0 ≤ (bal.1 : Int) + h.effect p true) (h2 : 0 ≤ (bal.2 : Int) + h.effect p false) :
    h.applyBalanceExact p bal = some (h.applyBalance p bal) ∧
    ((h.applyBalance p bal).1 : Int) = bal.1 + h.effect p true ∧
    ((h.applyBalance p bal).2 : Int) = bal.2 + h.effect p false := by
  obtain ⟨b1, b2⟩ := bal
  unfold effect applyBalance applyBalanceExact isFulfilled at *
  by_cases hi : p.included = true
  · cases ho : h.outbound
    · have hle : h.amountMsat ≤ b2 := by simp [hi, ho] at h2; omega
      simp [hi, hle, Int.ofNat_sub hle, Int.sub_eq_add_neg]
    · have hle : h.amountMsat ≤ b1 := by simp [hi, ho] at h1; omega
      simp [hi, hle, Int.ofNat_sub hle, Int.sub_eq_add_neg]
  · by_cases hc : p.credited = true
    · rcases hr : h.resolution with _ | (pre | reason | ⟨sha, code⟩)
      · simp [hi, hc]
      · cases ho : h.outbound
        · have hle : h.amountMsat ≤ b2 := by simp [hi, hc, ho, hr, HtlcResolution.isFulfill] at h2; omega
          simp [hi, hc, hle, HtlcResolution.isFulfill, Int.ofNat_sub hle, Int.sub_eq_add_neg]
        · have hle : h.amountMsat ≤ b1 := by simp [hi, hc, ho, hr, HtlcResolution.isFulfill] at h1; omega
          simp [hi, hc, hle, HtlcResolution.isFulfill, Int.ofNat_sub hle, Int.sub_eq_add_neg]
      · simp [hi, hc, HtlcResolution.isFulfill]
      · simp [hi, hc, HtlcResolution.isFulfill]
    · simp [hi, hc]

/-- What a list of HTLCs does to the balance of side `m`. -/
def effects (phase : Htlc → HtlcPhase) (hs : List Htlc) (m : Bool) : Int :=
  (hs.map fun h => h.effect (phase h) m).sum

/-- Only what is included is missing from the two balances. -/
theorem effects_sum (phase : Htlc → HtlcPhase) (hs : List Htlc) :
    effects phase hs true + effects phase hs false +
      ((hs.filter fun h => (phase h).included).map (·.amountMsat)).sum = 0 := by
  induction hs with
  | nil => rfl
  | cons h hs ih =>
    have hh := h.effect_sum (phase h)
    unfold effects at ih ⊢
    cases hi : (phase h).included with
    | true =>
      rw [List.filter_cons, if_pos hi]
      simp only [hi, if_true, List.map_cons, List.sum_cons, Nat.cast_add] at hh ⊢
      omega
    | false =>
      rw [List.filter_cons, if_neg (by simp [hi])]
      simp only [hi, Bool.false_eq_true, if_false, List.map_cons, List.sum_cons] at hh ⊢
      omega

/-- Where no partial sum is negative, a loop of `apply_balance` is exact. -/
theorem foldl_exact (phase : Htlc → HtlcPhase) (hs : List Htlc) (bal : Msat × Msat)
    (hpre : ∀ pre suf, hs = pre ++ suf →
      0 ≤ (bal.1 : Int) + effects phase pre true ∧ 0 ≤ (bal.2 : Int) + effects phase pre false) :
    hs.foldlM (fun bal h => h.applyBalanceExact (phase h) bal) bal =
        some (hs.foldl (fun bal h => h.applyBalance (phase h) bal) bal) ∧
    ((hs.foldl (fun bal h => h.applyBalance (phase h) bal) bal).1 : Int) =
      bal.1 + effects phase hs true ∧
    ((hs.foldl (fun bal h => h.applyBalance (phase h) bal) bal).2 : Int) =
      bal.2 + effects phase hs false := by
  induction hs generalizing bal with
  | nil => simp [effects]
  | cons h hs ih =>
    obtain ⟨h1, h2⟩ := hpre [h] hs rfl
    simp only [effects, List.map_cons, List.map_nil, List.sum_singleton] at h1 h2
    obtain ⟨hex, e1, e2⟩ := applyBalance_exact h (phase h) bal h1 h2
    obtain ⟨i1, i2, i3⟩ := ih (h.applyBalance (phase h) bal) (by
      intro pre suf heq
      obtain ⟨p1, p2⟩ := hpre (h :: pre) suf (by rw [heq]; rfl)
      simp only [effects, List.map_cons, List.sum_cons] at p1 p2 ⊢
      omega)
    simp only [effects, List.map_cons, List.sum_cons, List.foldl_cons] at i2 i3 ⊢
    refine ⟨?_, by omega, by omega⟩
    rw [List.foldlM_cons, hex]
    exact i1

/-- Where checked subtractions succeed, `apply_balance` is exact. -/
theorem applyBalanceExact_eq_some {h : Htlc} {p : HtlcPhase} {bal bal' : Msat × Msat}
    (hex : h.applyBalanceExact p bal = some bal') : bal' = h.applyBalance p bal ∧
      (bal'.1 : Int) = bal.1 + h.effect p true ∧ (bal'.2 : Int) = bal.2 + h.effect p false := by
  have hpos : 0 ≤ (bal.1 : Int) + h.effect p true ∧ 0 ≤ (bal.2 : Int) + h.effect p false := by
    unfold applyBalanceExact at hex
    unfold effect isFulfilled
    by_cases hi : p.included = true
    · cases ho : h.outbound <;> simp [hi, ho] at hex ⊢ <;>
      exact hex.1
    · by_cases hc : p.credited = true
      · rcases hr : h.resolution with _ | (pre | reason | ⟨sha, code⟩) <;>
        simp [hi, hc, hr, HtlcResolution.isFulfill] at hex ⊢
        cases ho : h.outbound <;> simp [ho] at hex ⊢ <;>
        have hle := Int.ofNat_le.2 hex.1 <;> omega
      · simp [hi, hc]
  obtain ⟨hsome, h1, h2⟩ := applyBalance_exact h p bal hpos.1 hpos.2
  obtain rfl := Option.some.inj (hsome.symm.trans hex)
  exact ⟨rfl, h1, h2⟩

theorem foldlM_eq_some (phase : Htlc → HtlcPhase) {hs : List Htlc} {bal bal' : Msat × Msat}
    (hex : hs.foldlM (fun bal h => h.applyBalanceExact (phase h) bal) bal = some bal') :
    bal' = hs.foldl (fun bal h => h.applyBalance (phase h) bal) bal ∧
      (bal'.1 : Int) = bal.1 + effects phase hs true ∧
      (bal'.2 : Int) = bal.2 + effects phase hs false := by
  induction hs generalizing bal with
  | nil =>
    obtain rfl : bal = bal' := by simpa using hex
    simp [effects]
  | cons h hs ih =>
    obtain ⟨mid, hmid, hrest⟩ : ∃ mid, h.applyBalanceExact (phase h) bal = some mid ∧
        hs.foldlM (fun bal h => h.applyBalanceExact (phase h) bal) mid = some bal' := by
      simpa [Option.bind_eq_some_iff] using hex
    obtain ⟨rfl, h1, h2⟩ := applyBalanceExact_eq_some hmid
    obtain ⟨rfl, i1, i2⟩ := ih hrest
    refine ⟨rfl, ?_, ?_⟩ <;> simp only [effects, List.map_cons, List.sum_cons] at i1 i2 ⊢ <;> omega

end Htlc

namespace Entry

/-- Removed before place `n` by a failure. -/
def failedBefore (e : Entry) (n : Nat) : Bool := e.removal.any fun x => x.1 < n && !x.2.isFulfill

/-- Removed before place `n` with the preimage. -/
def fulfilledBefore (e : Entry) (n : Nat) : Bool := e.removal.any fun x => x.1 < n && x.2.isFulfill

/-- What an HTLC does to the balance of side `m`, where adds up to `added`, successes up to
`credit` and failures up to `failed` count. -/
def share (e : Entry) (m : Bool) (added credit failed : Nat) : Int :=
  if e.outbound = m then
    if e.addAt < added && !e.failedBefore failed then -e.amountMsat else 0
  else if e.fulfilledBefore credit then e.amountMsat else 0

/-- What an HTLC that is gone from both commitments did to the balance of side `m`. -/
def settledShare (e : Entry) (m : Bool) : Int :=
  if e.removal.any (·.2.isFulfill) then if e.outbound = m then -e.amountMsat else e.amountMsat
  else 0

theorem failedBefore_mono {e : Entry} {n n' : Nat} (hn : n ≤ n') (h : e.failedBefore n = true) :
    e.failedBefore n' = true := by
  simp only [failedBefore, Option.any_eq_true, Bool.and_eq_true, decide_eq_true_eq] at h ⊢
  obtain ⟨x, hx, hlt, hf⟩ := h
  exact ⟨x, hx, Nat.lt_of_lt_of_le hlt hn, hf⟩

theorem fulfilledBefore_mono {e : Entry} {n n' : Nat} (hn : n ≤ n')
    (h : e.fulfilledBefore n = true) : e.fulfilledBefore n' = true := by
  simp only [fulfilledBefore, Option.any_eq_true, Bool.and_eq_true, decide_eq_true_eq] at h ⊢
  obtain ⟨x, hx, hlt, hf⟩ := h
  exact ⟨x, hx, Nat.lt_of_lt_of_le hlt hn, hf⟩

/-- Counting more failures helps. -/
theorem share_mono (e : Entry) (m : Bool) (added credit : Nat) {failed failed' : Nat}
    (h : failed ≤ failed') : e.share m added credit failed ≤ e.share m added credit failed' := by
  unfold share
  split
  · by_cases hf : e.failedBefore failed = true
    · simp [hf, failedBefore_mono h hf]
    · by_cases ha : e.addAt < added
      · simp only [ha, hf, decide_true, Bool.not_false, Bool.and_self, if_true, Bool.true_and]
        split <;> simp
      · simp [ha]
  · exact Int.le_refl _

/-- A removal that does not count yet. -/
theorem share_resolve {e : Entry} (hnone : e.removal = none) {m : Bool} {added credit failed j : Nat}
    (r : HtlcResolution) (hf : e.outbound = m → failed ≤ j) (hc : e.outbound ≠ m → credit ≤ j) :
    (e.resolve j r).share m added credit failed = e.share m added credit failed := by
  show (if e.outbound = m then if decide (e.addAt < added) && !(e.resolve j r).failedBefore failed
    then -(e.amountMsat : Int) else 0 else if (e.resolve j r).fulfilledBefore credit then
    (e.amountMsat : Int) else 0) = _
  unfold share
  by_cases ho : e.outbound = m
  · simp [ho, failedBefore, hnone, Nat.not_lt.2 (hf ho)]
  · simp [ho, fulfilledBefore, hnone, Nat.not_lt.2 (hc ho)]

end Entry

namespace Ledger

variable {L : Ledger} {e : Entry}

/-- Each HTLC of side `m`, when it was offered, left that side a nonnegative balance: `init`, less
its HTLCs up to this one that did not fail, plus what it had fulfilled. -/
def Solvent (L : Ledger) (init : Int) (m : Bool) : Prop :=
  ∀ a ∈ L.entries, a.outbound = m →
    0 ≤ init + (L.entries.map fun e => e.share m (a.addAt + 1) a.addAt (L.acked !m)).sum

/-- A sum of shares, in which every debit and every failure counts and a debit comes with the
successes before it, is nonnegative: compare it with the sum at its last debit. -/
theorem nonneg_of_solvent {init : Int} {m : Bool} (hinit : 0 ≤ init) (hs : L.Solvent init m)
    {xs : List (Entry × Int)} (hxs : xs.map Prod.fst = L.entries)
    (hdebit : ∀ x ∈ xs, 0 ≤ x.2 ∨
      x.1.outbound = m ∧ x.1.failedBefore (L.acked !m) = false ∧ -(x.1.amountMsat : Int) ≤ x.2)
    (hcredit : ∀ a ∈ xs, a.2 < 0 → ∀ x ∈ xs, x.1.outbound ≠ m →
      x.1.fulfilledBefore a.1.addAt = true → (x.1.amountMsat : Int) ≤ x.2) :
    0 ≤ init + (xs.map Prod.snd).sum := by
  rcases hmax : (xs.filter fun x => decide (x.2 < 0)).argmax fun x => x.1.addAt with _ | a
  · have hnone := List.argmax_eq_none.1 hmax
    refine Int.add_nonneg hinit (List.sum_nonneg ?_)
    intro y hy
    obtain ⟨x, hx, rfl⟩ := List.mem_map.1 hy
    simpa using List.filter_eq_nil_iff.1 hnone x hx
  · obtain ⟨ha, hneg⟩ := List.mem_filter.1 (List.argmax_mem hmax)
    have hneg' : a.2 < 0 := by simpa using hneg
    have hmine : a.1.outbound = m := by
      rcases hdebit a ha with h | h
      · omega
      · exact h.1
    have hbound := hs a.1 (hxs ▸ List.mem_map_of_mem ha) hmine
    rw [← hxs, List.map_map] at hbound
    refine Int.le_trans hbound (Int.add_le_add_left (List.sum_le_sum fun x hx => ?_) _)
    simp only [Function.comp_apply, Entry.share]
    split
    · next hm =>
      by_cases hx2 : x.2 < 0
      · -- A debit no later than the last one.
        have hle : x.1.addAt ≤ a.1.addAt := List.le_of_mem_argmax (f := fun x => x.1.addAt)
          (List.mem_filter.2 ⟨hx, by simpa using hx2⟩) hmax
        rcases hdebit x hx with h | ⟨-, hf, hamt⟩
        · omega
        · simpa [hf, Nat.lt_succ_of_le hle] using hamt
      · split <;> omega
    · next hm =>
      by_cases hf : x.1.fulfilledBefore a.1.addAt = true
      · rw [if_pos hf]
        exact hcredit a ha hneg' x hx hm hf
      · rw [if_neg hf]
        rcases hdebit x hx with h | h
        · exact h
        · exact absurd h.1 hm

theorem acked_le_cut (h : Wf L) (s m : Bool) : L.acked m ≤ L.cut s m := by
  unfold cut
  split
  · exact Nat.le_refl _
  · exact h.acked_le m

/-- An HTLC's effect on a commitment, from its places. -/
theorem effect_toHtlc (h : Wf L) (he : e ∈ L.entries) (s m : Bool) :
    (L.toHtlc e).effect (L.phase e s) m = e.share m (L.cut s m) (L.cut s m) (L.cut s !m) := by
  have hinc := included_iff h he s
  have hcre := credited_iff h he s
  have hful : (L.toHtlc e).isFulfilled = e.removal.any (·.2.isFulfill) := by
    rcases hrem : e.removal with _ | ⟨j, r⟩ <;> simp [Htlc.isFulfilled, toHtlc, hrem]
  have hout : (L.toHtlc e).outbound = e.outbound := rfl
  have hamt : (L.toHtlc e).amountMsat = e.amountMsat := rfl
  unfold Htlc.effect Entry.share
  rw [hcre, hful, hout, hamt]
  rcases hrem : e.removal with _ | ⟨j, r⟩
  · simp only [hrem, Option.all_none, and_true] at hinc
    by_cases ho : e.outbound = m
    · rw [ho] at hinc
      simp [Entry.failedBefore, hrem, ho, hinc]
    · simp [Entry.fulfilledBefore, hrem, ho]
  · have hlock := Nat.lt_of_lt_of_le ((h.entry e he).removed j r hrem).2
      (Nat.le_trans (h.settled_le _) (acked_le_cut h s e.outbound))
    simp only [hrem, Option.all_some, hlock, true_and, decide_eq_true_eq] at hinc
    by_cases ho : e.outbound = m
    · rw [ho] at hinc hlock
      by_cases hj : j < L.cut s !m
      · have hni : ¬ (L.phase e s).included = true := fun hi => Nat.not_le_of_lt hj (hinc.1 hi)
        cases hf : r.isFulfill <;>
        simp [Entry.failedBefore, hrem, ho, hni, hj, hf, hlock]
      · have hi := hinc.2 (Nat.le_of_not_lt hj)
        simp [Entry.failedBefore, hrem, ho, hi, hj, hlock]
    · have hm : (!e.outbound) = m := by simpa [Bool.eq_not, Bool.not_eq_eq_eq_not] using ho
      rw [hm] at hinc
      by_cases hj : j < L.cut s m
      · have hni : ¬ (L.phase e s).included = true := fun hi => Nat.not_le_of_lt hj (hinc.1 hi)
        cases hf : r.isFulfill <;>
        simp [Entry.fulfilledBefore, hrem, ho, hm, hni, hj, hf]
      · simp [Entry.fulfilledBefore, hrem, ho, hm, hj]

/-- An HTLC that is gone has its settled effect. -/
theorem effect_gone (x : Htlc) (hout : x.outbound = e.outbound) (hamt : x.amountMsat = e.amountMsat)
    (hres : x.resolution = e.removal.map (·.2)) (m : Bool) : x.effect .gone m = e.settledShare m := by
  have hful : x.isFulfilled = e.removal.any (·.2.isFulfill) := by
    rw [Htlc.isFulfilled, hres]
    cases e.removal <;> rfl
  simp [Htlc.effect, HtlcPhase.included, HtlcPhase.credited, Entry.settledShare, hful, hout, hamt]

/-- What is baked counts in full on either commitment. -/
theorem share_of_baked (h : Wf L) (he : e ∈ L.entries) (hb : L.baked e = true) (s m : Bool) :
    e.share m (L.cut s m) (L.cut s m) (L.cut s !m) = e.settledShare m := by
  simp only [baked, Option.any_eq_true, decide_eq_true_eq] at hb
  obtain ⟨⟨j, r⟩, hrem, hj⟩ := hb
  have hle : ∀ n, L.settled n ≤ L.cut s n := fun n => Nat.le_trans (h.settled_le n) (acked_le_cut h s n)
  have hadd := Nat.lt_of_lt_of_le ((h.entry e he).removed j r hrem).2 (hle _)
  have hj' := Nat.lt_of_lt_of_le hj (hle _)
  by_cases ho : e.outbound = m
  · rw [ho] at hadd hj'
    cases hf : r.isFulfill <;>
    simp [Entry.share, Entry.settledShare, Entry.failedBefore, ho, hrem, hadd, hj', hf]
  · have hm : (!e.outbound) = m := by simpa [Bool.eq_not, Bool.not_eq_eq_eq_not] using ho
    rw [hm] at hj'
    cases hf : r.isFulfill <;>
    simp [Entry.share, Entry.settledShare, Entry.fulfilledBefore, ho, hrem, hj', hf]

/-- What was fulfilled before the add of an HTLC that was removed since, is baked. -/
theorem baked_of_fulfilledBefore (h : Wf L) {a : Entry} (ha : a ∈ L.entries)
    (hrem : a.removal ≠ none) (ho : e.outbound ≠ a.outbound)
    (hf : e.fulfilledBefore a.addAt = true) :
    L.baked e = true ∧ e.settledShare a.outbound = e.amountMsat := by
  obtain ⟨⟨j, r⟩, hr⟩ := Option.ne_none_iff_exists'.1 hrem
  have hadd := ((h.entry a ha).removed j r hr).2
  simp only [Entry.fulfilledBefore, Option.any_eq_true, Bool.and_eq_true, decide_eq_true_eq] at hf
  obtain ⟨⟨j', r'⟩, hr', hlt, hful⟩ := hf
  have hm : (!e.outbound) = a.outbound := by
    simpa [Bool.eq_not, Bool.not_eq_eq_eq_not] using ho
  refine ⟨?_, ?_⟩
  · simp only [baked, hr', hm, Option.any_some, decide_eq_true_eq]
    exact Nat.lt_trans hlt hadd
  · simp [Entry.settledShare, hr', hful, ho]

theorem settledShare_neg {m : Bool} (hneg : e.settledShare m < 0) :
    e.outbound = m ∧ e.removal ≠ none ∧ ∀ n, e.failedBefore n = false := by
  unfold Entry.settledShare at hneg
  rcases hrem : e.removal with _ | ⟨j, r⟩
  · simp [hrem] at hneg
  · simp only [hrem, Option.any_some] at hneg
    split at hneg
    · next hf =>
      split at hneg
      · next ho => exact ⟨ho, by simp, fun n => by simp [Entry.failedBefore, hrem, hf]⟩
      · omega
    · omega

theorem neg_le_settledShare (e : Entry) (m : Bool) : -(e.amountMsat : Int) ≤ e.settledShare m := by
  unfold Entry.settledShare
  split
  · split <;> omega
  · omega

theorem settledShare_sum (es : List Entry) :
    (es.map (·.settledShare true)).sum + (es.map (·.settledShare false)).sum = 0 := by
  induction es with
  | nil => rfl
  | cons e es ih =>
    have he : e.settledShare true + e.settledShare false = 0 := by
      unfold Entry.settledShare
      cases e.outbound <;> split <;> simp
    simp only [List.map_cons, List.sum_cons]
    omega

theorem sum_filter_add {α : Type} (p : α → Bool) (f : α → Int) (es : List α) :
    ((es.filter p).map f).sum + ((es.filter fun e => !p e).map f).sum = (es.map f).sum := by
  induction es with
  | nil => rfl
  | cons e es ih =>
    cases hp : p e <;> simp [hp] <;> omega

theorem sum_filter {α : Type} (p : α → Bool) (f : α → Int) (es : List α) :
    ((es.filter p).map f).sum = (es.map fun e => if p e then f e else 0).sum := by
  induction es with
  | nil => rfl
  | cons e es ih => cases hp : p e <;> simp [hp, ih]

/-- The balance of side `m` with what is baked and a prefix of the live HTLCs. -/
theorem partial_nonneg (h : Wf L) {init : Int} {m : Bool} (hinit : 0 ≤ init)
    (hs : L.Solvent init m) {F : Entry → Int}
    (hdebit : ∀ e ∈ L.entries, 0 ≤ F e ∨
      e.outbound = m ∧ e.failedBefore (L.acked !m) = false ∧ -(e.amountMsat : Int) ≤ F e)
    (hcredit : ∀ a ∈ L.entries, F a < 0 → ∀ e ∈ L.entries, e.outbound ≠ m →
      e.fulfilledBefore a.addAt = true → (e.amountMsat : Int) ≤ F e)
    (hbaked : ∀ e ∈ L.entries, L.baked e = true → F e = e.settledShare m)
    {pre suf : List Entry} (hpre : (L.entries.filter fun e => !L.baked e) = pre ++ suf) :
    0 ≤ init + ((L.entries.filter L.baked).map (·.settledShare m)).sum + (pre.map F).sum := by
  obtain ⟨E₁, E₂, hE, h₁, -⟩ := List.filter_eq_append_iff.1 hpre
  set G : Entry → Int := fun e => if L.baked e then e.settledShare m else 0 with hG
  have hmem₁ : ∀ e ∈ E₁, e ∈ L.entries := fun e he => hE ▸ List.mem_append_left _ he
  have hmem₂ : ∀ e ∈ E₂, e ∈ L.entries := fun e he => hE ▸ List.mem_append_right _ he
  have hsum : (E₁.map F).sum + (E₂.map G).sum =
      ((L.entries.filter L.baked).map (·.settledShare m)).sum + (pre.map F).sum := by
    have e₁ := sum_filter_add L.baked F E₁
    have e₂ := sum_filter_add L.baked G E₂
    have b₁ : (E₁.filter L.baked).map F = (E₁.filter L.baked).map (·.settledShare m) :=
      List.map_congr_left fun e he =>
        hbaked e (hmem₁ e (List.mem_filter.1 he).1) (List.mem_filter.1 he).2
    have b₂ : (E₂.filter L.baked).map G = (E₂.filter L.baked).map (·.settledShare m) :=
      List.map_congr_left fun e he => by simp [hG, (List.mem_filter.1 he).2]
    have z₂ : ((E₂.filter fun e => !L.baked e).map G).sum = 0 := by
      refine List.sum_eq_zero fun x hx => ?_
      obtain ⟨e, he, rfl⟩ := List.mem_map.1 hx
      have hb : L.baked e = false := by simpa using (List.mem_filter.1 he).2
      simp [hG, hb]
    rw [b₁, h₁] at e₁
    rw [b₂, z₂] at e₂
    rw [hE, List.filter_append, List.map_append, List.sum_append]
    omega
  rw [Int.add_assoc, ← hsum]
  have hxs : (E₁.map (fun e => (e, F e)) ++ E₂.map fun e => (e, G e)).map Prod.fst = L.entries := by
    simp [hE, Function.comp_def]
  have hnn := nonneg_of_solvent hinit hs hxs ?_ ?_
  · simpa [Function.comp_def] using hnn
  · intro x hx
    rcases List.mem_append.1 hx with hx | hx <;> obtain ⟨e, he, rfl⟩ := List.mem_map.1 hx
    · exact hdebit e (hmem₁ e he)
    · by_cases hneg : G e < 0
      · right
        have hb : L.baked e = true := by
          by_contra hb
          simp [hG, hb] at hneg
        simp only [hG, hb, if_true] at hneg ⊢
        obtain ⟨ho, -, hf⟩ := settledShare_neg hneg
        exact ⟨ho, hf _, neg_le_settledShare e m⟩
      · exact .inl (Int.not_lt.1 hneg)
  · intro y hy hneg x hx ho hf
    rcases List.mem_append.1 hy with hm | hm <;> obtain ⟨a, ha, rfl⟩ := List.mem_map.1 hm
    · rcases List.mem_append.1 hx with hx | hx <;> obtain ⟨e, he, rfl⟩ := List.mem_map.1 hx
      · exact hcredit a (hmem₁ a ha) hneg e (hmem₁ e he) ho hf
      · -- Later in the list than `a`, so fulfilled after the add of `a`.
        have hmine : a.outbound = m := by
          rcases hdebit a (hmem₁ a ha) with h0 | h0
          · exact absurd hneg (Int.not_lt.2 h0)
          · exact h0.1
        have hbefore : Before a e := (List.pairwise_append.1 (hE ▸ h.order)).2.2 a ha e he
        simp only [Entry.fulfilledBefore, Option.any_eq_true, Bool.and_eq_true,
          decide_eq_true_eq] at hf
        obtain ⟨⟨j, r⟩, hrem, hlt, -⟩ := hf
        have := hbefore (fun hc => ho (hc ▸ hmine)) j r hrem
        omega
    · have hb : L.baked a = true := by
        by_contra hb
        simp [hG, hb] at hneg
      simp only [hG, hb, if_true] at hneg
      obtain ⟨hmine, hrem, -⟩ := settledShare_neg hneg
      have hkey : ∀ e : Entry, e.outbound ≠ m → e.fulfilledBefore a.addAt = true →
          L.baked e = true ∧ e.settledShare m = e.amountMsat := by
        intro e ho hf
        have := baked_of_fulfilledBefore h (hmem₂ a ha) hrem (hmine ▸ ho) hf
        rwa [hmine] at this
      rcases List.mem_append.1 hx with hx | hx <;> obtain ⟨e, he, rfl⟩ := List.mem_map.1 hx
      · obtain ⟨hbe, hse⟩ := hkey e ho hf
        exact Int.le_of_eq ((hbaked e (hmem₁ e he) hbe).trans hse).symm
      · obtain ⟨hbe, hse⟩ := hkey e ho hf
        simp [hG, hbe, hse]

end Ledger

namespace Channel

/-- The base balance of side `m`. -/
def base (ch : Channel) (m : Bool) : Msat := if m then ch.toHolderMsat else ch.toCounterpartyMsat

/-- The balance of side `m` on a commitment. -/
def balance (ch : Channel) (side m : Bool) : Msat :=
  if m then (ch.balancesFor side).1 else (ch.balancesFor side).2

/-- The HTLCs in one side's next commitment are worth this much. -/
def includedMsat (ch : Channel) (side : Bool) : Msat :=
  ((ch.htlcs.filter fun h => (h.phase side).included).map (·.amountMsat)).sum

/-- The base balances are what the baked HTLCs left of the initial ones, and every HTLC was paid
for. -/
structure Funds (init : Bool → Int) (L : Ledger) (ch : Channel) : Prop where
  nonneg : ∀ m, 0 ≤ init m
  total : init true + init false = ch.fundingAmountSat * 1000
  base : ∀ m, (ch.base m : Int) = init m + ((L.entries.filter L.baked).map (·.settledShare m)).sum
  solvent : ∀ m, L.Solvent (init m) m

theorem Initial.funds {ch : Channel} (h : Initial ch) : Funds (fun m => ch.base m) {} ch where
  nonneg m := Int.natCast_nonneg _
  total := by
    show (ch.toHolderMsat : Int) + ch.toCounterpartyMsat = _
    exact_mod_cast h.balance
  base m := by simp
  solvent m := by simp [Ledger.Solvent]

variable {init : Bool → Int} {L : Ledger} {ch : Channel}

theorem phase_toHtlc (L : Ledger) (e : Entry) (s : Bool) : (L.toHtlc e).phase s = L.phase e s := by
  cases s <;> rfl

/-- The shares of a commitment satisfy the conditions of `partial_nonneg`. -/
theorem Funds.partial_balance (hS : Shape L ch) (hF : Funds init L ch) (s m : Bool)
    {pre suf : List Entry} (hpre : (L.entries.filter fun e => !L.baked e) = pre ++ suf) :
    0 ≤ (ch.base m : Int) +
      (pre.map fun e => e.share m (L.cut s m) (L.cut s m) (L.cut s !m)).sum := by
  rw [hF.base m]
  refine Ledger.partial_nonneg hS.wf (hF.nonneg m) (hF.solvent m) ?_ ?_ ?_ hpre
  · intro e he
    unfold Entry.share
    split
    · next ho =>
      split
      · next hd =>
        simp only [Bool.and_eq_true, Bool.not_eq_true'] at hd
        refine .inr ⟨ho, ?_, Int.le_refl _⟩
        by_contra hf
        have := Entry.failedBefore_mono (Ledger.acked_le_cut hS.wf s !m) (by simpa using hf)
        simp [hd.2] at this
      · exact .inl (Int.le_refl _)
    · split
      · exact .inl (Int.natCast_nonneg _)
      · exact .inl (Int.le_refl _)
  · intro a ha hneg e he ho hf
    have hlt : a.addAt < L.cut s m := by
      unfold Entry.share at hneg
      split at hneg
      · split at hneg
        · next hd =>
          simp only [Bool.and_eq_true, decide_eq_true_eq] at hd
          exact hd.1
        · omega
      · split at hneg <;> omega
    simp [Entry.share, ho, Entry.fulfilledBefore_mono (Nat.le_of_lt hlt) hf]
  · intro e he hb
    exact Ledger.share_of_baked hS.wf he hb s m

theorem effects_htlcs (hS : Shape L ch) (s m : Bool) {es : List Entry}
    (hes : ∀ e ∈ es, e ∈ L.entries) :
    Htlc.effects (·.phase s) (es.map L.toHtlc) m =
      (es.map fun e => e.share m (L.cut s m) (L.cut s m) (L.cut s !m)).sum := by
  unfold Htlc.effects
  rw [List.map_map]
  congr 1
  refine List.map_congr_left fun e he => ?_
  simp only [Function.comp_apply, phase_toHtlc]
  exact Ledger.effect_toHtlc hS.wf (hes e he) s m

/-- `balances_for` is exact, and it is the sum of all shares. -/
theorem Funds.balancesFor (hS : Shape L ch) (hF : Funds init L ch) (s : Bool) :
    ch.htlcs.foldlM (fun bal h => h.applyBalanceExact (h.phase s) bal)
        (ch.toHolderMsat, ch.toCounterpartyMsat) = some (ch.balancesFor s) ∧
    ∀ m, (ch.balance s m : Int) = ch.base m + Htlc.effects (·.phase s) ch.htlcs m := by
  have hfold := Htlc.foldl_exact (·.phase s) ch.htlcs (ch.toHolderMsat, ch.toCounterpartyMsat) ?_
  · refine ⟨hfold.1, fun m => ?_⟩
    cases m
    · exact hfold.2.2
    · exact hfold.2.1
  · intro pre suf heq
    rw [hS.htlcs, Ledger.htlcs] at heq
    obtain ⟨pre', suf', hpre, rfl, rfl⟩ := List.map_eq_append_iff.1 heq
    have hmem : ∀ e ∈ pre', e ∈ L.entries := fun e he =>
      (List.mem_filter.1 (hpre ▸ List.mem_append_left suf' he)).1
    rw [effects_htlcs hS s true hmem, effects_htlcs hS s false hmem]
    exact ⟨hF.partial_balance hS s true hpre, hF.partial_balance hS s false hpre⟩

/-- The balance of a side on a commitment, from the whole ledger. -/
theorem Funds.balance_eq (hS : Shape L ch) (hF : Funds init L ch) (s m : Bool) :
    (ch.balance s m : Int) =
      init m + (L.entries.map fun e => e.share m (L.cut s m) (L.cut s m) (L.cut s !m)).sum := by
  have hbaked : (L.entries.filter L.baked).map
      (fun e => e.share m (L.cut s m) (L.cut s m) (L.cut s !m)) =
      (L.entries.filter L.baked).map (·.settledShare m) := by
    refine List.map_congr_left fun e he => ?_
    obtain ⟨hmem, hb⟩ := List.mem_filter.1 he
    exact Ledger.share_of_baked hS.wf hmem hb s m
  have hsum := Ledger.sum_filter_add L.baked
    (fun e => e.share m (L.cut s m) (L.cut s m) (L.cut s !m)) L.entries
  rw [(hF.balancesFor hS s).2 m, hF.base m, hS.htlcs, Ledger.htlcs,
    effects_htlcs hS s m fun e he => (List.mem_filter.1 he).1, ← hsum, hbaked]
  omega

/-! ## Operations -/

/-- A new HTLC of side `n` counts for no HTLC before it. -/
theorem solvent_add (hS : Shape L ch) (hF : Funds init L ch) (n : Bool) (id : HtlcId)
    {amountMsat : Msat} (paymentHash : PaymentHash) (cltvExpiry : Nat) (onion : List UInt8)
    (source : Option HtlcSource) (hpay : amountMsat ≤ ch.balance (!n) n) (m : Bool) :
    (L.add n id amountMsat paymentHash cltvExpiry onion source).Solvent (init m) m := by
  intro a ha hm
  show 0 ≤ init m + ((L.entries ++ [_]).map fun e : Entry => e.share m (a.addAt + 1) a.addAt
    (L.acked !m)).sum
  rw [List.map_append, List.sum_append]
  rcases List.mem_append.1 ha with hold | hnew
  · have hlt := (hS.wf.entry a hold).added
    have hzero : Entry.share ⟨⟨(L.log n).length, id, amountMsat, paymentHash, cltvExpiry⟩, n, onion,
        source, none⟩ m (a.addAt + 1) a.addAt (L.acked !m) = 0 := by
      unfold Entry.share
      split
      · next hn =>
        simp only at hn
        rw [hm, ← hn] at hlt
        have : ¬ (L.log n).length < a.addAt + 1 := by omega
        simp [this]
      · simp [Entry.fulfilledBefore]
    simpa [hzero] using hF.solvent m a hold hm
  · obtain rfl := List.mem_singleton.1 hnew
    obtain rfl : n = m := hm
    -- The recipient's commitment counts all the HTLCs of the offerer.
    have hbal := hF.balance_eq hS (!n) n
    have hcut : L.cut (!n) n = (L.log n).length := by simp [Ledger.cut]
    have hcut' : L.cut (!n) (!n) = L.acked !n := by simp [Ledger.cut]
    rw [hcut, hcut'] at hbal
    have hsum : (L.entries.map fun e => e.share n ((L.log n).length + 1) (L.log n).length
        (L.acked !n)) = L.entries.map fun e => e.share n (L.log n).length (L.log n).length
        (L.acked !n) := by
      refine List.map_congr_left fun e he => ?_
      unfold Entry.share
      split
      · next ho =>
        have := (hS.wf.entry e he).added
        rw [ho] at this
        simp [this, Nat.lt_succ_of_lt this]
      · rfl
    simp only [hsum, List.map_cons, List.map_nil, List.sum_singleton]
    have hnew : Entry.share ⟨⟨(L.log n).length, id, amountMsat, paymentHash, cltvExpiry⟩, n, onion,
        source, none⟩ n ((L.log n).length + 1) (L.log n).length (L.acked !n) = -amountMsat := by
      simp [Entry.share, Entry.failedBefore]
    have hpay' : (amountMsat : Int) ≤ ch.balance (!n) n := Int.ofNat_le.2 hpay
    rw [hnew]
    omega

theorem base_add (hF : Funds init L ch) (n : Bool) (id : HtlcId)
    (amountMsat : Msat) (paymentHash : PaymentHash) (cltvExpiry : Nat) (onion : List UInt8)
    (source : Option HtlcSource) (m : Bool) :
    (ch.base m : Int) = init m + (((L.add n id amountMsat paymentHash cltvExpiry onion
      source).entries.filter L.baked).map (·.settledShare m)).sum := by
  rw [hF.base m]
  simp [Ledger.add, Ledger.baked]

namespace Funds

theorem offer (hS : Shape L ch) (hF : Funds init L ch) {amountMsat : Msat} {cltvExpiry : Nat}
    (hv : ch.validateOutboundAdd amountMsat cltvExpiry = .ok ()) (paymentHash : PaymentHash)
    (onion : List UInt8) (source : HtlcSource) :
    Funds init
      (L.add true ch.nextHolderHtlcId amountMsat paymentHash cltvExpiry onion (some source))
      (ch.offer amountMsat paymentHash cltvExpiry onion source) where
  nonneg := hF.nonneg
  total := hF.total
  base := base_add hF true _ _ _ _ _ _
  solvent := by
    refine solvent_add hS hF true _ _ _ _ _ ?_
    simp only [validateOutboundAdd, Fault.bind_eq_ok, Fault.require_eq_ok] at hv
    obtain ⟨_, -, _, -, _, -, _, -, _, -, hpay⟩ := hv
    exact Nat.le_trans (Nat.le_trans (Nat.le_add_right _ _) (Nat.le_add_right _ _)) hpay

theorem receive (hS : Shape L ch) (hF : Funds init L ch) {msg : Wire.UpdateAddHtlc}
    (hc : ch.checkUpdateAddHtlc msg = .ok ()) :
    Funds init (L.add false msg.id msg.amountMsat msg.paymentHash msg.cltvExpiry
      msg.onionRoutingPacket none) (ch.receive msg) where
  nonneg := hF.nonneg
  total := hF.total
  base := base_add hF false _ _ _ _ _ _
  solvent := by
    refine solvent_add hS hF false _ _ _ _ _ ?_
    simp only [checkUpdateAddHtlc, Fault.bind_eq_ok, Fault.require_eq_ok] at hc
    obtain ⟨_, -, _, -, _, -, _, -, _, -, _, -, _, -, _, -, hpay⟩ := hc
    exact Nat.le_trans (Nat.le_trans (Nat.le_add_right _ _) (Nat.le_add_right _ _)) hpay

/-- A removal counts for no HTLC so far, and settles nothing yet. -/
theorem remove (hS : Shape L ch) (hF : Funds init L ch) {n : Bool} {id : HtlcId}
    (r : HtlcResolution)
    (hlock : ∀ e ∈ L.entries, e.key = (!n, id) → e.removal = none ∧ e.addAt < L.settled !n)
    {ch' : Channel} (hbase : ∀ m, ch'.base m = ch.base m)
    (hfund : ch'.fundingAmountSat = ch.fundingAmountSat) :
    Funds init (L.remove n id r) ch' where
  nonneg := hF.nonneg
  total := hfund ▸ hF.total
  base m := by
    have hset : ¬ (L.log n).length < L.settled n :=
      Nat.not_lt.2 (Nat.le_trans (hS.wf.settled_le n) (hS.wf.acked_le n))
    rw [hbase m, hF.base m]
    show _ = init m + (((L.entries.map _).filter L.baked).map (·.settledShare m)).sum
    rw [List.filter_map, List.map_map]
    have hfil : L.entries.filter (L.baked ∘ fun e => if e.key = (!n, id) then
        e.resolve (L.log n).length r else e) = L.entries.filter L.baked := by
      refine List.filter_congr fun e he => ?_
      simp only [Function.comp_apply]
      split
      · next hk =>
        have hout : e.outbound = !n := congrArg Prod.fst hk
        simp [Ledger.baked, (hlock e he hk).1, hout, hset]
      · rfl
    rw [hfil]
    congr 2
    refine List.map_congr_left fun e he => ?_
    obtain ⟨hmem, hb⟩ := List.mem_filter.1 he
    simp only [Function.comp_apply]
    split
    · next hk => simp [Ledger.baked, (hlock e hmem hk).1] at hb
    · rfl
  solvent m := by
    intro a ha hm
    obtain ⟨a₀, ha₀, rfl⟩ := List.mem_map.1 ha
    have hadd : (if a₀.key = (!n, id) then a₀.resolve (L.log n).length r else a₀).addAt =
        a₀.addAt := by split <;> rfl
    have hout : (if a₀.key = (!n, id) then a₀.resolve (L.log n).length r else a₀).outbound =
        a₀.outbound := by split <;> rfl
    rw [hout] at hm
    rw [hadd]
    refine Int.le_trans (hF.solvent m a₀ ha₀ hm) (Int.le_of_eq ?_)
    show _ = init m + ((L.entries.map _).map _).sum
    rw [List.map_map]
    congr 2
    refine List.map_congr_left fun e he => ?_
    simp only [Function.comp_apply]
    split
    · next hk =>
      have hout : e.outbound = !n := congrArg Prod.fst hk
      have hnone := (hlock e he hk).1
      have hlen := (hS.wf.entry a₀ ha₀).added
      refine (Entry.share_resolve hnone r ?_ ?_).symm
      · intro hmn
        have hn : (!m) = n := by rw [← hmn, hout, Bool.not_not]
        rw [hn]
        exact hS.wf.acked_le n
      · intro hmn
        have hn : m = n := by
          have : m = !e.outbound := by simpa [Bool.eq_not] using fun h => hmn h.symm
          rw [this, hout, Bool.not_not]
        rw [hm, hn] at hlen
        exact Nat.le_of_lt hlen
    · rfl

theorem sign (hF : Funds init L ch) (point : PublicKey) (b : Built) :
    Funds init L.sign (ch.sign point b) :=
  ⟨hF.nonneg, hF.total, hF.base, hF.solvent⟩

/-- More acknowledged failures and the same HTLCs. -/
theorem solvent_mono {L' : Ledger} (hes : L'.entries = L.entries)
    (hack : ∀ m, L.acked m ≤ L'.acked m) {x : Int} {m : Bool} (hs : L.Solvent x m) :
    L'.Solvent x m := by
  intro a ha hm
  rw [hes] at ha ⊢
  refine Int.le_trans (hs a ha hm) (Int.add_le_add_left (List.sum_le_sum fun e _ => ?_) _)
  exact e.share_mono m _ _ (hack _)

end Funds

/-- `gc_htlcs` is exact. -/
def GcExact (ch : Channel) : Prop :=
  (ch.htlcs.filter Htlc.isGone).foldlM (fun bal h => h.applyBalanceExact .gone bal)
    (ch.toHolderMsat, ch.toCounterpartyMsat) =
      some (ch.gcHtlcs.toHolderMsat, ch.gcHtlcs.toCounterpartyMsat)

/-- `mid` has the HTLCs of `L` with the phases of `L'`, those gone included. -/
structure Collecting (L L' : Ledger) (ch mid : Channel) (T : Entry → Htlc) : Prop where
  wf : L'.Wf
  entries : L'.entries = L.entries
  settled : ∀ m, L.settled m ≤ L'.settled m
  acked : ∀ m, L.acked m ≤ L'.acked m
  htlcs : mid.htlcs = (L.entries.filter fun e => !L.baked e).map T
  gone : ∀ e ∈ L.entries, (T e).isGone = L'.baked e
  fixed : ∀ e ∈ L.entries, (T e).outbound = e.outbound ∧ (T e).amountMsat = e.amountMsat ∧
    (T e).resolution = e.removal.map (·.2)
  base : ∀ m, mid.base m = ch.base m
  funding : mid.fundingAmountSat = ch.fundingAmountSat

namespace Collecting

variable {L' : Ledger} {mid : Channel} {T : Entry → Htlc}

/-- What collecting some of the HTLCs does to the balance of side `m`. -/
theorem effects_gone (h : Collecting L L' ch mid T) (m : Bool) {es : List Entry}
    (hes : ∀ e ∈ es, e ∈ L.entries) :
    Htlc.effects (fun _ => .gone) ((es.map T).filter Htlc.isGone) m =
      (es.map fun e => if L'.baked e then e.settledShare m else 0).sum := by
  rw [← Ledger.sum_filter, List.filter_map, Htlc.effects, List.map_map]
  have hfil : es.filter (Htlc.isGone ∘ T) = es.filter L'.baked :=
    List.filter_congr fun e he => h.gone e (hes e he)
  rw [hfil]
  congr 1
  refine List.map_congr_left fun e he => ?_
  obtain ⟨h1, h2, h3⟩ := h.fixed e (hes e (List.mem_filter.1 he).1)
  exact Ledger.effect_gone (T e) h1 h2 h3 m

theorem partial_balance (h : Collecting L L' ch mid T) (hS : Shape L ch) (hF : Funds init L ch)
    (m : Bool) {pre suf : List Entry}
    (hpre : (L.entries.filter fun e => !L.baked e) = pre ++ suf) :
    0 ≤ (mid.base m : Int) +
      (pre.map fun e => if L'.baked e then e.settledShare m else 0).sum := by
  rw [h.base, hF.base m]
  refine Ledger.partial_nonneg hS.wf (hF.nonneg m) (hF.solvent m) ?_ ?_ ?_ hpre
  · intro e _
    split
    · by_cases hneg : e.settledShare m < 0
      · obtain ⟨ho, -, hf⟩ := Ledger.settledShare_neg hneg
        exact .inr ⟨ho, hf _, Ledger.neg_le_settledShare e m⟩
      · exact .inl (Int.not_lt.1 hneg)
    · exact .inl (Int.le_refl _)
  · intro a ha hneg e _ ho hf
    split at hneg
    · obtain ⟨hmine, hrem, -⟩ := Ledger.settledShare_neg hneg
      obtain ⟨hb, hse⟩ := Ledger.baked_of_fulfilledBefore hS.wf ha hrem (hmine ▸ ho) hf
      rw [hmine] at hse
      simp [Ledger.baked_mono h.settled hb, hse]
    · omega
  · intro e _ hb
    simp [Ledger.baked_mono h.settled hb]

/-- Collecting is exact and keeps the funds in order. -/
theorem gc (h : Collecting L L' ch mid T) (hS : Shape L ch) (hF : Funds init L ch) :
    mid.GcExact ∧ Funds init L' mid.gcHtlcs := by
  have hfold := Htlc.foldl_exact (fun _ => .gone) (mid.htlcs.filter Htlc.isGone)
    (mid.toHolderMsat, mid.toCounterpartyMsat) ?_
  · refine ⟨hfold.1, hF.nonneg, h.funding ▸ hF.total, ?_, ?_⟩
    · intro m
      have hcol : (mid.gcHtlcs.base m : Int) = mid.base m +
          Htlc.effects (fun _ => .gone) (mid.htlcs.filter Htlc.isGone) m := by
        cases m
        · exact hfold.2.2
        · exact hfold.2.1
      have hb : (L.entries.filter L.baked).map
          (fun e => if L'.baked e then e.settledShare m else 0) =
          (L.entries.filter L.baked).map (·.settledShare m) :=
        List.map_congr_left fun e he => by
          simp [Ledger.baked_mono h.settled (List.mem_filter.1 he).2]
      have hsum := Ledger.sum_filter_add L.baked
        (fun e => if L'.baked e then e.settledShare m else 0) L.entries
      rw [hcol, h.htlcs, h.effects_gone m fun e he => (List.mem_filter.1 he).1, h.base, hF.base m,
        h.entries, Ledger.sum_filter L'.baked, ← hsum, hb]
      omega
    · intro m
      exact Funds.solvent_mono h.entries h.acked (hF.solvent m)
  · intro pre suf heq
    rw [h.htlcs] at heq
    obtain ⟨l₁, l₂, hl, rfl, -⟩ := List.filter_eq_append_iff.1 heq
    obtain ⟨p, q, hpq, rfl, rfl⟩ := List.map_eq_append_iff.1 hl
    have hmem : ∀ e ∈ p, e ∈ L.entries := fun e he =>
      (List.mem_filter.1 (hpq ▸ List.mem_append_left q he)).1
    rw [h.effects_gone true hmem, h.effects_gone false hmem]
    exact ⟨h.partial_balance hS hF true hpq, h.partial_balance hS hF false hpq⟩

end Collecting

theorem acceptCommitment_collecting (hS : Shape L ch) (number : Nat) (b : Built)
    (msg : Wire.CommitmentSigned) :
    Collecting L L.accept ch (ch.acceptCommitment number b msg) L.accept.toHtlc where
  wf := hS.wf.accept
  entries := rfl
  settled := Ledger.settled_le_accept hS.wf
  acked m := by cases m <;> simp [Ledger.accept, hS.wf.acked_le]
  htlcs := by
    show (ch.htlcs.map Htlc.lockHolder).map Htlc.acknowledge = _
    rw [hS.htlcs, Ledger.htlcs, List.map_map, List.map_map]
    refine List.map_congr_left fun e he => ?_
    exact (Ledger.toHtlc_accept hS.wf (List.mem_filter.1 he).1).symm
  gone e _ := Ledger.toHtlc_isGone hS.wf.accept
  fixed e _ := ⟨rfl, rfl, rfl⟩
  base _ := rfl
  funding := rfl

theorem process_fixed (x : Htlc) : x.process.outbound = x.outbound ∧
    x.process.amountMsat = x.amountMsat ∧ x.process.resolution = x.resolution := by
  unfold Htlc.process
  split <;> exact ⟨rfl, rfl, rfl⟩

theorem acceptRevocation_collecting (hS : Shape L ch) {pending : PendingCounterpartyCommitment}
    (ha : ch.awaitingRaa = true) (hp : ch.pendingCounterpartyCommitment = some pending)
    (secrets : Shachain.SecretStore) (nextPoint : PublicKey) :
    Collecting L L.revoke ch (ch.acceptRevocation pending secrets nextPoint)
      fun e => L.lockRevoked e (L.toHtlc e) where
  wf := hS.wf.revoke
  entries := rfl
  settled := Ledger.settled_le_revoke hS.wf
  acked m := by cases m <;> simp [Ledger.revoke, hS.wf.acked_le]
  htlcs := hS.acceptRevocation_htlcs ha hp secrets nextPoint
  gone e he := by
    rw [← Shape.process_isGone, ← Ledger.toHtlc_revoke hS.wf he, Ledger.toHtlc_isGone hS.wf.revoke]
  fixed e he := by
    obtain ⟨h1, h2, h3⟩ := process_fixed (L.lockRevoked e (L.toHtlc e))
    rw [← Ledger.toHtlc_revoke hS.wf he] at h1 h2 h3
    exact ⟨h1.symm, h2.symm, h3.symm⟩
  base _ := rfl
  funding := rfl

/-! ## Runs -/

/-- A channel with a ledger that accounts for it. -/
def Accounted (ch : Channel) : Prop := ∃ init L, Shape L ch ∧ Funds init L ch

theorem Move.accounted {C : Crypto} {ch' : Channel} (hm : Move C ch ch') (h : Accounted ch) :
    Accounted ch' := by
  obtain ⟨init, L, hS, hF⟩ := h
  cases hm with
  | offer amountMsat paymentHash cltvExpiry onion source hst ha hv =>
    exact ⟨init, _, hS.offer ha _ _ _ _ _, hF.offer hS hv _ _ _⟩
  | resolveInbound id r x ha hx =>
    exact ⟨init, _, hS.resolveInbound ha hx r,
      hF.remove (n := true) hS r (hS.inbound_removable hx).2 (fun _ => rfl) rfl⟩
  | receive msg hc =>
    have hid : msg.id = ch.nextCounterpartyHtlcId := by
      simp only [checkUpdateAddHtlc, Fault.bind_eq_ok, Fault.require_eq_ok] at hc
      obtain ⟨_, -, _, -, _, hid, -⟩ := hc
      exact hid
    exact ⟨init, _, hS.receive hid, hF.receive hS hc⟩
  | resolveOutbound id r x hx =>
    exact ⟨init, _, hS.resolveOutbound hx r,
      hF.remove (n := false) hS r (hS.outbound_removable hx).2 (fun _ => rfl) rfl⟩
  | sign point b => exact ⟨init, _, hS.sign point b, hF.sign point b⟩
  | revoke pending secret point secrets nextPoint ha hp =>
    obtain ⟨-, hF'⟩ := (acceptRevocation_collecting hS ha hp secrets nextPoint).gc hS hF
    exact ⟨init, _, hS.revoke ha hp secrets nextPoint,
      ⟨hF'.nonneg, hF'.total, hF'.base, hF'.solvent⟩⟩
  | _ =>
    exact ⟨init, L, ⟨hS.wf, hS.htlcs, hS.ids, hS.idle, hS.snapshot⟩,
      ⟨hF.nonneg, hF.total, hF.base, hF.solvent⟩⟩

theorem Accounted.accept (h : Accounted ch) (number : Nat) (b : Built)
    (msg : Wire.CommitmentSigned) : Accounted (ch.acceptCommitment number b msg).gcHtlcs := by
  obtain ⟨init, L, hS, hF⟩ := h
  exact ⟨init, _, hS.accept _ b msg, ((acceptCommitment_collecting hS _ b msg).gc hS hF).2⟩

theorem accounted_of_run {C : Crypto} {ch₀ : Channel} {tr : Trace Input ChannelError (List Wire.Message)}
    (h₀ : Fresh C ch₀) (hr : Run (step C) ch₀ tr ch) (hd : ∀ x ∈ tr, x.1 ≠ .disconnect) :
    Accounted ch := by
  refine Run.invariant (A := (· ≠ .disconnect)) ⟨_, {}, h₀.initial.shape, h₀.initial.funds⟩ ?_ hr hd
  intro ch i hi hb
  refine (step_stepped i ch).mono fun ch' hs => ?_
  cases hs with
  | moves _ hm => exact hm.invariant (fun _ _ hm => hm.accounted) hb
  | refused => exact hb
  | accepted msg b => exact hb.accept _ b msg
  | rolledBack => exact absurd rfl hi

/-- What is in the two balances and the HTLCs of a commitment is the funding, and no subtraction
saturates. -/
structure Conserves (ch : Channel) : Prop where
  total : ∀ side, (ch.balancesFor side).1 + (ch.balancesFor side).2 + ch.includedMsat side =
    ch.fundingAmountSat * 1000
  exact : ∀ side, ch.htlcs.foldlM (fun bal h => h.applyBalanceExact (h.phase side) bal)
    (ch.toHolderMsat, ch.toCounterpartyMsat) = some (ch.balancesFor side)

theorem Accounted.conserves (h : Accounted ch) : Conserves ch := by
  obtain ⟨init, L, hS, hF⟩ := h
  refine ⟨fun side => ?_, fun side => (hF.balancesFor hS side).1⟩
  have h1 : ((ch.balancesFor side).1 : Int) = _ := (hF.balancesFor hS side).2 true
  have h2 : ((ch.balancesFor side).2 : Int) = _ := (hF.balancesFor hS side).2 false
  have hinc := Htlc.effects_sum (·.phase side) ch.htlcs
  have hb1 := hF.base true
  have hb2 := hF.base false
  have hbase := Ledger.settledShare_sum (L.entries.filter L.baked)
  have htot := hF.total
  have hgoal : ((ch.balancesFor side).1 : Int) + (ch.balancesFor side).2 +
      ch.includedMsat side = ch.fundingAmountSat * 1000 := by
    unfold includedMsat
    omega
  exact_mod_cast hgoal

/-- Without a disconnect, whatever the peer sends: every balance a channel computes is exact, in
every state between and within its steps and at every garbage collection. -/
theorem balance_conservation {C : Crypto} {ch₀ : Channel}
    {tr : Trace Input ChannelError (List Wire.Message)} (h₀ : Fresh C ch₀)
    (hr : Run (step C) ch₀ tr ch) (hd : ∀ x ∈ tr, x.1 ≠ .disconnect) :
    Conserves ch ∧ (∀ ch', Moves C ch ch' → Conserves ch') ∧
    (∀ number b msg, (ch.acceptCommitment number b msg).GcExact) ∧
    ∀ pending secrets point, ch.awaitingRaa = true →
      ch.pendingCounterpartyCommitment = some pending →
      (ch.acceptRevocation pending secrets point).GcExact := by
  have hb := accounted_of_run h₀ hr hd
  obtain ⟨init, L, hS, hF⟩ := id hb
  refine ⟨hb.conserves, fun ch' hm => ?_, fun number b msg => ?_, fun pending secrets point ha hp => ?_⟩
  · exact (hm.invariant (fun _ _ hm => hm.accounted) hb).conserves
  · exact ((acceptCommitment_collecting hS number b msg).gc hS hF).1
  · exact ((acceptRevocation_collecting hS ha hp secrets point).gc hS hF).1

/-- The offerer of a payment in flight. -/
theorem balance_conservation_alice :
    ∃ tr ch, Run (step Demo.C) Demo.alice.1 tr ch ∧ (∀ x ∈ tr, x.1 ≠ .disconnect) ∧
      ch.htlcs.length = 1 ∧ Conserves ch := by
  obtain ⟨tr, ch, hr, hlen, hd⟩ := Demo.exists_chan
    (Demo.handshake ++ Demo.payment.take 2) .a (·.htlcs.length = 1) (by decide +kernel)
  have hd' : ∀ x ∈ tr, x.1 ≠ .disconnect := fun x hx hxd => by
    have hmem := hd x hx hxd
    simp [Demo.handshake, Demo.payment] at hmem
  exact ⟨tr, ch, hr, hd', hlen, (balance_conservation Demo.alice_fresh hr hd').1⟩

end Channel
