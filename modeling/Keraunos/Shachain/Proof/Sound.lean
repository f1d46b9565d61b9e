import Keraunos.Shachain.Store
import Mathlib.Data.Nat.Bitwise
import Mathlib.Data.Nat.Factorization.Basic

/-!
# Soundness of the secret store

`Holds H st m f`: the store after the secrets `f` of the indices `m..=maxIndex` were inserted in
descending order. Bucket `t` holds the smallest index from `m` on whose bucket is `t`
(`IsFirst`), and its secret derives `f x` for every index `x` of its block (`derives`).

* `deriveSecret_comp`: the composition law; deriving `x` from a base can stop at any index whose
  block contains `x` and go on from there.
* `cover`: the blocks of the first indices cover every index from `m` on.
* `Holds.insert`: an accepted insertion at `m - 1` keeps the invariant. The check of `insert` only
  compares the lower buckets' own secrets; the rest of the block follows by composition.
* `Holds.secretFor`, `Holds.secretFor_lt`: what the store answers.
* `fromEntries_entries`: persistence keeps the store.
-/

namespace Shachain

/-! ## Buckets -/

theorem trailingZerosAux_spec {fuel n : Nat} (hn : n ≠ 0) (hlt : n < 2 ^ fuel) :
    2 ^ trailingZerosAux fuel n ∣ n ∧ ¬ 2 ^ (trailingZerosAux fuel n + 1) ∣ n ∧
      trailingZerosAux fuel n < fuel := by
  induction fuel generalizing n with
  | zero => simp at hlt; omega
  | succ fuel ih =>
    unfold trailingZerosAux
    split
    · next h => exact ⟨by simp, by simpa using by omega, by omega⟩
    · next h =>
      obtain ⟨h1, h2, h3⟩ := ih (n := n / 2) (by omega) (by rw [Nat.pow_succ] at hlt; omega)
      obtain ⟨k, rfl⟩ : ∃ k, n = 2 * k := ⟨n / 2, by omega⟩
      rw [Nat.mul_div_cancel_left k (by decide)] at h1 h2 h3 ⊢
      refine ⟨?_, fun hd => ?_, by omega⟩
      · rw [Nat.pow_succ']
        exact Nat.mul_dvd_mul_left 2 h1
      · rw [Nat.pow_succ'] at hd
        exact h2 (Nat.dvd_of_mul_dvd_mul_left (by decide) hd)

namespace SecretStore

theorem bucket_dvd {i : Nat} (h : i < 2 ^ 48) : 2 ^ bucket i ∣ i := by
  unfold bucket
  split
  · next h0 => simp [h0]
  · next h0 => exact (trailingZerosAux_spec h0 (by omega)).1

theorem bucket_not_dvd {i : Nat} (h : i < 2 ^ 48) (h0 : i ≠ 0) : ¬ 2 ^ (bucket i + 1) ∣ i := by
  unfold bucket
  rw [if_neg h0]
  exact (trailingZerosAux_spec h0 (by omega)).2.1

theorem bucket_lt_of_ne {i : Nat} (h : i < 2 ^ 48) (h0 : i ≠ 0) : bucket i < 48 := by
  by_contra hc
  have h1 : 2 ^ bucket i ≤ i := Nat.le_of_dvd (by omega) (bucket_dvd h)
  have h2 : 2 ^ 48 ≤ 2 ^ bucket i := Nat.pow_le_pow_right (by decide) (by omega)
  omega

theorem bucket_lt {i : Nat} (h : i < 2 ^ 48) : bucket i < 49 := by
  by_cases h0 : i = 0
  · simp [bucket, h0]
  · exact (bucket_lt_of_ne h h0).trans (by decide)

theorem bucket_block_lt {i : Nat} (h : i < 2 ^ 48) : i + 2 ^ bucket i ≤ 2 ^ 48 := by
  obtain ⟨c, hc⟩ := bucket_dvd h
  have hd : 2 ^ bucket i ∣ 2 ^ 48 := Nat.pow_dvd_pow 2 (by have := bucket_lt h; omega)
  obtain ⟨d, hd⟩ := hd
  have hcd : c < d := by
    by_contra hn
    have := Nat.mul_le_mul_left (2 ^ bucket i) (Nat.le_of_not_lt hn)
    omega
  calc i + 2 ^ bucket i = 2 ^ bucket i * (c + 1) := by rw [Nat.mul_add, ← hc]; omega
    _ ≤ 2 ^ bucket i * d := Nat.mul_le_mul_left _ hcd
    _ = 2 ^ 48 := hd.symm

/-- A multiple of `2 ^ t` has bucket at least `t`. -/
theorem le_bucket {i t : Nat} (h : i < 2 ^ 48) (ht : t ≤ 48) (hd : 2 ^ t ∣ i) : t ≤ bucket i := by
  by_cases h0 : i = 0
  · simp [bucket, h0, ht]
  · by_contra hc
    exact bucket_not_dvd h h0 ((Nat.pow_dvd_pow 2 (by omega)).trans hd)

end SecretStore

open SecretStore

/-! ## The composition law -/

theorem and_shift_ne_zero (i b : Nat) : i &&& (1 <<< b) ≠ 0 ↔ i.testBit b = true := by
  rw [Nat.one_shiftLeft, Nat.and_two_pow]
  cases i.testBit b <;> simp

section
variable (H : Bytes32 → Bytes32)

theorem deriveSecret_succ (s : Bytes32) (b i : Nat) :
    deriveSecret H s (b + 1) i =
      deriveSecret H (if i.testBit b then H (flipBit s b) else s) b i := by
  rw [deriveSecret]
  by_cases h : i.testBit b <;> simp [and_shift_ne_zero, h]

/-- Bits that are all clear derive nothing. -/
theorem deriveSecret_zeros {s : Bytes32} {b i : Nat} (h : ∀ k < b, i.testBit k = false) :
    deriveSecret H s b i = s := by
  induction b generalizing s with
  | zero => rfl
  | succ b ih =>
    rw [deriveSecret_succ, h b (by omega)]
    exact ih fun k hk => h k (by omega)

/-- Deriving `x` can stop at `j`, whose low `t` bits are clear and which shares the other bits with
`x`, and go on from there. -/
theorem deriveSecret_comp {s : Bytes32} {b t x j : Nat} (ht : t ≤ b)
    (hhi : ∀ k, t ≤ k → x.testBit k = j.testBit k) (hlo : ∀ k < t, j.testBit k = false) :
    deriveSecret H s b x = deriveSecret H (deriveSecret H s b j) t x := by
  induction b generalizing s with
  | zero => obtain rfl : t = 0 := by omega
            rfl
  | succ b ih =>
    rcases Nat.lt_or_ge b t with hb | hb
    · obtain rfl : t = b + 1 := by omega
      rw [deriveSecret_zeros H (i := j) hlo]
    · rw [deriveSecret_succ, deriveSecret_succ H s b j, hhi b hb]
      exact ih hb

end

/-- Inside the block of a multiple `j` of `2 ^ t` only the low `t` bits change. -/
theorem testBit_block {t j x : Nat} (hd : 2 ^ t ∣ j) (h1 : j ≤ x) (h2 : x < j + 2 ^ t) :
    (∀ k, t ≤ k → x.testBit k = j.testBit k) ∧ ∀ k < t, j.testBit k = false := by
  obtain ⟨c, rfl⟩ := hd
  constructor
  · intro k hk
    have hq : x / 2 ^ t = c :=
      Nat.div_eq_of_lt_le (by rw [Nat.mul_comm]; exact h1)
        (by rw [Nat.add_mul, Nat.mul_comm c]; omega)
    obtain ⟨d, rfl⟩ := Nat.exists_eq_add_of_le hk
    rw [Nat.add_comm t d, ← Nat.testBit_div_two_pow, ← Nat.testBit_div_two_pow, hq,
      Nat.mul_div_cancel_left _ (Nat.two_pow_pos t)]
  · intro k hk
    simp [Nat.testBit_two_pow_mul, hk]

theorem deriveSecret_block (H : Bytes32 → Bytes32) {s : Bytes32} {b t x j : Nat} (ht : t ≤ b)
    (hd : 2 ^ t ∣ j) (h1 : j ≤ x) (h2 : x < j + 2 ^ t) :
    deriveSecret H s b x = deriveSecret H (deriveSecret H s b j) t x :=
  deriveSecret_comp H ht (testBit_block hd h1 h2).1 (testBit_block hd h1 h2).2

/-! ## First indices and their blocks -/

/-- `j` is the smallest index from `m` on with bucket `t`. -/
structure IsFirst (m t j : Nat) : Prop where
  ge : m ≤ j
  lt : j < 2 ^ 48
  bucket : bucket j = t
  least : ∀ i, m ≤ i → i < 2 ^ 48 → SecretStore.bucket i = t → j ≤ i

/-- The blocks of the first indices cover every index from `m` on. If the block of `j` contains
`x` and `j` is not the first of its bucket, `j - 2 ^ bucket j` has a higher bucket and its block
still contains `x`. -/
theorem cover {m j x : Nat} (hmj : m ≤ j) (hj : j < 2 ^ 48) (h1 : j ≤ x)
    (h2 : x < j + 2 ^ bucket j) :
    ∃ t i, IsFirst m t i ∧ i ≤ x ∧ x < i + 2 ^ t := by
  induction hk : 49 - bucket j using Nat.strong_induction_on generalizing j with
  | _ k ih =>
    by_cases hf : IsFirst m (bucket j) j
    · exact ⟨_, j, hf, h1, h2⟩
    · obtain ⟨i, hmi, hi, hb, hij⟩ : ∃ i, m ≤ i ∧ i < 2 ^ 48 ∧ bucket i = bucket j ∧ i < j := by
        by_contra hc
        push Not at hc
        exact hf ⟨hmj, hj, rfl, hc⟩
      set t := bucket j with ht
      obtain ⟨a, ha⟩ := bucket_dvd hj
      obtain ⟨c, hc⟩ := bucket_dvd hi
      rw [hb] at hc
      rw [← ht] at ha
      have hca : c < a := by
        by_contra hn
        have := Nat.mul_le_mul_left (2 ^ t) (Nat.le_of_not_lt hn)
        omega
      have hstep : i ≤ j - 2 ^ t ∧ 2 ^ t ≤ j := by
        have := Nat.mul_le_mul_left (2 ^ t) hca
        rw [Nat.mul_succ] at this
        omega
      have hd : 2 ^ (t + 1) ∣ j - 2 ^ t := by
        have hodd : ¬ 2 ∣ a := by
          rintro ⟨d, rfl⟩
          refine bucket_not_dvd hj (by omega) ⟨d, ?_⟩
          rw [← ht, Nat.pow_succ, Nat.mul_assoc, ← ha]
        obtain ⟨d, rfl⟩ : ∃ d, a = 2 * d + 1 := ⟨a / 2, by omega⟩
        refine ⟨d, ?_⟩
        rw [ha, Nat.mul_add, Nat.mul_one, Nat.add_sub_cancel, Nat.pow_succ, Nat.mul_assoc]
      have hlt48 : t < 48 := by
        have := bucket_lt_of_ne hj (by have := Nat.two_pow_pos t; omega)
        omega
      have hle := le_bucket (i := j - 2 ^ t) (t := t + 1) (by omega) (by omega) hd
      have hpow : 2 ^ (t + 1) ≤ 2 ^ bucket (j - 2 ^ t) := Nat.pow_le_pow_right (by decide) hle
      rw [Nat.pow_succ] at hpow
      exact ih (49 - bucket (j - 2 ^ t)) (by omega) (by omega) (by omega) (by omega) (by omega) rfl

/-! ## The invariant -/

/-- The store after the secrets `f` of the indices `m..=maxIndex` were inserted. -/
structure Holds (H : Bytes32 → Bytes32) (st : SecretStore) (m : Nat) (f : Nat → Bytes32) :
    Prop where
  slot_iff : ∀ t e, st.slot t = some e ↔ IsFirst m t e.1 ∧ e.2 = f e.1
  derives : ∀ t j, IsFirst m t j → ∀ x, j ≤ x → x < j + 2 ^ t → deriveSecret H (f j) t x = f x

theorem Holds.congr {H : Bytes32 → Bytes32} {st : SecretStore} {m : Nat} {f g : Nat → Bytes32}
    (h : Holds H st m f) (hfg : ∀ i, m ≤ i → f i = g i) : Holds H st m g where
  slot_iff t e := by
    rw [h.slot_iff]
    exact and_congr_right fun hf => by rw [hfg _ hf.ge]
  derives t j hj x h1 h2 := by
    rw [← hfg j hj.ge, ← hfg x (hj.ge.trans h1)]
    exact h.derives t j hj x h1 h2

theorem slot_new (t : Nat) : SecretStore.new.slot t = none := by
  simp only [SecretStore.slot, SecretStore.new, Vector.getElem?_replicate]
  split <;> rfl

theorem holds_new (H : Bytes32 → Bytes32) (f : Nat → Bytes32) :
    Holds H SecretStore.new (2 ^ 48) f where
  slot_iff t e := by
    rw [slot_new]
    exact ⟨fun h => by simp at h, fun ⟨h, _⟩ => absurd h.ge (by have := h.lt; omega)⟩
  derives t j hj := absurd hj.ge (by have := hj.lt; omega)

theorem slot_set (st : SecretStore) {b : Nat} (hb : b < 49) (e : Option (Nat × Bytes32)) (t : Nat) :
    SecretStore.slot ⟨st.known.set b e hb⟩ t = if t = b then e else st.slot t := by
  simp only [SecretStore.slot, Vector.getElem?_set]
  by_cases h : b = t
  · subst h; simp
  · simp [h, Ne.symm h]

/-- Just below `m`, the first index of its own bucket is new and the others are unchanged. -/
theorem isFirst_pred {m t j : Nat} (hm : m < 2 ^ 48) :
    IsFirst m t j ↔ if t = bucket m then j = m else IsFirst (m + 1) t j := by
  split
  · next h =>
    subst h
    exact ⟨fun h => Nat.le_antisymm (h.least m (Nat.le_refl _) hm rfl) h.ge,
      fun h => by subst h; exact ⟨Nat.le_refl _, hm, rfl, fun _ hi _ _ => hi⟩⟩
  · next h =>
    constructor
    · intro hf
      have hne : m ≠ j := fun he => h (by rw [he, hf.bucket])
      exact ⟨by have := hf.ge; omega, hf.lt, hf.bucket, fun i hi => hf.least i (by omega)⟩
    · intro hf
      refine ⟨by have := hf.ge; omega, hf.lt, hf.bucket, fun i hi hl hb => ?_⟩
      have hne : m ≠ i := fun he => h (by rw [he, hb])
      exact hf.least i (by omega) hl hb

/-- What an accepted insertion has checked and done. -/
theorem insert_ok {H : Bytes32 → Bytes32} {st st' : SecretStore} {i : Nat} {s : Bytes32}
    (h : st.insert H i s = .ok st') :
    ∃ hb : bucket i < 49, st' = ⟨st.known.set (bucket i) (some (i, s)) hb⟩ ∧
      ∀ t < bucket i, ∀ e, st.slot t = some e → deriveSecret H s (bucket i) e.1 = e.2 := by
  unfold SecretStore.insert at h
  simp only at h
  split at h
  · next hc =>
    split at h
    · next hb =>
      refine ⟨hb, by simpa using h.symm, fun t ht e he => ?_⟩
      have := List.all_eq_true.1 hc t (List.mem_range.2 ht)
      simpa [he] using this
    · cases h
  · cases h

/-- The secret accepted at `m` derives the whole block of `m`: each index above `m` in the block
lies in the block of the first index of a lower bucket, whose secret was compared. -/
theorem insert_derives {H : Bytes32 → Bytes32} {st st' : SecretStore} {m : Nat} {s : Bytes32}
    {f : Nat → Bytes32} (hH : Holds H st (m + 1) f) (hm : m < 2 ^ 48)
    (h : st.insert H m s = .ok st') {x : Nat} (h1 : m < x) (h2 : x < m + 2 ^ bucket m) :
    deriveSecret H s (bucket m) x = f x := by
  obtain ⟨hb, -, hchk⟩ := insert_ok h
  have hx : x < 2 ^ 48 := h2.trans_le (bucket_block_lt hm)
  obtain ⟨t, j, hj, hjx, hxj⟩ := cover (m := m + 1) (j := x) h1 hx (Nat.le_refl _)
    (by have := Nat.two_pow_pos (bucket x); omega)
  have hlt : t < bucket m := by
    by_contra hc
    obtain ⟨a, ha⟩ := (Nat.pow_dvd_pow 2 (Nat.le_of_not_lt hc)).trans (hj.bucket ▸ bucket_dvd hj.lt)
    obtain ⟨c, hcm⟩ := bucket_dvd hm
    have hjm := hj.ge
    have hca : c < a := by
      by_contra hn
      have := Nat.mul_le_mul_left (2 ^ bucket m) (Nat.le_of_not_lt hn)
      omega
    have := Nat.mul_le_mul_left (2 ^ bucket m) hca
    rw [Nat.mul_succ] at this
    omega
  have hs := hchk t hlt (j, f j) ((hH.slot_iff t _).2 ⟨hj, rfl⟩)
  rw [deriveSecret_block H hlt.le (hj.bucket ▸ bucket_dvd hj.lt) hjx hxj, hs]
  exact hH.derives t j hj x hjx hxj

/-- An accepted insertion at the next lower index keeps the invariant. -/
theorem Holds.insert {H : Bytes32 → Bytes32} {st st' : SecretStore} {m : Nat}
    {f : Nat → Bytes32} (hH : Holds H st (m + 1) f) (hm : m < 2 ^ 48)
    (h : st.insert H m (f m) = .ok st') : Holds H st' m f := by
  obtain ⟨hb, rfl, -⟩ := insert_ok h
  constructor
  · intro t e
    rw [slot_set, isFirst_pred hm]
    split
    · obtain ⟨e1, e2⟩ := e
      simp only [Option.some.injEq, Prod.mk.injEq]
      constructor
      · rintro ⟨rfl, rfl⟩; exact ⟨rfl, rfl⟩
      · rintro ⟨rfl, rfl⟩; exact ⟨rfl, rfl⟩
    · exact hH.slot_iff t e
  · intro t j hj x h1 h2
    rw [isFirst_pred hm] at hj
    split at hj
    · next ht =>
      subst hj ht
      rcases Nat.eq_or_lt_of_le h1 with rfl | hlt
      · have hd := testBit_block (bucket_dvd hm) (Nat.le_refl _) h2
        exact deriveSecret_zeros H hd.2
      · exact insert_derives hH hm h hlt h2
    · exact hH.derives t j hj x h1 h2

/-! ## What the store answers -/

theorem and_mask {b i : Nat} (hb : b < 48) (hi : i < 2 ^ 64) :
    i &&& SecretStore.mask b = i / 2 ^ b * 2 ^ b := by
  have hmask : SecretStore.mask b = (2 ^ (64 - b) - 1) * 2 ^ b := by
    have hpow : 2 ^ 64 = 2 ^ (64 - b) * 2 ^ b := by
      rw [← Nat.pow_add]; congr 1; omega
    rw [SecretStore.mask, if_neg (by omega), Nat.one_shiftLeft, Nat.sub_mul, ← hpow]
    have := Nat.two_pow_pos b
    omega
  apply Nat.eq_of_testBit_eq
  intro k
  rw [Nat.testBit_and, hmask, Nat.testBit_mul_two_pow, Nat.testBit_mul_two_pow,
    Nat.testBit_two_pow_sub_one, Nat.testBit_div_two_pow]
  by_cases hk : b ≤ k
  · rw [Nat.sub_add_cancel hk]
    by_cases hk' : k < 64
    · simp [hk]; omega
    · rw [Nat.testBit_lt_two_pow (hi.trans_le (Nat.pow_le_pow_right (by decide) (by omega)))]
      simp
  · simp [hk]

/-- The test of `secret_for` on an occupied bucket: `x` is in the block of the stored index. -/
theorem covers_iff {m t j x : Nat} (hj : IsFirst m t j) (hx : x < 2 ^ 48) :
    (x &&& SecretStore.mask t = j &&& SecretStore.mask t ∧ j ≤ x) ↔ j ≤ x ∧ x < j + 2 ^ t := by
  have ht : t < 49 := hj.bucket ▸ bucket_lt hj.lt
  have hjlt := hj.lt
  obtain ⟨c, hc⟩ : 2 ^ t ∣ j := hj.bucket ▸ bucket_dvd hj.lt
  rcases Nat.eq_or_lt_of_le (Nat.le_of_lt_succ ht) with rfl | ht
  · have h0 : j = 0 := by
      by_contra h0
      have := bucket_lt_of_ne hj.lt h0
      rw [hj.bucket] at this
      omega
    subst h0
    simp only [SecretStore.mask, if_true, Nat.and_zero, true_and]
    omega
  · rw [and_mask ht (by omega), and_mask ht (by omega), hc,
      Nat.mul_div_cancel_left _ (Nat.two_pow_pos t)]
    have hdm := Nat.div_add_mod x (2 ^ t)
    have hml := Nat.mod_lt x (Nat.two_pow_pos t)
    constructor
    · rintro ⟨he, hle⟩
      have he' : 2 ^ t * (x / 2 ^ t) = 2 ^ t * c := by
        rw [Nat.mul_comm, he, Nat.mul_comm]
      exact ⟨hle, by omega⟩
    · rintro ⟨h1, h2⟩
      have hq : x / 2 ^ t = c :=
        Nat.div_eq_of_lt_le (by rw [Nat.mul_comm]; exact h1)
          (by rw [Nat.add_mul, Nat.mul_comm c]; omega)
      exact ⟨by rw [hq], h1⟩

section
variable {H : Bytes32 → Bytes32} {st : SecretStore} {m : Nat} {f : Nat → Bytes32}

/-- Every inserted index is answered with its secret. -/
theorem Holds.secretFor (h : Holds H st m f) {x : Nat} (hm : m ≤ x) (hx : x < 2 ^ 48) :
    st.secretFor H x = some (f x) := by
  obtain ⟨t, j, hj, hjx, hxj⟩ := cover hm hx (Nat.le_refl _)
    (by have := Nat.two_pow_pos (bucket x); omega)
  have hslot : st.slot t = some (j, f j) := (h.slot_iff t _).2 ⟨hj, rfl⟩
  unfold SecretStore.secretFor
  -- every bucket that passes the test gives `f x`, and bucket `t` does
  cases hfind : (List.range 49).findSome? _ with
  | some y =>
    obtain ⟨b, -, hy⟩ := List.exists_of_findSome?_eq_some hfind
    split at hy
    · next i s hs =>
      obtain ⟨hi, hsec⟩ := (h.slot_iff b _).1 hs
      simp only at hi hsec
      split at hy
      · next hc =>
        obtain ⟨h1, h2⟩ := (covers_iff hi hx).1 hc
        rw [hsec, h.derives b i hi x h1 h2] at hy
        exact hy.symm
      · cases hy
    · cases hy
  | none =>
    have hnone := List.findSome?_eq_none_iff.1 hfind t
      (List.mem_range.2 (hj.bucket ▸ bucket_lt hj.lt))
    simp only [hslot] at hnone
    rw [if_pos ((covers_iff hj hx).2 ⟨hjx, hxj⟩)] at hnone
    cases hnone

/-- No index below the last inserted one is answered. -/
theorem Holds.secretFor_lt (h : Holds H st m f) {x : Nat} (hx : x < m) :
    st.secretFor H x = none := by
  refine List.findSome?_eq_none_iff.2 fun b _ => ?_
  split
  · next i s hs =>
    have := ((h.slot_iff b _).1 hs).1.ge
    rw [if_neg (by simp only at this; omega)]
  · rfl

end

/-! ## Persistence -/

theorem slot_put (st : SecretStore) (e : Nat × Bytes32) (t : Nat) :
    (st.put e).slot t = if bucket e.1 = t ∧ t < 49 then some e else st.slot t := by
  simp only [SecretStore.slot, SecretStore.put, Vector.getElem?_setIfInBounds]
  by_cases h : bucket e.1 = t
  · by_cases ht : t < 49 <;> simp [h, ht]
  · simp [h]

/-- Reading entries back fills the bucket of each of them, if no two share a bucket. -/
theorem slot_foldl_put (es : List (Nat × Bytes32)) (st : SecretStore) {t : Nat} (ht : t < 49)
    (hu : ∀ e ∈ es, ∀ e' ∈ es, bucket e.1 = bucket e'.1 → e = e') :
    (es.foldl SecretStore.put st).slot t =
      ((es.find? fun e => bucket e.1 = t).map some).getD (st.slot t) := by
  induction es generalizing st with
  | nil => rfl
  | cons e es ih =>
    have hu' : ∀ a ∈ es, ∀ b ∈ es, bucket a.1 = bucket b.1 → a = b := fun a ha b hb =>
      hu a (List.mem_cons_of_mem _ ha) b (List.mem_cons_of_mem _ hb)
    rw [List.foldl_cons, ih _ hu', slot_put, List.find?_cons]
    by_cases he : bucket e.1 = t
    · simp only [he, ht, and_self, if_true, decide_true, Option.map_some, Option.getD_some]
      cases hfind : es.find? fun e => bucket e.1 = t with
      | none => rfl
      | some e' =>
        have hb := List.find?_some hfind
        have hm := List.mem_of_find?_eq_some hfind
        simp only [decide_eq_true_eq] at hb
        rw [hu e (List.mem_cons_self ..) e' (List.mem_cons_of_mem _ hm) (by rw [he, hb])]
        rfl
    · simp only [he, false_and, if_false, decide_false]

theorem mem_entries {st : SecretStore} {e : Nat × Bytes32} :
    e ∈ st.entries ↔ ∃ t, st.slot t = some e := by
  simp only [SecretStore.entries, List.mem_filterMap, id_eq, exists_eq_right,
    Vector.mem_toList_iff, SecretStore.slot, Option.join_eq_some_iff]
  rw [Vector.mem_iff_getElem?]

theorem ext_slot {st st' : SecretStore} (h : ∀ t < 49, st.slot t = st'.slot t) : st = st' := by
  obtain ⟨k⟩ := st
  obtain ⟨k'⟩ := st'
  congr 1
  apply Vector.ext
  intro t ht
  have := h t ht
  simpa [SecretStore.slot, ht] using this

/-- Entries that sit in the bucket of their index survive persistence. -/
theorem fromEntries_entries {st : SecretStore}
    (hst : ∀ t e, st.slot t = some e → bucket e.1 = t) :
    SecretStore.fromEntries st.entries = st := by
  apply ext_slot
  intro t ht
  have hu : ∀ e ∈ st.entries, ∀ e' ∈ st.entries, bucket e.1 = bucket e'.1 → e = e' := by
    intro e he e' he' hb
    obtain ⟨a, ha⟩ := mem_entries.1 he
    obtain ⟨b, hb'⟩ := mem_entries.1 he'
    rw [hst a e ha, hst b e' hb'] at hb
    subst hb
    exact Option.some.inj (ha.symm.trans hb')
  rw [SecretStore.fromEntries, slot_foldl_put _ _ ht hu, slot_new]
  cases hfind : st.entries.find? fun e => bucket e.1 = t with
  | none =>
    cases hs : st.slot t with
    | none => rfl
    | some e =>
      have := List.find?_eq_none.1 hfind e (mem_entries.2 ⟨t, hs⟩)
      simp [hst t e hs] at this
  | some e =>
    have hb := List.find?_some hfind
    simp only [decide_eq_true_eq] at hb
    obtain ⟨a, ha⟩ := mem_entries.1 (List.mem_of_find?_eq_some hfind)
    rw [hst a e ha] at hb
    subst hb
    exact ha.symm

/-! ## Whole insertion sequences -/

/-- Insert the secrets `ss` at the indices of the commitments `i`, `i + 1`, ... -/
def insertFrom (H : Bytes32 → Bytes32) (st : SecretStore) (i : Nat) :
    List Bytes32 → Except (Fault InsertError) SecretStore
  | [] => .ok st
  | s :: ss => (st.insert H (maxIndex - i) s).bind fun st => insertFrom H st (i + 1) ss

/-- The secret of index `x`, when `all` are the secrets of `maxIndex`, `maxIndex - 1`, ... -/
def secretAt (all : List Bytes32) (x : Nat) : Bytes32 :=
  all.getD (maxIndex - x) (Vector.replicate 32 0)

theorem insertFrom_holds {H : Bytes32 → Bytes32} (all ss : List Bytes32) :
    ∀ {st st' : SecretStore} (i : Nat), i + ss.length ≤ 2 ^ 48 → all.drop i = ss →
      Holds H st (2 ^ 48 - i) (secretAt all) → insertFrom H st i ss = .ok st' →
      Holds H st' (2 ^ 48 - (i + ss.length)) (secretAt all) := by
  induction ss with
  | nil =>
    intro st st' i _ _ hH h
    obtain rfl : st = st' := by simpa [insertFrom] using h
    simpa using hH
  | cons s ss ih =>
    intro st st' i hlen hall hH h
    simp only [List.length_cons] at hlen
    have hget : all[i]? = some s := by
      have := congrArg (·[0]?) hall
      simpa using this
    have hmax : maxIndex = 2 ^ 48 - 1 := rfl
    unfold insertFrom at h
    cases hins : st.insert H (maxIndex - i) s with
    | error e => rw [hins] at h; cases h
    | ok st1 =>
      rw [hins] at h
      have hsec : secretAt all (maxIndex - i) = s := by
        rw [secretAt, show maxIndex - (maxIndex - i) = i by omega, List.getD_eq_getElem?_getD, hget]
        rfl
      have hH1 : Holds H st1 (maxIndex - i) (secretAt all) := by
        refine Holds.insert ?_ (by omega) (by rw [hsec]; exact hins)
        rw [show maxIndex - i + 1 = 2 ^ 48 - i by omega]
        exact hH
      have := ih (i + 1) (by omega)
        (by rw [← List.drop_drop, hall]; rfl)
        (by rw [show 2 ^ 48 - (i + 1) = maxIndex - i by omega]; exact hH1) h
      rwa [show i + (s :: ss).length = i + 1 + ss.length by simp; omega]

/-- **The store is sound.** If the secrets `ss` are accepted at the indices of the commitments
0, 1, ..., the store answers each of these indices with its secret and no lower one, and so does
the store read back from its entries. -/
theorem secretFor_insertFrom {H : Bytes32 → Bytes32} {ss : List Bytes32} {st : SecretStore}
    (hlen : ss.length ≤ 2 ^ 48) (h : insertFrom H SecretStore.new 0 ss = .ok st) :
    (∀ i s, ss[i]? = some s → st.secretFor H (maxIndex - i) = some s) ∧
    (∀ x, x + ss.length < 2 ^ 48 → st.secretFor H x = none) ∧
    SecretStore.fromEntries st.entries = st := by
  have hH := insertFrom_holds ss ss 0 (by simpa using hlen) rfl
    (holds_new H _) h
  have hmax : maxIndex = 2 ^ 48 - 1 := rfl
  refine ⟨fun i s hi => ?_, fun x hx => hH.secretFor_lt (by omega), ?_⟩
  · have hil := (List.getElem?_eq_some_iff.1 hi).1
    rw [hH.secretFor (by omega) (by omega), secretAt,
      show maxIndex - (maxIndex - i) = i by omega, List.getD_eq_getElem?_getD, hi]
    rfl
  · exact fromEntries_entries fun t e he => ((hH.slot_iff t e).1 he).1.bucket

/-- With the identity for the hash, the secrets of commitments 0 and 1 are one flipped bit
apart. -/
theorem secretFor_insertFrom_pair :
    let z : Bytes32 := Vector.replicate 32 0
    ∃ st, insertFrom id SecretStore.new 0 [flipBit z 0, z] = .ok st ∧
      st.secretFor id maxIndex = some (flipBit z 0) ∧ st.secretFor id (maxIndex - 1) = some z ∧
      st.secretFor id (maxIndex - 2) = none := by
  intro z
  have hok : (insertFrom id SecretStore.new 0 [flipBit z 0, z]).isOk = true := by decide +kernel
  cases hst : insertFrom id SecretStore.new 0 [flipBit z 0, z] with
  | error e => rw [hst] at hok; cases hok
  | ok st =>
    have h := secretFor_insertFrom (by simp) hst
    exact ⟨st, rfl, h.1 0 _ rfl, h.1 1 _ rfl, h.2.1 _ (by decide)⟩

end Shachain
