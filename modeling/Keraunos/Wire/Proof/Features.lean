import Keraunos.Wire.Word
import Mathlib.Data.List.GetD

/-!
# Unknown required features

A position fits a `u16` in the last 8192 bytes of a vector only. There both builds look for the first
offending bit (`scan_low`); a byte further to the front overflows its position (`scanByte_high`).
-/

namespace Features

/-- The bit at this position, counted from the last byte, is set. -/
def Has (f : Features) (bit : Nat) : Prop :=
  bit / 8 < f.length ∧ (f.getD (f.length - 1 - bit / 8) 0).toNat.testBit (bit % 8) = true

/-- A required feature that is set and not known. -/
def Offends (f : Features) (knownEvenBits : List Nat) (bit : Nat) : Prop :=
  bit % 2 = 0 ∧ f.Has bit ∧ bit ∉ knownEvenBits

instance (f : Features) (bit : Nat) : Decidable (f.Has bit) := inferInstanceAs (Decidable (_ ∧ _))

instance (f : Features) (knownEvenBits : List Nat) (bit : Nat) : Decidable (f.Offends knownEvenBits bit) :=
  inferInstanceAs (Decidable (_ ∧ _))

/-- The lowest offending position, or none. -/
def Lowest (f : Features) (knownEvenBits : List Nat) : Option Nat → Prop
  | some bit => f.Offends knownEvenBits bit ∧ ∀ low < bit, ¬ f.Offends knownEvenBits low
  | none => ∀ bit, ¬ f.Offends knownEvenBits bit

/-- Neither build overflows, and both return the lowest offending position. -/
def Detected (f : Features) (knownEvenBits : List Nat) : Prop :=
  ∀ m : Overflow, ∃ o, unknownRequiredBits16 (ε := Empty) m f knownEvenBits = .ok o ∧
    f.Lowest knownEvenBits o

variable {ε : Type} {m : Overflow} {f : Features} {known : List Nat}

/-! ## One byte -/

theorem and_two_pow_ne_zero_iff (n i : Nat) : n &&& 2 ^ i ≠ 0 ↔ n.testBit i = true := by
  constructor
  · intro h
    by_contra hbit
    refine h (Nat.eq_of_testBit_eq fun j => ?_)
    rw [Nat.testBit_and, Nat.testBit_two_pow, Nat.zero_testBit]
    by_cases hj : i = j
    · rw [← hj, Bool.eq_false_iff.2 hbit, Bool.false_and]
    · rw [decide_eq_false hj, Bool.and_false]
  · intro hbit h
    have hzero := congrArg (Nat.testBit · i) h
    simp [hbit] at hzero

theorem and_shift_iff (byte : UInt8) {i : Nat} (hi : i < 8) :
    byte &&& ((1 : UInt8) <<< UInt8.ofNat i) ≠ 0 ↔ byte.toNat.testBit i = true := by
  have hshift : ((1 : UInt8) <<< UInt8.ofNat i).toNat = 2 ^ i := by
    rw [UInt8.toNat_shiftLeft, UInt8.toNat_ofNat', Nat.mod_eq_of_lt (by omega : i < 2 ^ 8),
      Nat.mod_eq_of_lt hi, UInt8.toNat_one, Nat.shiftLeft_eq, Nat.one_mul]
    exact Nat.mod_eq_of_lt (Nat.pow_lt_pow_right (by decide) hi)
  have hand : (byte &&& ((1 : UInt8) <<< UInt8.ofNat i)).toNat = byte.toNat &&& 2 ^ i := by
    rw [UInt8.toNat_and, hshift]
  rw [ne_eq, ← UInt8.toNat_inj, hand, UInt8.toNat_zero]
  exact and_two_pow_ne_zero_iff byte.toNat i

theorem position_low {b i : Nat} (hb : b < 8192) (hi : i < 8) :
    (position16 m b i : Except (Fault ε) Nat) = .ok (8 * b + i) := by
  have hfirst : b % 2 ^ 16 * 8 = 8 * b := by omega
  have hword : (m.word16 (8 * b) : Except (Fault ε) Nat) = .ok (8 * b) := if_pos (by omega)
  rw [position16, hfirst, hword]
  exact if_pos (by omega)

theorem offends_iff {b i : Nat} (hb : b < f.length) (hi : i < 8) : f.Offends known (8 * b + i) ↔
    (8 * b + i) % 2 = 0 ∧
      f.getD (f.length - 1 - b) 0 &&& ((1 : UInt8) <<< UInt8.ofNat i) ≠ 0 ∧ 8 * b + i ∉ known := by
  have hdiv : (8 * b + i) / 8 = b := by omega
  have hmod : (8 * b + i) % 8 = i := by omega
  rw [Offends, Has, hdiv, hmod, and_shift_iff _ hi]
  simp [hb]

theorem scanBit_low {b i : Nat} (hb : b < 8192) (hlen : b < f.length) (hi : i < 8) :
    (scanBit16 m (f.getD (f.length - 1 - b) 0) known b i : Except (Fault ε) (Option Nat)) =
      .ok (if f.Offends known (8 * b + i) then some (8 * b + i) else none) := by
  rw [scanBit16, position_low hb hi]
  exact congrArg Except.ok (if_congr (offends_iff hlen hi).symm rfl rfl)

/-- A loop whose passes do not fail. -/
theorem findSomeM?_ok {α β : Type} {g : α → Except (Fault ε) (Option β)} {g' : α → Option β}
    {l : List α} (h : ∀ a ∈ l, g a = .ok (g' a)) : l.findSomeM? g = .ok (l.findSome? g') := by
  induction l with
  | nil => rfl
  | cons a l ih =>
    obtain ⟨ha, hl⟩ := List.forall_mem_cons.1 h
    rw [List.findSomeM?_cons, ha, List.findSome?_cons]
    cases g' a with
    | none => exact ih hl
    | some b => rfl

/-- In the last 8192 bytes nothing overflows. -/
theorem scanByte_low {b : Nat} (hb : b < 8192) (hlen : b < f.length) :
    (scanByte16 m (f.getD (f.length - 1 - b) 0) known b : Except (Fault ε) (Option Nat)) =
      .ok (((List.range 8).map (8 * b + ·)).find? fun bit => f.Offends known bit) := by
  rw [scanByte16, findSomeM?_ok fun i hi => scanBit_low hb hlen (List.mem_range.1 hi),
    List.find?_eq_findSome?_guard, List.findSome?_map]
  congr 2
  funext i
  simp [Option.guard]

/-! ## The vector -/

/-- Both builds look for the first offending bit of the last bytes. -/
theorem scan_low {n : Nat} (hn : n ≤ 8192) (hlen : n ≤ f.length) :
    ((List.range n).findSomeM? fun b => scanByte16 m (f.getD (f.length - 1 - b) 0) known b :
      Except (Fault ε) (Option Nat)) =
      .ok ((List.range (8 * n)).find? fun bit => f.Offends known bit) := by
  rw [findSomeM?_ok fun b hb => scanByte_low (Nat.lt_of_lt_of_le (List.mem_range.1 hb) hn)
    (Nat.lt_of_lt_of_le (List.mem_range.1 hb) hlen)]
  congr 1
  clear hn hlen
  induction n with
  | zero => rfl
  | succ n ih =>
    rw [List.range_succ (n := n), List.findSome?_append, ih, Nat.mul_succ, List.range_add,
      List.find?_append, List.findSome?_singleton]

/-- The first passes of a loop find something, or it goes on. -/
theorem findSomeM?_append {α β : Type} {g : α → Except (Fault ε) (Option β)} {l l' : List α}
    {o : Option β} (h : l.findSomeM? g = .ok o) :
    (l ++ l').findSomeM? g = o.elim (l'.findSomeM? g) fun b => .ok (some b) := by
  induction l with
  | nil =>
    obtain rfl := Except.ok.inj h
    rfl
  | cons a l ih =>
    rw [List.findSomeM?_cons] at h
    rw [List.cons_append, List.findSomeM?_cons]
    cases ha : g a with
    | error e =>
      rw [ha] at h
      cases h
    | ok r =>
      rw [ha] at h
      cases r with
      | none => exact ih h
      | some b =>
        obtain rfl := Except.ok.inj h
        rfl

/-- The byte before the last 8192 overflows its position. -/
theorem scanByte_high (byte : UInt8) :
    (scanByte16 .checked byte known 8192 : Except (Fault ε) (Option Nat)) = .error .panic := by
  have hposition : (position16 .checked 8192 0 : Except (Fault ε) Nat) = .error .panic := by
    have hword : (Overflow.checked.word16 (8192 % 2 ^ 16 * 8) : Except (Fault ε) Nat) =
        .error .panic := if_neg (by decide)
    rw [position16, hword]
    rfl
  have hbit : (scanBit16 .checked byte known 8192 0 : Except (Fault ε) (Option Nat)) =
      .error .panic := by
    rw [scanBit16, hposition]
    rfl
  rw [scanByte16, List.range_succ_eq_map, List.findSomeM?_cons, hbit]
  rfl

theorem range_split {a n : Nat} (hn : a < n) : ∃ l, List.range n = List.range a ++ a :: l := by
  obtain ⟨k, rfl⟩ := Nat.exists_eq_add_of_lt hn
  rw [Nat.add_assoc, List.range_add, List.range_succ_eq_map (n := k)]
  exact ⟨_, rfl⟩

/-- The lowest offending position of the last `8 * n` bits. -/
theorem lowest_of_find {n : Nat} {o : Option Nat}
    (h : ((List.range n).find? fun bit => f.Offends known bit) = o)
    (hall : o = none → ∀ bit, f.Offends known bit → bit < n) : f.Lowest known o := by
  cases o with
  | none =>
    intro bit hoff
    have hno := List.find?_range_eq_none.1 h bit (hall rfl bit hoff)
    simp [hoff] at hno
  | some bit =>
    obtain ⟨hoff, -, hlow⟩ := List.find?_range_eq_some.1 h
    exact ⟨of_decide_eq_true hoff, fun low hlt => by simpa using hlow low hlt⟩

/-- The lowest offending position is detected exactly if the vector has at most 8192 bytes, or some
offending position fits a `u16`. -/
theorem detected_iff (f : Features) (known : List Nat) :
    f.Detected known ↔ f.length ≤ 8192 ∨ ∃ bit < 2 ^ 16, f.Offends known bit := by
  have hbound : ∀ bit, f.Offends known bit → bit < 8 * f.length := by
    intro bit hoff
    have hlt := hoff.2.1.1
    omega
  by_cases hlen : f.length ≤ 8192
  · refine ⟨fun _ => .inl hlen, fun _ m => ⟨_, scan_low hlen le_rfl, ?_⟩⟩
    exact lowest_of_find rfl fun _ => hbound
  · have hlong := Nat.lt_of_not_le hlen
    obtain ⟨l, hrange⟩ := range_split hlong
    have hscan : ∀ m, unknownRequiredBits16 (ε := Empty) m f known =
        ((List.range (8 * 8192)).find? fun bit => f.Offends known bit).elim
          ((8192 :: l).findSomeM? fun b => scanByte16 m (f.getD (f.length - 1 - b) 0) known b)
          fun bit => .ok (some bit) := by
      intro m
      rw [unknownRequiredBits16, hrange, findSomeM?_append (scan_low le_rfl hlong.le)]
    cases hfound : (List.range (8 * 8192)).find? fun bit => f.Offends known bit with
    | some bit =>
      obtain ⟨hoff, hlt, -⟩ := List.find?_range_eq_some.1 hfound
      refine ⟨fun _ => .inr ⟨bit, List.mem_range.1 hlt, of_decide_eq_true hoff⟩, fun _ m => ?_⟩
      refine ⟨some bit, ?_, lowest_of_find hfound fun h => nomatch h⟩
      rw [hscan, hfound, Option.elim_some]
    | none =>
      constructor
      · intro hdetected
        obtain ⟨o, ho, -⟩ := hdetected .checked
        rw [hscan, hfound, Option.elim_none, List.findSomeM?_cons, scanByte_high] at ho
        cases ho
      · rintro (hle | ⟨bit, hlt, hoff⟩)
        · exact absurd hle hlen
        · have hno := List.find?_range_eq_none.1 hfound bit hlt
          simp [hoff] at hno

/-- A vector of 8193 bytes that sets one bit, in the byte to the front. -/
def overlong : Features := 1 :: List.replicate 8192 0

/-- Bit 65536 is set and not known; a checked build panics, and an unchecked one takes it for bit 0. -/
theorem overlong_not_detected :
    overlong.length = 8193 ∧ overlong.Offends knownEvenBits 65536 ∧
      unknownRequiredBits16 (ε := Empty) .checked overlong knownEvenBits = .error .panic ∧
      unknownRequiredBits16 (ε := Empty) .unchecked overlong knownEvenBits = .ok none ∧
      ¬ overlong.Detected knownEvenBits := by
  have hlen : overlong.length = 8193 := by
    rw [overlong, List.length_cons, List.length_replicate]
  have hoff : overlong.Offends knownEvenBits 65536 := by
    refine ⟨rfl, ⟨by rw [hlen]; decide, ?_⟩, by decide⟩
    rw [hlen]
    rfl
  have hclean : ∀ b < 8192, overlong.getD (overlong.length - 1 - b) 0 = 0 := by
    intro b hb
    obtain ⟨k, hk⟩ : ∃ k, overlong.length - 1 - b = k + 1 := ⟨8191 - b, by omega⟩
    rw [hk, overlong, List.getD_cons_succ]
    exact List.getD_replicate 0 (by omega)
  have hlow : ∀ bit < 8 * 8192, ¬ overlong.Offends knownEvenBits bit := by
    intro bit hlt hbit
    have hset := hbit.2.1.2
    rw [hclean _ (by omega)] at hset
    simp at hset
  have hfound : ((List.range (8 * 8192)).find? fun bit => overlong.Offends knownEvenBits bit) = none :=
    List.find?_range_eq_none.2 fun bit hlt => by simp [hlow bit hlt]
  have hscan : ∀ m, unknownRequiredBits16 (ε := Empty) m overlong knownEvenBits =
      [8192].findSomeM? fun b =>
        scanByte16 m (overlong.getD (overlong.length - 1 - b) 0) knownEvenBits b := by
    intro m
    rw [unknownRequiredBits16, hlen, List.range_succ (n := 8192), ← hlen,
      findSomeM?_append (scan_low le_rfl (by omega)), hfound, Option.elim_none]
  have hchecked : unknownRequiredBits16 (ε := Empty) .checked overlong knownEvenBits =
      .error .panic := by
    rw [hscan, List.findSomeM?_cons, scanByte_high]
    rfl
  have hfirst : (overlong.getD (overlong.length - 1 - 8192) 0) = 1 := by
    rw [hlen]
    rfl
  refine ⟨hlen, hoff, hchecked, ?_, fun hdetected => ?_⟩
  · rw [hscan, List.findSomeM?_cons, hfirst]
    decide +kernel
  · obtain ⟨o, ho, -⟩ := hdetected .checked
    rw [hchecked] at ho
    cases ho

end Features
