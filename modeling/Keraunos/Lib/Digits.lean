import Keraunos.Lib.Bytes

/-!
# Digit strings

A byte string read as digits in base `B`, most significant first. Digit strings of one length are
determined by their value (`val_inj`), and so are those of any length that do not start with a zero
(`val_inj_of_head`).
-/

namespace Digits

/-- The value of a digit string. -/
def val (B : Nat) (l : List UInt8) : Nat := l.foldl (fun acc d => acc * B + d.toNat) 0

/-- Every digit is below the base. -/
def Valid (B : Nat) (l : List UInt8) : Prop := ∀ d ∈ l, d.toNat < B

variable {B : Nat} {l m : List UInt8} {d : UInt8}

theorem valid_append : Valid B (l ++ m) ↔ Valid B l ∧ Valid B m := List.forall_mem_append

theorem valid_cons : Valid B (d :: l) ↔ d.toNat < B ∧ Valid B l := List.forall_mem_cons

@[simp] theorem valid_nil : Valid B [] := fun _ h => nomatch h

/-- Bytes are digits in base 256. -/
theorem valid_byte (l : List UInt8) : Valid (2 ^ 8) l := fun d _ => d.toNat_lt

@[simp] theorem val_nil : val B [] = 0 := rfl

theorem foldl_val (B : Nat) (l : List UInt8) (acc : Nat) :
    l.foldl (fun acc d => acc * B + d.toNat) acc = acc * B ^ l.length + val B l := by
  induction l generalizing acc with
  | nil => simp
  | cons d l ih =>
    rw [val, List.foldl_cons, List.foldl_cons, ih, ih, List.length_cons]
    ring

theorem val_append (B : Nat) (l m : List UInt8) :
    val B (l ++ m) = val B l * B ^ m.length + val B m := by
  rw [val, List.foldl_append, foldl_val]
  rfl

theorem val_cons (B : Nat) (d : UInt8) (l : List UInt8) :
    val B (d :: l) = d.toNat * B ^ l.length + val B l := by
  rw [← List.singleton_append, val_append]
  simp [val]

theorem val_concat (B : Nat) (l : List UInt8) (d : UInt8) : val B (l ++ [d]) = val B l * B + d.toNat := by
  rw [val_append, List.length_singleton, Nat.pow_one]
  simp [val]

theorem val_lt (h : Valid B l) : val B l < B ^ l.length := by
  induction l with
  | nil => exact Nat.one_pos
  | cons d l ih =>
    obtain ⟨hd, hl⟩ := valid_cons.1 h
    have hmul : (d.toNat + 1) * B ^ l.length ≤ B * B ^ l.length := Nat.mul_le_mul_right _ hd
    have hrest := ih hl
    rw [val_cons, List.length_cons, Nat.pow_succ']
    rw [Nat.add_mul, Nat.one_mul] at hmul
    omega

/-- Digit strings of one length are determined by their value. -/
theorem val_inj (hl : Valid B l) (hm : Valid B m) (hlen : l.length = m.length)
    (hval : val B l = val B m) : l = m := by
  induction l generalizing m with
  | nil =>
    cases m with
    | nil => rfl
    | cons => cases hlen
  | cons d l ih =>
    cases m with
    | nil => cases hlen
    | cons e m =>
      have hlen' : l.length = m.length := Nat.succ.inj hlen
      obtain ⟨hd, hl⟩ := valid_cons.1 hl
      obtain ⟨he, hm⟩ := valid_cons.1 hm
      rw [val_cons, val_cons, hlen'] at hval
      have hlt : val B l < B ^ m.length := hlen' ▸ val_lt hl
      have hlt' := val_lt hm
      have hpos : 0 < B ^ m.length := Nat.lt_of_le_of_lt (Nat.zero_le _) hlt
      have hdiv := congrArg (· / B ^ m.length) hval
      have hmod := congrArg (· % B ^ m.length) hval
      simp only [Nat.mul_comm _ (B ^ m.length), Nat.mul_add_div hpos, Nat.mul_add_mod,
        Nat.div_eq_of_lt hlt, Nat.div_eq_of_lt hlt', Nat.mod_eq_of_lt hlt, Nat.mod_eq_of_lt hlt',
        Nat.add_zero] at hdiv hmod
      rw [UInt8.toNat_inj.1 hdiv, ih hl hm hlen' hmod]

/-- The bits of a value in groups of `w` bits are those of its groups. -/
theorem testBit_val {w i : Nat} (h : Valid (2 ^ w) l) (hi : i < w * l.length) :
    (val (2 ^ w) l).testBit i = (l.getD (l.length - 1 - i / w) 0).toNat.testBit (i % w) := by
  induction l with
  | nil => cases hi
  | cons d l ih =>
    have hw : 0 < w := Nat.pos_of_mul_pos_right (Nat.lt_of_le_of_lt (Nat.zero_le _) hi)
    obtain ⟨hd, hl⟩ := valid_cons.1 h
    have hlt : val (2 ^ w) l < 2 ^ (w * l.length) := by
      rw [Nat.pow_mul]
      exact val_lt hl
    rw [val_cons, ← Nat.pow_mul, Nat.mul_comm d.toNat, Nat.testBit_two_pow_mul_add _ hlt,
      List.length_cons]
    by_cases hlow : i < w * l.length
    · have hgroup : i / w < l.length := Nat.div_lt_of_lt_mul hlow
      rw [if_pos hlow, ih hl hlow, show l.length + 1 - 1 - i / w = l.length - 1 - i / w + 1 by omega,
        List.getD_cons_succ]
    · have hge : w * l.length ≤ i := Nat.not_lt.1 hlow
      have hgroup : i / w = l.length := by
        apply Nat.div_eq_of_lt_le
        · rwa [Nat.mul_comm]
        · rwa [Nat.mul_comm]
      have hrem : i % w = i - w * l.length := by
        rw [Nat.mod_eq_sub_mul_div, hgroup]
      rw [if_neg hlow, hgroup, hrem, show l.length + 1 - 1 - l.length = 0 by omega,
        List.getD_cons_zero]

/-! ## Leading zeros -/

/-- Without its leading zeros. -/
def strip (l : List UInt8) : List UInt8 := l.dropWhile (· = 0)

theorem val_strip (B : Nat) (l : List UInt8) : val B (strip l) = val B l := by
  induction l with
  | nil => rfl
  | cons d l ih =>
    unfold strip at ih ⊢
    by_cases hd : d = 0
    · simp [hd, ih, val_cons]
    · simp [hd]

theorem Valid.strip (h : Valid B l) : Valid B (strip l) :=
  fun d hd => h d ((List.dropWhile_sublist _).subset hd)

theorem head_strip (l : List UInt8) : (strip l).head? ≠ some 0 := by
  induction l with
  | nil => exact nofun
  | cons d l ih =>
    unfold strip at ih ⊢
    by_cases hd : d = 0
    · simpa [hd] using ih
    · simp [hd]

/-- A digit string that does not start with a zero is as short as its value allows. -/
theorem length_le_of_val_lt {n : Nat} (hl : Valid B l) (hhead : l.head? ≠ some 0)
    (hval : val B l < B ^ n) : l.length ≤ n := by
  cases l with
  | nil => exact Nat.zero_le _
  | cons d l =>
    have hd : d ≠ 0 := fun hd => hhead (by simp [hd])
    have hpos : 0 < d.toNat := Nat.pos_of_ne_zero fun h => hd (UInt8.toNat_inj.1 h)
    have hlow : B ^ l.length ≤ val B (d :: l) := by
      rw [val_cons]
      exact Nat.le_add_right_of_le (Nat.le_mul_of_pos_left _ hpos)
    have hB : 1 < B := Nat.lt_of_le_of_lt hpos (valid_cons.1 hl).1
    exact (Nat.pow_lt_pow_iff_right hB).1 (Nat.lt_of_le_of_lt hlow hval)

/-- Digit strings that do not start with a zero are determined by their value. -/
theorem val_inj_of_head (hl : Valid B l) (hm : Valid B m) (h₁ : l.head? ≠ some 0)
    (h₂ : m.head? ≠ some 0) (hval : val B l = val B m) : l = m :=
  val_inj hl hm (Nat.le_antisymm (length_le_of_val_lt hl h₁ (hval ▸ val_lt hm))
    (length_le_of_val_lt hm h₂ (hval ▸ val_lt hl))) hval

end Digits
