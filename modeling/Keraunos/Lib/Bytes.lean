import Mathlib.Data.List.Basic
import Mathlib.Tactic.Ring

/-!
# Byte strings

* `xorInto buf ks`: the keystream `ks` XORed into the front of `buf` (a `zip` loop: the bytes past
  the shorter of the two stay). It commutes with `++`, `take` and `drop` and is an involution.
* `beBytes w v`, `beVal l`: big-endian encoding of `v` in `w` bytes and its value; `toLeBytes` and
  `fromLeBytes` are the little-endian ones.
-/

namespace Bytes

theorem size_take {data : List UInt8} {n : Nat} (h : ¬ data.length < n) :
    (data.take n).toArray.size = n := by
  rw [List.size_toArray, List.length_take]
  omega

/-! ## XOR with a keystream -/

def xorInto : List UInt8 → List UInt8 → List UInt8
  | b :: bs, k :: ks => (b ^^^ k) :: xorInto bs ks
  | bs, [] => bs
  | [], _ => []

@[simp] theorem xorInto_nil (bs : List UInt8) : xorInto bs [] = bs := by cases bs <;> rfl

@[simp] theorem nil_xorInto (ks : List UInt8) : xorInto [] ks = [] := by cases ks <;> rfl

@[simp] theorem xorInto_cons (b k : UInt8) (bs ks : List UInt8) :
    xorInto (b :: bs) (k :: ks) = (b ^^^ k) :: xorInto bs ks := rfl

@[simp] theorem length_xorInto (bs ks : List UInt8) : (xorInto bs ks).length = bs.length := by
  induction bs generalizing ks with
  | nil => simp
  | cons b bs ih => cases ks <;> simp [ih]

theorem xorInto_append (as bs ks : List UInt8) :
    xorInto (as ++ bs) ks = xorInto as ks ++ xorInto bs (ks.drop as.length) := by
  induction as generalizing ks with
  | nil => simp
  | cons a as ih => cases ks <;> simp [ih]

@[simp] theorem xorInto_xorInto (bs ks : List UInt8) : xorInto (xorInto bs ks) ks = bs := by
  induction bs generalizing ks with
  | nil => simp
  | cons b bs ih =>
    cases ks with
    | nil => simp
    | cons k ks => rw [xorInto_cons, xorInto_cons, ih, UInt8.xor_assoc, UInt8.xor_self, UInt8.xor_zero]

theorem xorInto_take_of_le {bs ks : List UInt8} {n : Nat} (h : bs.length ≤ n) :
    xorInto bs (ks.take n) = xorInto bs ks := by
  induction bs generalizing ks n with
  | nil => simp
  | cons b bs ih =>
    obtain ⟨n, rfl⟩ : ∃ m, n = m + 1 := ⟨n - 1, by simp at h; omega⟩
    cases ks with
    | nil => simp
    | cons k ks => simp [ih (by simpa using h)]

theorem take_xorInto (bs ks : List UInt8) (n : Nat) :
    (xorInto bs ks).take n = xorInto (bs.take n) ks := by
  induction bs generalizing ks n with
  | nil => simp
  | cons b bs ih => cases n <;> cases ks <;> simp [ih]

theorem drop_xorInto (bs ks : List UInt8) (n : Nat) :
    (xorInto bs ks).drop n = xorInto (bs.drop n) (ks.drop n) := by
  induction bs generalizing ks n with
  | nil => simp
  | cons b bs ih => cases n <;> cases ks <;> simp [ih]

/-! ## Big-endian integers -/

def beBytes : Nat → Nat → List UInt8
  | 0, _ => []
  | w + 1, v => UInt8.ofNat (v / 256 ^ w) :: beBytes w v

def beVal (l : List UInt8) : Nat := l.foldl (fun acc b => acc * 256 + b.toNat) 0

@[simp] theorem length_beBytes (w v : Nat) : (beBytes w v).length = w := by
  induction w with
  | zero => rfl
  | succ w ih => simp [beBytes, ih]

private theorem foldl_beBytes (w v acc : Nat) :
    (beBytes w v).foldl (fun acc b => acc * 256 + b.toNat) acc = acc * 256 ^ w + v % 256 ^ w := by
  induction w generalizing acc with
  | zero => simp [beBytes, Nat.mod_one]
  | succ w ih =>
    rw [beBytes, List.foldl_cons, ih, Nat.mod_pow_succ]
    simp only [UInt8.toNat_ofNat']
    ring

theorem beVal_beBytes (w v : Nat) : beVal (beBytes w v) = v % 256 ^ w := by
  rw [beVal, foldl_beBytes, Nat.zero_mul, Nat.zero_add]

/-- Fixed-width integers are determined by their bytes. -/
theorem beBytes_inj {w a b : Nat} (h : beBytes w a = beBytes w b) : a % 256 ^ w = b % 256 ^ w := by
  rw [← beVal_beBytes, h, beVal_beBytes]

private theorem foldl_beVal (l : List UInt8) (acc : Nat) :
    l.foldl (fun acc b => acc * 256 + b.toNat) acc = acc * 256 ^ l.length + beVal l := by
  induction l generalizing acc with
  | nil => simp [beVal]
  | cons b l ih =>
    rw [beVal, List.foldl_cons, List.foldl_cons, ih, ih, List.length_cons]
    ring

theorem beVal_cons (b : UInt8) (l : List UInt8) :
    beVal (b :: l) = b.toNat * 256 ^ l.length + beVal l := by
  rw [beVal, List.foldl_cons, foldl_beVal, Nat.zero_mul, Nat.zero_add]

theorem beVal_lt (l : List UInt8) : beVal l < 256 ^ l.length := by
  induction l with
  | nil => exact Nat.one_pos
  | cons b l ih =>
    have hb : (b.toNat + 1) * 256 ^ l.length ≤ 256 * 256 ^ l.length :=
      Nat.mul_le_mul_right _ b.toNat_lt
    rw [beVal_cons, List.length_cons, Nat.pow_succ']
    rw [Nat.add_mul, Nat.one_mul] at hb
    omega

theorem beBytes_add_mul (w v k : Nat) : beBytes w (k * 256 ^ w + v) = beBytes w v := by
  induction w generalizing k v with
  | zero => rfl
  | succ w ih =>
    have hdiv : (k * 256 ^ (w + 1) + v) / 256 ^ w = k * 256 + v / 256 ^ w := by
      rw [Nat.pow_succ', ← Nat.mul_assoc, Nat.add_comm, Nat.add_mul_div_right _ _ (Nat.pow_pos (by decide)),
        Nat.add_comm]
    have hbyte : UInt8.ofNat (k * 256 + v / 256 ^ w) = UInt8.ofNat (v / 256 ^ w) := by
      apply UInt8.toNat_inj.1
      simp
    rw [beBytes, beBytes, hdiv, hbyte, Nat.pow_succ', ← Nat.mul_assoc, ih]

/-- Every byte string is the encoding of its value. -/
theorem beBytes_beVal (l : List UInt8) : beBytes l.length (beVal l) = l := by
  induction l with
  | nil => rfl
  | cons b l ih =>
    have hdiv : (b.toNat * 256 ^ l.length + beVal l) / 256 ^ l.length = b.toNat := by
      rw [Nat.add_comm, Nat.add_mul_div_right _ _ (Nat.pow_pos (by decide)),
        Nat.div_eq_of_lt (beVal_lt l), Nat.zero_add]
    rw [List.length_cons, beBytes, beVal_cons, hdiv, beBytes_add_mul, ih, UInt8.ofNat_toNat]

/-! ## Little-endian integers -/

def toLeBytes (w v : Nat) : List UInt8 := (beBytes w v).reverse

def fromLeBytes (l : List UInt8) : Nat := beVal l.reverse

@[simp] theorem length_toLeBytes (w v : Nat) : (toLeBytes w v).length = w := by simp [toLeBytes]

theorem fromLeBytes_lt (l : List UInt8) : fromLeBytes l < 256 ^ l.length := by
  rw [fromLeBytes, ← List.length_reverse]
  exact beVal_lt _

@[simp] theorem fromLeBytes_nil : fromLeBytes [] = 0 := rfl

theorem fromLeBytes_cons (b : UInt8) (l : List UInt8) :
    fromLeBytes (b :: l) = b.toNat + 256 * fromLeBytes l := by
  rw [fromLeBytes, List.reverse_cons, beVal, List.foldl_concat, fromLeBytes, beVal]
  ring

theorem fromLeBytes_append (l m : List UInt8) :
    fromLeBytes (l ++ m) = fromLeBytes l + 256 ^ l.length * fromLeBytes m := by
  induction l with
  | nil => simp
  | cons b l ih =>
    rw [List.cons_append, fromLeBytes_cons, fromLeBytes_cons, ih, List.length_cons]
    ring

theorem fromLeBytes_replicate_zero (n : Nat) : fromLeBytes (List.replicate n 0) = 0 := by
  induction n with
  | zero => rfl
  | succ n ih => rw [List.replicate_succ, fromLeBytes_cons, ih, UInt8.toNat_zero]

theorem fromLeBytes_split {l : List UInt8} {n : Nat} (h : n ≤ l.length) :
    fromLeBytes l = fromLeBytes (l.take n) + 256 ^ n * fromLeBytes (l.drop n) := by
  have happend := fromLeBytes_append (l.take n) (l.drop n)
  rwa [List.take_append_drop, List.length_take_of_le h] at happend

theorem fromLeBytes_take (l : List UInt8) (n : Nat) :
    fromLeBytes (l.take n) = fromLeBytes l % 256 ^ n := by
  by_cases hn : n ≤ l.length
  · have hlow := fromLeBytes_lt (l.take n)
    rw [List.length_take_of_le hn] at hlow
    rw [fromLeBytes_split hn, Nat.add_mul_mod_self_left, Nat.mod_eq_of_lt hlow]
  · have hlong : l.length ≤ n := Nat.le_of_not_le hn
    rw [List.take_of_length_le hlong, Nat.mod_eq_of_lt]
    exact Nat.lt_of_lt_of_le (fromLeBytes_lt l) (Nat.pow_le_pow_right (by decide) hlong)

theorem fromLeBytes_drop (l : List UInt8) (n : Nat) :
    fromLeBytes (l.drop n) = fromLeBytes l / 256 ^ n := by
  by_cases hn : n ≤ l.length
  · have hlow := fromLeBytes_lt (l.take n)
    rw [List.length_take_of_le hn] at hlow
    rw [fromLeBytes_split hn, Nat.add_mul_div_left _ _ (Nat.pow_pos (by decide)),
      Nat.div_eq_of_lt hlow, Nat.zero_add]
  · have hshort : l.length ≤ n := Nat.le_of_not_le hn
    rw [List.drop_of_length_le hshort, fromLeBytes_nil, Nat.div_eq_of_lt]
    exact Nat.lt_of_lt_of_le (fromLeBytes_lt l) (Nat.pow_le_pow_right (by decide) hshort)

/-- The low bytes come first. -/
theorem toLeBytes_add (a b v : Nat) :
    toLeBytes (a + b) v = toLeBytes a v ++ toLeBytes b (v / 256 ^ a) := by
  induction b with
  | zero => simp [toLeBytes, beBytes]
  | succ b ih =>
    rw [← Nat.add_assoc, toLeBytes, beBytes, List.reverse_cons, ← toLeBytes, ih, toLeBytes, toLeBytes,
      toLeBytes, beBytes, List.reverse_cons, List.append_assoc, Nat.pow_add, Nat.div_div_eq_div_mul]

/-- Only the bytes that are written matter. -/
theorem toLeBytes_mod (w v : Nat) : toLeBytes w (v % 256 ^ w) = toLeBytes w v := by
  rw [toLeBytes, toLeBytes]
  conv_rhs => rw [← Nat.div_add_mod v (256 ^ w), Nat.mul_comm, beBytes_add_mul]

end Bytes
