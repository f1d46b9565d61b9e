import Keraunos.Crypto.Poly1305
import Mathlib.Data.Nat.ModEq

/-!
# Poly1305 computes its polynomial

The limbs of `h` stand for `val h`. Between blocks they are partially reduced (`Reduced`): all below
`2 ^ 26`, except that limb 1 may be up to 63 above. From there every product, sum and carry of a block
fits into its word, in a checked and in an unchecked build, and the block multiplies the value by `r`
modulo `p = 2 ^ 130 - 5` (`block_spec`). At the end limb 1 cannot overflow a second time
(`fullCarry_spec`), so the value is below `2 ^ 130 < 2 * p` and one conditional subtraction of `p`
reduces it (`select_minusP`).
-/

open Blocks Bytes

namespace Poly1305

variable {ε : Type} {m : Overflow}

/-! ## Limbs -/

def p : Nat := 2 ^ 130 - 5

/-- The number that the limbs stand for. -/
def Limbs.val (l : Limbs) : Nat :=
  l.l0 + 2 ^ 26 * l.l1 + 2 ^ 52 * l.l2 + 2 ^ 78 * l.l3 + 2 ^ 104 * l.l4

/-- All limbs are at most `bound`. -/
structure Limbs.Le (l : Limbs) (bound : Nat) : Prop where
  l0 : l.l0 ≤ bound
  l1 : l.l1 ≤ bound
  l2 : l.l2 ≤ bound
  l3 : l.l3 ≤ bound
  l4 : l.l4 ≤ bound

/-- What `h` is between two blocks. -/
structure Reduced (h : Limbs) : Prop where
  l0 : h.l0 < 2 ^ 26
  l1 : h.l1 < 2 ^ 26 + 64
  l2 : h.l2 < 2 ^ 26
  l3 : h.l3 < 2 ^ 26
  l4 : h.l4 < 2 ^ 26

theorem and_mask (x : Nat) : x &&& 0x03ffffff = x % 2 ^ 26 := Nat.and_two_pow_sub_one_eq_mod x 26

theorem shr_eq (x n : Nat) : x >>> n = x / 2 ^ n := Nat.shiftRight_eq_div_pow x n

theorem modEq_add_mul (x k : Nat) : x ≡ x + p * k [MOD p] := (Nat.add_mul_mod_self_left x p k).symm

/-! ## A block -/

/-- The limbs of the 16 bytes of a block. -/
theorem le_limbs {bytes : List UInt8} (hlen : bytes.length = 16) :
    le bytes 0 &&& 0x03ffffff = fromLeBytes bytes % 2 ^ 26 ∧
    le bytes 3 >>> 2 &&& 0x03ffffff = fromLeBytes bytes / 2 ^ 26 % 2 ^ 26 ∧
    le bytes 6 >>> 4 &&& 0x03ffffff = fromLeBytes bytes / 2 ^ 52 % 2 ^ 26 ∧
    le bytes 9 >>> 6 &&& 0x03ffffff = fromLeBytes bytes / 2 ^ 78 % 2 ^ 26 ∧
    le bytes 12 >>> 8 = fromLeBytes bytes / 2 ^ 104 := by
  have hlt : fromLeBytes bytes < 256 ^ 16 := hlen ▸ fromLeBytes_lt bytes
  simp only [le, fromLeBytes_take, fromLeBytes_drop, and_mask, shr_eq]
  generalize fromLeBytes bytes = v at hlt
  omega

/-- The bit above a block is above all of its bits. -/
theorem or_hibit {x hibit : Nat} (hx : x < 2 ^ 24) (hhibit : hibit = 0 ∨ hibit = 2 ^ 24) :
    x ||| hibit = x + hibit := by
  rcases hhibit with rfl | rfl
  · rw [Nat.or_zero, Nat.add_zero]
  · have hor := Nat.two_pow_add_eq_or_of_lt hx 1
    rw [Nat.mul_one] at hor
    rw [Nat.or_comm, ← hor, Nat.add_comm]

theorem addBlock_spec {h : Limbs} {bytes : List UInt8} {hibit : Nat} (hh : Reduced h)
    (hlen : bytes.length = 16) (hhibit : hibit = 0 ∨ hibit = 2 ^ 24) :
    ∃ a : Limbs, (addBlock m h bytes hibit : Except (Fault ε) Limbs) = .ok a ∧
      a.Le (2 ^ 27 + 62) ∧ a.val = h.val + fromLeBytes bytes + hibit * 2 ^ 104 := by
  obtain ⟨h0, h1, h2, h3, h4⟩ := hh
  obtain ⟨e0, e1, e2, e3, e4⟩ := le_limbs hlen
  have hlt : fromLeBytes bytes < 256 ^ 16 := hlen ▸ fromLeBytes_lt bytes
  have htop : fromLeBytes bytes / 2 ^ 104 < 2 ^ 24 := by omega
  have hsmall : hibit ≤ 2 ^ 24 := by omega
  rw [addBlock, e0, e1, e2, e3, e4, or_hibit htop hhibit]
  generalize fromLeBytes bytes = v at hlt htop
  rw [Overflow.add32_of_lt (by omega), Overflow.add32_of_lt (by omega),
    Overflow.add32_of_lt (by omega), Overflow.add32_of_lt (by omega), Overflow.add32_of_lt (by omega)]
  refine ⟨_, rfl, ⟨?_, ?_, ?_, ?_, ?_⟩, ?_⟩
  · dsimp only
    omega
  · dsimp only
    omega
  · dsimp only
    omega
  · dsimp only
    omega
  · dsimp only
    omega
  · dsimp only [Limbs.val]
    omega

/-- The exact value of `dot`. -/
def dotVal (a b : Limbs) : Nat :=
  a.l0 * b.l0 + a.l1 * b.l1 + a.l2 * b.l2 + a.l3 * b.l3 + a.l4 * b.l4

theorem dotVal_le {a b : Limbs} {x y : Nat} (ha : a.Le x) (hb : b.Le y) : dotVal a b ≤ 5 * (x * y) := by
  have h0 := Nat.mul_le_mul ha.l0 hb.l0
  have h1 := Nat.mul_le_mul ha.l1 hb.l1
  have h2 := Nat.mul_le_mul ha.l2 hb.l2
  have h3 := Nat.mul_le_mul ha.l3 hb.l3
  have h4 := Nat.mul_le_mul ha.l4 hb.l4
  rw [dotVal]
  omega

/-- Where the sum fits, so does everything before it. -/
theorem dot_eq {a b : Limbs} (h : dotVal a b < 2 ^ 64) :
    (dot m a b : Except (Fault ε) Nat) = .ok (dotVal a b) := by
  unfold dotVal at h
  have hm0 : a.l0 * b.l0 < 2 ^ 64 := by omega
  have hm1 : a.l1 * b.l1 < 2 ^ 64 := by omega
  have hm2 : a.l2 * b.l2 < 2 ^ 64 := by omega
  have hm3 : a.l3 * b.l3 < 2 ^ 64 := by omega
  have hm4 : a.l4 * b.l4 < 2 ^ 64 := by omega
  have hs1 : a.l0 * b.l0 + a.l1 * b.l1 < 2 ^ 64 := by omega
  have hs2 : a.l0 * b.l0 + a.l1 * b.l1 + a.l2 * b.l2 < 2 ^ 64 := by omega
  have hs3 : a.l0 * b.l0 + a.l1 * b.l1 + a.l2 * b.l2 + a.l3 * b.l3 < 2 ^ 64 := by omega
  simp only [dot, Overflow.mul_of_lt hm0, Overflow.mul_of_lt hm1, Overflow.mul_of_lt hm2,
    Overflow.mul_of_lt hm3, Overflow.mul_of_lt hm4, bind, Except.bind, Overflow.add_of_lt hs1,
    Overflow.add_of_lt hs2, Overflow.add_of_lt hs3, Overflow.add_of_lt h]
  rfl

/-- The rows of the product. -/
def product (r a : Limbs) : Limbs where
  l0 := dotVal a ⟨r.l0, r.l4 * 5, r.l3 * 5, r.l2 * 5, r.l1 * 5⟩
  l1 := dotVal a ⟨r.l1, r.l0, r.l4 * 5, r.l3 * 5, r.l2 * 5⟩
  l2 := dotVal a ⟨r.l2, r.l1, r.l0, r.l4 * 5, r.l3 * 5⟩
  l3 := dotVal a ⟨r.l3, r.l2, r.l1, r.l0, r.l4 * 5⟩
  l4 := dotVal a ⟨r.l4, r.l3, r.l2, r.l1, r.l0⟩

/-- A product of limbs whose weight is `2 ^ 130` or more counts five times at the weight below. -/
theorem product_val (r a : Limbs) : (product r a).val ≡ a.val * r.val [MOD p] := by
  have hfold : (product r a).val + p * (a.l1 * r.l4 + a.l2 * r.l3 + a.l3 * r.l2 + a.l4 * r.l1 +
      2 ^ 26 * (a.l2 * r.l4 + a.l3 * r.l3 + a.l4 * r.l2) + 2 ^ 52 * (a.l3 * r.l4 + a.l4 * r.l3) +
      2 ^ 78 * (a.l4 * r.l4)) = a.val * r.val := by
    simp only [Limbs.val, product, dotVal, show p = 1361129467683753853853498429727072845819 from rfl]
    ring
  rw [← hfold]
  exact modEq_add_mul _ _

/-- The rows fit, and the top one has no factor 5. -/
theorem product_le {r a : Limbs} (hr : r.Le (2 ^ 26 - 1)) (ha : a.Le (2 ^ 27 + 62)) :
    (product r a).Le (25 * ((2 ^ 27 + 62) * (2 ^ 26 - 1))) ∧
      (product r a).l4 ≤ 5 * ((2 ^ 27 + 62) * (2 ^ 26 - 1)) := by
  obtain ⟨r0, r1, r2, r3, r4⟩ := hr
  have hrow : ∀ b : Limbs, b.Le (5 * (2 ^ 26 - 1)) →
      dotVal a b ≤ 25 * ((2 ^ 27 + 62) * (2 ^ 26 - 1)) := by
    intro b hb
    have hdot := dotVal_le ha hb
    omega
  have htop : (product r a).l4 ≤ 5 * ((2 ^ 27 + 62) * (2 ^ 26 - 1)) :=
    dotVal_le ha ⟨r4, r3, r2, r1, r0⟩
  refine ⟨⟨hrow _ ?_, hrow _ ?_, hrow _ ?_, hrow _ ?_, ?_⟩, htop⟩
  · constructor <;> dsimp only <;> omega
  · constructor <;> dsimp only <;> omega
  · constructor <;> dsimp only <;> omega
  · constructor <;> dsimp only <;> omega
  · omega

theorem mulR_eq {r a : Limbs} (hr : r.Le (2 ^ 26 - 1)) (ha : a.Le (2 ^ 27 + 62)) :
    (mulR m r a : Except (Fault ε) Limbs) = .ok (product r a) := by
  obtain ⟨⟨b0, b1, b2, b3, b4⟩, -⟩ := product_le hr ha
  obtain ⟨r0, r1, r2, r3, r4⟩ := hr
  have hs1 : r.l1 * 5 < 2 ^ 32 := by omega
  have hs2 : r.l2 * 5 < 2 ^ 32 := by omega
  have hs3 : r.l3 * 5 < 2 ^ 32 := by omega
  have hs4 : r.l4 * 5 < 2 ^ 32 := by omega
  have hfit : ∀ {x : Nat}, x ≤ 25 * ((2 ^ 27 + 62) * (2 ^ 26 - 1)) → x < 2 ^ 64 :=
    fun h => Nat.lt_of_le_of_lt h (by decide)
  simp only [mulR, Overflow.mul32_of_lt hs1, Overflow.mul32_of_lt hs2, Overflow.mul32_of_lt hs3,
    Overflow.mul32_of_lt hs4, bind, Except.bind]
  rw [dot_eq (hfit b0)]
  dsimp only
  rw [dot_eq (hfit b1)]
  dsimp only
  rw [dot_eq (hfit b2)]
  dsimp only
  rw [dot_eq (hfit b3)]
  dsimp only
  rw [dot_eq (hfit b4)]
  rfl

/-- The carries fit, and what leaves the top limb comes back five times at the bottom. -/
theorem carry_spec {d : Limbs} (hd : d.Le (25 * ((2 ^ 27 + 62) * (2 ^ 26 - 1))))
    (htop : d.l4 ≤ 5 * ((2 ^ 27 + 62) * (2 ^ 26 - 1))) :
    ∃ h : Limbs, (carry m d : Except (Fault ε) Limbs) = .ok h ∧ Reduced h ∧ h.val ≡ d.val [MOD p] := by
  obtain ⟨d0, d1, d2, d3, d4⟩ := d
  obtain ⟨b0, b1, b2, b3, b4⟩ := hd
  dsimp only at b0 b1 b2 b3 b4 htop
  simp only [carry, bind, Except.bind, shr_eq, and_mask]
  rw [Overflow.add_of_lt (by omega)]
  dsimp only
  generalize he1 : d1 + d0 / 2 ^ 26 = e1
  rw [Overflow.add_of_lt (by omega)]
  dsimp only
  generalize he2 : d2 + e1 / 2 ^ 26 = e2
  rw [Overflow.add_of_lt (by omega)]
  dsimp only
  generalize he3 : d3 + e2 / 2 ^ 26 = e3
  rw [Overflow.add_of_lt (by omega)]
  dsimp only
  generalize he4 : d4 + e3 / 2 ^ 26 = e4
  have hc : e4 / 2 ^ 26 ≤ 5 * 2 ^ 27 + 400 := by omega
  have hlow : ∀ x, x % 2 ^ 26 % 2 ^ 32 = x % 2 ^ 26 := fun x => by omega
  rw [Nat.mod_eq_of_lt (show e4 / 2 ^ 26 < 2 ^ 32 by omega), hlow, hlow, hlow, hlow, hlow,
    Overflow.mul32_of_lt (by omega)]
  dsimp only
  rw [Overflow.add32_of_lt (by omega)]
  dsimp only
  rw [Overflow.add32_of_lt (by omega)]
  refine ⟨_, rfl, ⟨?_, ?_, ?_, ?_, ?_⟩, ?_⟩
  · dsimp only
    omega
  · dsimp only
    omega
  · dsimp only
    omega
  · dsimp only
    omega
  · dsimp only
    omega
  · have hval : Limbs.val ⟨d0, d1, d2, d3, d4⟩ = Limbs.val ⟨(d0 % 2 ^ 26 + e4 / 2 ^ 26 * 5) % 2 ^ 26,
        e1 % 2 ^ 26 + (d0 % 2 ^ 26 + e4 / 2 ^ 26 * 5) / 2 ^ 26, e2 % 2 ^ 26, e3 % 2 ^ 26,
        e4 % 2 ^ 26⟩ + p * (e4 / 2 ^ 26) := by
      simp only [Limbs.val, p]
      omega
    rw [hval]
    exact modEq_add_mul _ _

/-- A block adds its bytes and the bit above them, and multiplies by `r`. -/
theorem block_spec {r h : Limbs} {bytes : List UInt8} {hibit : Nat} (hr : r.Le (2 ^ 26 - 1))
    (hh : Reduced h) (hlen : bytes.length = 16) (hhibit : hibit = 0 ∨ hibit = 2 ^ 24) :
    ∃ h' : Limbs, (block m r h bytes hibit : Except (Fault ε) Limbs) = .ok h' ∧ Reduced h' ∧
      h'.val ≡ (h.val + (fromLeBytes bytes + hibit * 2 ^ 104)) * r.val [MOD p] := by
  obtain ⟨a, hadd, ha, hval⟩ := addBlock_spec (ε := ε) (m := m) hh hlen hhibit
  obtain ⟨hrows, htop⟩ := product_le hr ha
  obtain ⟨h', hcarry, hh', hmod⟩ := carry_spec (ε := ε) (m := m) hrows htop
  refine ⟨h', ?_, hh', ?_⟩
  · rw [block, hadd]
    show (mulR m r a >>= fun d => carry m d) = _
    rw [mulR_eq hr ha]
    exact hcarry
  · rw [← Nat.add_assoc, ← hval]
    exact hmod.trans (product_val r a)

/-! ## The tag -/

/-- Where limb 1 carries it has fewer than 64 left, so that the last carry fits into it. -/
theorem fullCarry_spec {h : Limbs} (hh : Reduced h) :
    ∃ h' : Limbs, (fullCarry m h : Except (Fault ε) Limbs) = .ok h' ∧ h'.Le (2 ^ 26 - 1) ∧
      h'.val ≡ h.val [MOD p] := by
  obtain ⟨h0, h1, h2, h3, h4⟩ := h
  obtain ⟨b0, b1, b2, b3, b4⟩ := hh
  dsimp only at b0 b1 b2 b3 b4
  simp only [fullCarry, bind, Except.bind, shr_eq, and_mask]
  rw [Overflow.add32_of_lt (by omega)]
  dsimp only
  generalize he2 : h2 + h1 / 2 ^ 26 = e2
  rw [Overflow.add32_of_lt (by omega)]
  dsimp only
  generalize he3 : h3 + e2 / 2 ^ 26 = e3
  rw [Overflow.add32_of_lt (by omega)]
  dsimp only
  generalize he4 : h4 + e3 / 2 ^ 26 = e4
  rw [Overflow.mul32_of_lt (by omega)]
  dsimp only
  rw [Overflow.add32_of_lt (by omega)]
  dsimp only
  rw [Overflow.add32_of_lt (by omega)]
  refine ⟨_, rfl, ⟨?_, ?_, ?_, ?_, ?_⟩, ?_⟩
  · dsimp only
    omega
  · dsimp only
    omega
  · dsimp only
    omega
  · dsimp only
    omega
  · dsimp only
    omega
  · have hval : Limbs.val ⟨h0, h1, h2, h3, h4⟩ = Limbs.val ⟨(h0 + e4 / 2 ^ 26 * 5) % 2 ^ 26,
        h1 % 2 ^ 26 + (h0 + e4 / 2 ^ 26 * 5) / 2 ^ 26, e2 % 2 ^ 26, e3 % 2 ^ 26, e4 % 2 ^ 26⟩ +
          p * (e4 / 2 ^ 26) := by
      simp only [Limbs.val, p]
      omega
    rw [hval]
    exact modEq_add_mul _ _

theorem mask_all {x : Nat} (h : x < 2 ^ 32) : x &&& 0xffffffff = x :=
  (Nat.and_two_pow_sub_one_eq_mod x 32).trans (Nat.mod_eq_of_lt h)

/-- The highest bit of the top limb selects `h`, its absence `g`. -/
theorem select_eq {h g : Limbs} (hh : h.Le (2 ^ 26 - 1)) (hg : g.Le (2 ^ 32 - 1)) :
    select h g = if 2 ^ 31 ≤ g.l4 then h else g := by
  obtain ⟨h0, h1, h2, h3, h4⟩ := h
  obtain ⟨g0, g1, g2, g3, g4⟩ := g
  obtain ⟨bh0, bh1, bh2, bh3, bh4⟩ := hh
  obtain ⟨bg0, bg1, bg2, bg3, bg4⟩ := hg
  dsimp only at bh0 bh1 bh2 bh3 bh4 bg0 bg1 bg2 bg3 bg4
  unfold select
  dsimp only
  by_cases htop : 2 ^ 31 ≤ g4
  · have hmask : wrappingSub (g4 >>> 31) 1 = 0 := by
      rw [wrappingSub, shr_eq]
      omega
    rw [hmask, if_pos htop]
    simp only [Nat.sub_zero, Nat.and_zero, Nat.or_zero, Limbs.mk.injEq]
    exact ⟨mask_all (by omega), mask_all (by omega), mask_all (by omega), mask_all (by omega),
      mask_all (by omega)⟩
  · have hmask : wrappingSub (g4 >>> 31) 1 = 0xffffffff := by
      rw [wrappingSub, shr_eq]
      omega
    rw [hmask, if_neg htop]
    simp only [Nat.sub_self, Nat.and_zero, Nat.zero_or, Limbs.mk.injEq]
    exact ⟨mask_all (by omega), mask_all (by omega), mask_all (by omega), mask_all (by omega),
      mask_all (by omega)⟩

/-- The limbs of `h + 5`, of which the top one is not cut. -/
theorem minusP_spec {h : Limbs} (hh : h.Le (2 ^ 26 - 1)) :
    ∃ e : Limbs, e.Le (2 ^ 26) ∧ e.l0 < 2 ^ 26 ∧ e.l1 < 2 ^ 26 ∧ e.l2 < 2 ^ 26 ∧ e.l3 < 2 ^ 26 ∧
      e.val = h.val + 5 ∧ minusP h = { e with l4 := (2 ^ 32 + e.l4 - 2 ^ 26) % 2 ^ 32 } := by
  obtain ⟨h0, h1, h2, h3, h4⟩ := h
  obtain ⟨b0, b1, b2, b3, b4⟩ := hh
  dsimp only at b0 b1 b2 b3 b4
  have hwrap : ∀ x, x < 2 ^ 32 → x % 2 ^ 32 = x := fun x hx => Nat.mod_eq_of_lt hx
  simp only [minusP, wrappingAdd, wrappingSub, shr_eq, and_mask]
  rw [hwrap (h0 + 5) (by omega)]
  generalize he0 : h0 + 5 = e0
  rw [hwrap (h1 + e0 / 2 ^ 26) (by omega)]
  generalize he1 : h1 + e0 / 2 ^ 26 = e1
  rw [hwrap (h2 + e1 / 2 ^ 26) (by omega)]
  generalize he2 : h2 + e1 / 2 ^ 26 = e2
  rw [hwrap (h3 + e2 / 2 ^ 26) (by omega)]
  generalize he3 : h3 + e2 / 2 ^ 26 = e3
  rw [hwrap (h4 + e3 / 2 ^ 26) (by omega)]
  generalize he4 : h4 + e3 / 2 ^ 26 = e4
  refine ⟨⟨e0 % 2 ^ 26, e1 % 2 ^ 26, e2 % 2 ^ 26, e3 % 2 ^ 26, e4⟩, ⟨?_, ?_, ?_, ?_, ?_⟩,
    Nat.mod_lt _ (by decide), Nat.mod_lt _ (by decide), Nat.mod_lt _ (by decide),
    Nat.mod_lt _ (by decide), ?_, rfl⟩
  · dsimp only
    omega
  · dsimp only
    omega
  · dsimp only
    omega
  · dsimp only
    omega
  · dsimp only
    omega
  · simp only [Limbs.val]
    omega

/-- One conditional subtraction reduces the value. -/
theorem select_minusP {h : Limbs} (hh : h.Le (2 ^ 26 - 1)) :
    (select h (minusP h)).Le (2 ^ 26 - 1) ∧ (select h (minusP h)).val = h.val % p := by
  obtain ⟨e, he, e0, e1, e2, e3, hval, hminus⟩ := minusP_spec hh
  have htop := he.l4
  have hsmall : h.val < 2 ^ 130 := by
    obtain ⟨b0, b1, b2, b3, b4⟩ := hh
    rw [Limbs.val]
    omega
  have hbound : (minusP h).Le (2 ^ 32 - 1) := by
    rw [hminus]
    constructor <;> dsimp only <;> omega
  have hp : p = 2 ^ 130 - 5 := rfl
  rw [select_eq hh hbound, hminus]
  dsimp only
  by_cases hcarry : 2 ^ 26 ≤ e.l4
  · -- `h + 5` has bit 130, so `h` is not less than `p`.
    rw [if_neg (by omega)]
    constructor
    · constructor <;> dsimp only <;> omega
    · generalize h.val = v at hval hsmall
      simp only [Limbs.val] at hval ⊢
      have hge : p ≤ v := by omega
      have hless : (v - p) % p = v - p := Nat.mod_eq_of_lt (by omega)
      rw [Nat.mod_eq_sub_mod hge, hless]
      omega
  · rw [if_pos (by omega)]
    refine ⟨hh, (Nat.mod_eq_of_lt ?_).symm⟩
    generalize h.val = v at hval
    rw [Limbs.val] at hval
    omega

/-- The number that the words of the pad stand for. -/
def padVal (pad : Nat × Nat × Nat × Nat) : Nat :=
  pad.1 + 2 ^ 32 * pad.2.1 + 2 ^ 64 * pad.2.2.1 + 2 ^ 96 * pad.2.2.2

/-- Two disjoint parts of a word. -/
theorem or_shl {a b n k : Nat} (ha : a < 2 ^ n) (hnk : n + k = 32) :
    a ||| shl b n = a + 2 ^ n * (b % 2 ^ k) := by
  have hshl : shl b n = 2 ^ n * (b % 2 ^ k) := by
    rw [shl, Nat.shiftLeft_eq, ← hnk, Nat.pow_add, Nat.mul_comm b, Nat.mul_mod_mul_left]
  rw [hshl, Nat.or_comm, ← Nat.two_pow_add_eq_or_of_lt ha, Nat.add_comm]

/-- A word is written, and its carry goes to the next one. -/
theorem toLeBytes_carry (w f rest : Nat) : toLeBytes (4 + w) (f + 2 ^ 32 * rest) =
    toLeBytes 4 (f % 2 ^ 32) ++ toLeBytes w (rest + f / 2 ^ 32) := by
  have hlow : toLeBytes 4 (f + 2 ^ 32 * rest) = toLeBytes 4 (f % 2 ^ 32) := by
    rw [← toLeBytes_mod, show 256 ^ 4 = 2 ^ 32 from rfl, Nat.add_mul_mod_self_left]
  have hhigh : (f + 2 ^ 32 * rest) / 256 ^ 4 = rest + f / 2 ^ 32 := by
    rw [show 256 ^ 4 = 2 ^ 32 from rfl, Nat.add_mul_div_left _ _ (by decide), Nat.add_comm]
  rw [toLeBytes_add, hlow, hhigh]

/-- The tag is the sum modulo `2 ^ 128`, little-endian. -/
theorem addPad_eq {h : Limbs} {pad : Nat × Nat × Nat × Nat} (hh : h.Le (2 ^ 26 - 1))
    (h0 : pad.1 < 2 ^ 32) (h1 : pad.2.1 < 2 ^ 32) (h2 : pad.2.2.1 < 2 ^ 32) (h3 : pad.2.2.2 < 2 ^ 32) :
    ∃ tag : Vector UInt8 16, (addPad m h pad : Except (Fault ε) (Vector UInt8 16)) = .ok tag ∧
      tag.toList = toLeBytes 16 (h.val + padVal pad) := by
  obtain ⟨l0, l1, l2, l3, l4⟩ := h
  obtain ⟨p0, p1, p2, p3⟩ := pad
  obtain ⟨b0, b1, b2, b3, b4⟩ := hh
  dsimp only at b0 b1 b2 b3 b4 h0 h1 h2 h3
  have e0 : l0 ||| shl l1 26 = l0 + 2 ^ 26 * (l1 % 2 ^ 6) := or_shl (by omega) rfl
  have e1 : l1 / 2 ^ 6 ||| shl l2 20 = l1 / 2 ^ 6 + 2 ^ 20 * (l2 % 2 ^ 12) := or_shl (by omega) rfl
  have e2 : l2 / 2 ^ 12 ||| shl l3 14 = l2 / 2 ^ 12 + 2 ^ 14 * (l3 % 2 ^ 18) := or_shl (by omega) rfl
  have e3 : l3 / 2 ^ 18 ||| shl l4 8 = l3 / 2 ^ 18 + 2 ^ 8 * (l4 % 2 ^ 24) := or_shl (by omega) rfl
  simp only [addPad, bind, Except.bind, shr_eq, e0, e1, e2, e3]
  generalize hw0 : l0 + 2 ^ 26 * (l1 % 2 ^ 6) = w0
  generalize hw1 : l1 / 2 ^ 6 + 2 ^ 20 * (l2 % 2 ^ 12) = w1
  generalize hw2 : l2 / 2 ^ 12 + 2 ^ 14 * (l3 % 2 ^ 18) = w2
  generalize hw3 : l3 / 2 ^ 18 + 2 ^ 8 * (l4 % 2 ^ 24) = w3
  -- The limbs and the words stand for one number.
  have hrepack : w0 + 2 ^ 32 * w1 + 2 ^ 64 * w2 + 2 ^ 96 * w3 =
      (Limbs.val ⟨l0, l1, l2, l3, l4⟩) % 2 ^ 128 := by
    simp only [Limbs.val]
    omega
  have hsum : toLeBytes 16 (Limbs.val ⟨l0, l1, l2, l3, l4⟩ + padVal (p0, p1, p2, p3)) =
      toLeBytes 16 (w0 + 2 ^ 32 * w1 + 2 ^ 64 * w2 + 2 ^ 96 * w3 + padVal (p0, p1, p2, p3)) := by
    rw [hrepack, ← toLeBytes_mod 16 (_ % _ + _), show 256 ^ 16 = 2 ^ 128 from rfl, Nat.mod_add_mod,
      ← show 256 ^ 16 = 2 ^ 128 from rfl, toLeBytes_mod]
  have hwords : w0 + 2 ^ 32 * w1 + 2 ^ 64 * w2 + 2 ^ 96 * w3 + padVal (p0, p1, p2, p3) =
      w0 + p0 + 2 ^ 32 * (w1 + p1 + 2 ^ 32 * (w2 + p2 + 2 ^ 32 * (w3 + p3))) := by
    rw [padVal]
    ring
  have hcarry : ∀ a b c : Nat, a + 2 ^ 32 * b + c = a + c + 2 ^ 32 * b := fun a b c => by omega
  rw [hsum, hwords, toLeBytes_carry 12, hcarry, toLeBytes_carry 8, hcarry, toLeBytes_carry 4,
    ← toLeBytes_mod 4 (w3 + _ + _)]
  rw [Overflow.add_of_lt (by omega)]
  dsimp only
  rw [Overflow.add_of_lt (by omega)]
  dsimp only
  rw [Overflow.add_of_lt (by omega)]
  dsimp only
  rw [Overflow.add_of_lt (by omega)]
  dsimp only
  rw [Overflow.add_of_lt (by omega)]
  dsimp only
  rw [Overflow.add_of_lt (by omega)]
  dsimp only
  rw [Overflow.add_of_lt (by omega)]
  refine ⟨_, rfl, ?_⟩
  simp only [Vector.toList_mk, List.append_assoc]
  rfl

/-! ## The clamped key -/

/-- The bits of `r` that the clamping keeps. -/
def clampMask : Nat := 0x0ffffffc0ffffffc0ffffffc0fffffff

theorem and_split (x y k : Nat) :
    x &&& y = (x % 2 ^ k &&& y % 2 ^ k) + 2 ^ k * (x / 2 ^ k &&& y / 2 ^ k) := by
  rw [← Nat.and_mod_two_pow, ← Nat.and_div_two_pow, Nat.mod_add_div]

/-- Only the bits under the mask matter. -/
theorem and_eq_mod_and {x y k : Nat} (hy : y < 2 ^ k) : x &&& y = x % 2 ^ k &&& y := by
  have hmod := Nat.and_mod_two_pow (a := x) (b := y) (n := k)
  rwa [Nat.mod_eq_of_lt (Nat.lt_of_le_of_lt Nat.and_le_right hy), Nat.mod_eq_of_lt hy] at hmod

/-- The masks of the limbs are the limbs of the mask. -/
theorem clamped_val (key : List UInt8) :
    (clamped key).val = fromLeBytes (key.take 16) &&& clampMask := by
  simp only [clamped, Limbs.val, le, fromLeBytes_take, fromLeBytes_drop, shr_eq]
  generalize fromLeBytes key = v
  have h0 : v / 256 ^ 0 % 256 ^ 4 % 2 ^ 26 = v % 256 ^ 16 % 2 ^ 26 := by omega
  have h1 : v / 256 ^ 3 % 256 ^ 4 / 2 ^ 2 % 2 ^ 26 = v % 256 ^ 16 / 2 ^ 26 % 2 ^ 26 := by omega
  have h2 : v / 256 ^ 6 % 256 ^ 4 / 2 ^ 4 % 2 ^ 26 = v % 256 ^ 16 / 2 ^ 26 / 2 ^ 26 % 2 ^ 26 := by
    omega
  have h3 : v / 256 ^ 9 % 256 ^ 4 / 2 ^ 6 % 2 ^ 26 =
      v % 256 ^ 16 / 2 ^ 26 / 2 ^ 26 / 2 ^ 26 % 2 ^ 26 := by omega
  have h4 : v / 256 ^ 12 % 256 ^ 4 / 2 ^ 8 % 2 ^ 26 =
      v % 256 ^ 16 / 2 ^ 26 / 2 ^ 26 / 2 ^ 26 / 2 ^ 26 % 2 ^ 26 := by omega
  rw [and_eq_mod_and (x := v / 256 ^ 0 % 256 ^ 4) (k := 26) (by decide), h0,
    and_eq_mod_and (x := v / 256 ^ 3 % 256 ^ 4 / 2 ^ 2) (k := 26) (by decide), h1,
    and_eq_mod_and (x := v / 256 ^ 6 % 256 ^ 4 / 2 ^ 4) (k := 26) (by decide), h2,
    and_eq_mod_and (x := v / 256 ^ 9 % 256 ^ 4 / 2 ^ 6) (k := 26) (by decide), h3,
    and_eq_mod_and (x := v / 256 ^ 12 % 256 ^ 4 / 2 ^ 8) (k := 26) (by decide), h4]
  generalize v % 256 ^ 16 = x
  rw [and_split x clampMask 26, and_split (x / 2 ^ 26) _ 26, and_split (x / 2 ^ 26 / 2 ^ 26) _ 26,
    and_split (x / 2 ^ 26 / 2 ^ 26 / 2 ^ 26) _ 26,
    and_eq_mod_and (x := x / 2 ^ 26 / 2 ^ 26 / 2 ^ 26 / 2 ^ 26) (k := 26) (by decide)]
  simp only [show clampMask % 2 ^ 26 = 0x03ffffff from rfl,
    show clampMask / 2 ^ 26 % 2 ^ 26 = 0x03ffff03 from rfl,
    show clampMask / 2 ^ 26 / 2 ^ 26 % 2 ^ 26 = 0x03ffc0ff from rfl,
    show clampMask / 2 ^ 26 / 2 ^ 26 / 2 ^ 26 % 2 ^ 26 = 0x03f03fff from rfl,
    show clampMask / 2 ^ 26 / 2 ^ 26 / 2 ^ 26 / 2 ^ 26 = 0x000fffff from rfl]
  ring

theorem clamped_le (key : List UInt8) : (clamped key).Le (2 ^ 26 - 1) := by
  constructor
  · exact Nat.le_trans Nat.and_le_right (by decide)
  · exact Nat.le_trans Nat.and_le_right (by decide)
  · exact Nat.le_trans Nat.and_le_right (by decide)
  · exact Nat.le_trans Nat.and_le_right (by decide)
  · exact Nat.le_trans Nat.and_le_right (by decide)

theorem le_lt (bytes : List UInt8) (i : Nat) : le bytes i < 2 ^ 32 := by
  rw [le, fromLeBytes_take]
  exact Nat.mod_lt _ (by decide)

/-- The words of the pad are the second half of the key. -/
theorem padVal_new (key : Vector UInt8 32) :
    padVal (new key).pad = fromLeBytes (key.toList.drop 16) := by
  have hlt := fromLeBytes_lt (key.toList.drop 16)
  rw [List.length_drop, Vector.length_toList] at hlt
  simp only [padVal, new, le, fromLeBytes_take]
  rw [fromLeBytes_drop] at hlt ⊢
  simp only [fromLeBytes_drop]
  omega

/-! ## The polynomial -/

/-- A block as a number, with a bit above its bytes. -/
def number (bytes : List UInt8) : Nat := fromLeBytes bytes + 2 ^ (8 * bytes.length)

/-- The blocks of a message as numbers, the last one perhaps shorter. -/
def numbers (msg : List UInt8) : List Nat :=
  (blocks 16 msg).map (fun b => number b.toList) ++
    if remainder 16 msg = [] then [] else [number (remainder 16 msg)]

/-- `n₁ * r ^ q + … + n_q * r`. -/
def polynomial (r : Nat) : List Nat → Nat
  | [] => 0
  | n :: ns => n * r ^ (ns.length + 1) + polynomial r ns

/-- The polynomial of the message at the clamped `r` modulo `p`, plus the pad modulo `2 ^ 128`. -/
def tag (key : Vector UInt8 32) (msg : List UInt8) : Nat :=
  (polynomial (fromLeBytes (key.toList.take 16) &&& clampMask) (numbers msg) % p +
    fromLeBytes (key.toList.drop 16)) % 2 ^ 128

/-- Horner's rule. -/
theorem foldl_polynomial (r acc : Nat) (ns : List Nat) :
    ns.foldl (fun acc n => (acc + n) * r) acc = acc * r ^ ns.length + polynomial r ns := by
  induction ns generalizing acc with
  | nil => simp [polynomial]
  | cons n ns ih =>
    rw [List.foldl_cons, ih, polynomial, List.length_cons]
    ring

/-- What `h` is after the numbers `ns`. -/
def Stands (r : Limbs) (ns : List Nat) (h : Limbs) : Prop :=
  Reduced h ∧ h.val ≡ ns.foldl (fun acc n => (acc + n) * r.val) 0 [MOD p]

theorem Stands.block {r h : Limbs} {ns : List Nat} {bytes : List UInt8} {hibit n : Nat}
    (hs : Stands r ns h) (hr : r.Le (2 ^ 26 - 1)) (hlen : bytes.length = 16)
    (hhibit : hibit = 0 ∨ hibit = 2 ^ 24) (hn : fromLeBytes bytes + hibit * 2 ^ 104 = n) :
    ∃ h' : Limbs, (Poly1305.block m r h bytes hibit : Except (Fault ε) Limbs) = .ok h' ∧
      Stands r (ns ++ [n]) h' := by
  obtain ⟨h', hrun, hreduced, hmod⟩ := block_spec (ε := ε) (m := m) hr hs.1 hlen hhibit
  refine ⟨h', hrun, hreduced, ?_⟩
  rw [List.foldl_concat, ← hn]
  exact hmod.trans ((hs.2.add_right _).mul_right _)

theorem Stands.blocks {r h : Limbs} {ns : List Nat} (hs : Stands r ns h) (hr : r.Le (2 ^ 26 - 1))
    (bs : List (Vector UInt8 16)) :
    ∃ h' : Limbs, (bs.foldlM (fun h b => Poly1305.block m r h b.toList (1 <<< 24)) h :
        Except (Fault ε) Limbs) = .ok h' ∧ Stands r (ns ++ bs.map fun b => number b.toList) h' := by
  induction bs generalizing h ns with
  | nil => exact ⟨h, rfl, by rwa [List.map_nil, List.append_nil]⟩
  | cons b bs ih =>
    have hlen : b.toList.length = 16 := Vector.length_toList
    have hnumber : fromLeBytes b.toList + 1 <<< 24 * 2 ^ 104 = number b.toList := by
      rw [number, hlen]
      rfl
    have hhibit : 1 <<< 24 = 0 ∨ 1 <<< 24 = 2 ^ 24 := .inr rfl
    obtain ⟨h₁, hrun, hs₁⟩ := hs.block (ε := ε) (m := m) hr hlen hhibit hnumber
    obtain ⟨h', hruns, hs'⟩ := ih hs₁
    refine ⟨h', ?_, ?_⟩
    · rw [List.foldlM_cons, hrun]
      exact hruns
    · rwa [List.append_assoc, List.singleton_append] at hs'

/-! ## Updates -/

/-- An authenticator of `key` after the bytes `msg`. -/
structure Absorbed (key : Vector UInt8 32) (msg : List UInt8) (s : Poly1305) : Prop where
  r : s.r = clamped key.toList
  pad : s.pad = (new key).pad
  pending : s.buffer.pending = remainder 16 msg
  stands : Stands s.r ((Blocks.blocks 16 msg).map fun b => number b.toList) s.h

theorem absorbed_new (key : Vector UInt8 32) : Absorbed key [] (new key) :=
  ⟨rfl, rfl, rfl, ⟨Nat.two_pow_pos 26, Nat.lt_add_right 64 (Nat.two_pow_pos 26), Nat.two_pow_pos 26,
    Nat.two_pow_pos 26, Nat.two_pow_pos 26⟩, rfl⟩

variable {key : Vector UInt8 32} {msg : List UInt8} {s : Poly1305}

/-- A call absorbs its bytes, in both builds. -/
theorem Absorbed.update (h : Absorbed key msg s) (data : List UInt8) :
    ∃ s' : Poly1305, (s.update m data : Except (Fault ε) Poly1305) = .ok s' ∧
      Absorbed key (msg ++ data) s' := by
  obtain ⟨b', hpending, hrun⟩ := absorb_eq (m := Except (Fault ε))
    (fun h b => Poly1305.block m s.r h b.toList (1 <<< 24)) s.buffer data
  obtain ⟨hblocks, hrem⟩ := blocks_append (by decide : 0 < 16) msg data
  have hr : s.r.Le (2 ^ 26 - 1) := h.r ▸ clamped_le key.toList
  obtain ⟨h', hruns, hstands⟩ := h.stands.blocks (ε := ε) (m := m) hr
    (Blocks.blocks 16 (s.buffer.pending ++ data))
  refine ⟨{ s with h := h', buffer := b' }, ?_, h.r, h.pad, ?_, ?_⟩
  · rw [Poly1305.update, hrun, hruns]
    rfl
  · rw [hrem, ← h.pending]
    exact hpending
  · rw [hblocks, List.map_append, ← h.pending]
    exact hstands

theorem Absorbed.foldlM_update (h : Absorbed key msg s) (parts : List (List UInt8)) :
    ∃ s' : Poly1305, (parts.foldlM (fun s part => s.update m part) s :
        Except (Fault ε) Poly1305) = .ok s' ∧ Absorbed key (msg ++ parts.flatten) s' := by
  induction parts generalizing msg s with
  | nil => exact ⟨s, rfl, by rwa [List.flatten_nil, List.append_nil]⟩
  | cons part parts ih =>
    obtain ⟨s₁, hrun, h₁⟩ := h.update (ε := ε) (m := m) part
    obtain ⟨s', hruns, h'⟩ := ih h₁
    refine ⟨s', ?_, ?_⟩
    · rw [List.foldlM_cons, hrun]
      exact hruns
    · rwa [List.append_assoc] at h'

/-- The bytes that wait are the last block, under a bit of their own. -/
theorem Absorbed.last (h : Absorbed key msg s) :
    ∃ h' : Limbs, (s.lastBlock m : Except (Fault ε) Limbs) = .ok h' ∧
      Stands s.r (numbers msg) h' := by
  have hlen := s.buffer.length_pending
  have hlt := s.buffer.lt
  by_cases hpos : 0 < s.buffer.len
  · have hne : remainder 16 msg ≠ [] := by
      rw [← h.pending]
      exact List.ne_nil_of_length_pos (hlen ▸ hpos)
    have hnumber : fromLeBytes (s.buffer.pending ++ 1 :: List.replicate (15 - s.buffer.len) 0) +
        0 * 2 ^ 104 = number (remainder 16 msg) := by
      rw [fromLeBytes_append, fromLeBytes_cons, fromLeBytes_replicate_zero, ← h.pending, number,
        Nat.pow_mul]
      simp
    have hsize : (s.buffer.pending ++ 1 :: List.replicate (15 - s.buffer.len) 0).length = 16 := by
      rw [List.length_append, List.length_cons, List.length_replicate, hlen]
      omega
    rw [lastBlock, if_pos hpos, numbers, if_neg hne]
    exact h.stands.block (h.r ▸ clamped_le key.toList) hsize (.inl rfl) hnumber
  · have hnil : remainder 16 msg = [] := by
      rw [← h.pending]
      exact List.eq_nil_of_length_eq_zero (by omega)
    rw [lastBlock, if_neg hpos, numbers, if_pos hnil, List.append_nil]
    exact ⟨s.h, rfl, h.stands⟩

theorem Absorbed.finalize (h : Absorbed key msg s) :
    ∃ t : Vector UInt8 16, (s.finalize m : Except (Fault ε) (Vector UInt8 16)) = .ok t ∧
      t.toList = toLeBytes 16 (tag key msg) := by
  obtain ⟨h₁, hlast, hreduced, hmod⟩ := h.last (ε := ε) (m := m)
  obtain ⟨h₂, hcarry, hle, hmod₂⟩ := fullCarry_spec (ε := ε) (m := m) hreduced
  obtain ⟨hle₃, hval₃⟩ := select_minusP hle
  have hwords : s.pad.1 < 2 ^ 32 ∧ s.pad.2.1 < 2 ^ 32 ∧ s.pad.2.2.1 < 2 ^ 32 ∧ s.pad.2.2.2 < 2 ^ 32 := by
    rw [h.pad]
    exact ⟨le_lt _ _, le_lt _ _, le_lt _ _, le_lt _ _⟩
  obtain ⟨t, hpad, ht⟩ :=
    addPad_eq (ε := ε) (m := m) hle₃ hwords.1 hwords.2.1 hwords.2.2.1 hwords.2.2.2
  refine ⟨t, ?_, ?_⟩
  · rw [Poly1305.finalize, hlast]
    show (fullCarry m h₁ >>= fun h => addPad m (select h (minusP h)) s.pad) = _
    rw [hcarry]
    exact hpad
  · have hhorner : (numbers msg).foldl (fun acc n => (acc + n) * s.r.val) 0 =
        polynomial (fromLeBytes (key.toList.take 16) &&& clampMask) (numbers msg) := by
      rw [foldl_polynomial, Nat.zero_mul, Nat.zero_add, h.r, clamped_val]
    have hvalue : h₂.val % p =
        polynomial (fromLeBytes (key.toList.take 16) &&& clampMask) (numbers msg) % p :=
      hhorner ▸ hmod₂.trans hmod
    rw [ht, hval₃, hvalue, h.pad, padVal_new, tag, show 2 ^ 128 = 256 ^ 16 from rfl, toLeBytes_mod]

/-- A run of calls returns the tag of everything they were given. -/
theorem run_spec (m : Overflow) (key : Vector UInt8 32) (parts : List (List UInt8)) :
    ∃ t : Vector UInt8 16, t.toList = toLeBytes 16 (tag key parts.flatten) ∧
      (parts.foldlM (fun s part => s.update m part) (new key) >>= fun s => s.finalize m :
        Except (Fault ε) (Vector UInt8 16)) = .ok t := by
  obtain ⟨s, hrun, habsorbed⟩ := (absorbed_new key).foldlM_update (ε := ε) (m := m) parts
  obtain ⟨t, hfinal, ht⟩ := habsorbed.finalize (ε := ε) (m := m)
  refine ⟨t, ht, ?_⟩
  rw [hrun]
  exact hfinal

/-- In both builds, for every key, message and split of the message over calls, the authenticator
returns the tag. A checked build panics on every overflow of a word, so there is none; the subtraction
of `p` wraps by intent. -/
theorem finalize_foldlM_update (key : Vector UInt8 32) (parts : List (List UInt8)) :
    ∃ t : Vector UInt8 16, t.toList = toLeBytes 16 (tag key parts.flatten) ∧ ∀ m : Overflow,
      (parts.foldlM (fun s part => s.update m part) (new key) >>= fun s => s.finalize m :
        Except (Fault ε) (Vector UInt8 16)) = .ok t := by
  obtain ⟨t, ht, -⟩ := run_spec (ε := ε) .checked key parts
  refine ⟨t, ht, fun m => ?_⟩
  obtain ⟨t', ht', hrun⟩ := run_spec (ε := ε) m key parts
  rw [hrun, Vector.toList_inj.1 (ht'.trans ht.symm)]

/-- The one-shot tag. -/
theorem mac_spec (m : Overflow) (key : Vector UInt8 32) (data : List UInt8) :
    ∃ t : Vector UInt8 16, t.toList = toLeBytes 16 (tag key data) ∧
      (mac m key data : Except (Fault ε) (Vector UInt8 16)) = .ok t := by
  have hrun := run_spec (ε := ε) m key [data]
  simpa [mac] using hrun

end Poly1305
