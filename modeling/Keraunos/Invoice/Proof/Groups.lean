import Keraunos.Invoice.Bolt11

/-!
# Integers in groups of bits

The three ways a number stands in the data part: a feature vector regrouped to 5 bits and back
(`fiveBitToBytesBe_bytesToFiveBitBe`), an integer in as few groups as it needs
(`groupsVal_minimalBase32Be`), and the seven groups of the timestamp (`groupsVal_timestampGroups`).
Each keeps its value as a digit string, and a string without leading zeros is determined by it.
-/

namespace Invoice

open Digits

/-! ## Regrouping -/

section
variable {width fromBits toBits : Nat} {groups out : List UInt8}

/-- `out` after the loop has seen the bits below `j`. -/
structure Regrouped (toBits n : Nat) (bits : Nat → Bool) (j : Nat) (out : List UInt8) : Prop where
  length : out.length = n
  valid : Valid (2 ^ toBits) out
  bit : ∀ i < toBits * n, bitOf toBits out i = (decide (i < j) && bits i)

/-- Setting bit `b` of a string of groups sets that bit and no other. -/
theorem bitOf_modify {b i : Nat} (hto : toBits ≤ 8) (hpos : 0 < toBits)
    (hb : b < toBits * out.length) (hi : i < toBits * out.length) :
    bitOf toBits (out.modify (out.length - 1 - b / toBits)
      fun g => g ||| UInt8.ofNat (2 ^ (b % toBits))) i = (bitOf toBits out i || decide (i = b)) := by
  have hbit : b % toBits < 8 := Nat.lt_of_lt_of_le (Nat.mod_lt _ hpos) hto
  have hmask : (UInt8.ofNat (2 ^ (b % toBits))).toNat = 2 ^ (b % toBits) := by
    rw [UInt8.toNat_ofNat']
    exact Nat.mod_eq_of_lt (Nat.pow_lt_pow_right (by decide) hbit)
  have hi' : i / toBits < out.length := Nat.div_lt_of_lt_mul hi
  have hb' : b / toBits < out.length := Nat.div_lt_of_lt_mul hb
  have hlt : out.length - 1 - i / toBits < out.length :=
    Nat.lt_of_le_of_lt (Nat.sub_le _ _) (Nat.sub_one_lt_of_lt hi')
  unfold bitOf
  rw [List.length_modify, List.getD_eq_getElem?_getD, List.getD_eq_getElem?_getD,
    List.getElem?_modify, List.getElem?_eq_getElem hlt]
  by_cases hgroup : i / toBits = b / toBits
  · have hiff : i % toBits = b % toBits ↔ i = b :=
      ⟨fun h => by rw [← Nat.div_add_mod i toBits, hgroup, h, Nat.div_add_mod], fun h => h ▸ rfl⟩
    simp only [hgroup, if_true, Option.map_some, Option.getD_some, Option.map_eq_map,
      UInt8.toNat_or, hmask, Nat.testBit_or, Nat.testBit_two_pow]
    rw [decide_eq_decide.2 (Iff.trans eq_comm hiff)]
  · have hne : i ≠ b := fun h => hgroup (by rw [h])
    have hidx : out.length - 1 - b / toBits ≠ out.length - 1 - i / toBits := by
      generalize i / toBits = x at hi' hgroup ⊢
      generalize b / toBits = y at hb' hgroup ⊢
      omega
    simp [hidx, hne]

theorem Regrouped.step {n j : Nat} {bits : Nat → Bool} (h : Regrouped toBits n bits j out)
    (hto : toBits ≤ 8) (hpos : 0 < toBits) (hj : j < toBits * n) :
    Regrouped toBits n bits (j + 1) (if bits j then
      out.modify (n - 1 - j / toBits) fun g => g ||| UInt8.ofNat (2 ^ (j % toBits)) else out) := by
  by_cases hset : bits j
  · rw [if_pos hset]
    refine ⟨by rw [List.length_modify, h.length], ?_, ?_⟩
    · intro d hd
      obtain ⟨i, hi, rfl⟩ := List.getElem_of_mem hd
      rw [List.getElem_modify]
      have hold := h.valid _ (List.getElem_mem (by simpa using hi))
      split
      · have hmask : (UInt8.ofNat (2 ^ (j % toBits))).toNat < 2 ^ toBits := by
          rw [UInt8.toNat_ofNat']
          exact Nat.lt_of_le_of_lt (Nat.mod_le _ _)
            (Nat.pow_lt_pow_right (by decide) (Nat.mod_lt _ hpos))
        rw [UInt8.toNat_or]
        exact Nat.or_lt_two_pow hold hmask
      · exact hold
    · intro i hi
      rw [← h.length] at hi hj ⊢
      rw [bitOf_modify hto hpos hj hi, h.bit i (h.length ▸ hi)]
      by_cases hij : i = j
      · simp [hij, hset]
      · have hiff : i < j + 1 ↔ i < j := by omega
        simp [hij, hiff]
  · rw [if_neg hset]
    refine ⟨h.length, h.valid, fun i hi => ?_⟩
    rw [h.bit i hi]
    by_cases hij : i = j
    · simp [hij, hset]
    · have hiff : i < j + 1 ↔ i < j := by omega
      simp [hiff]

theorem regrouped_run {n : Nat} (bits : Nat → Bool) (hto : toBits ≤ 8) (hpos : 0 < toBits) (j : Nat)
    (hj : j ≤ toBits * n) :
    Regrouped toBits n bits j ((List.range j).foldl (fun out bit =>
      if bits bit then
        out.modify (n - 1 - bit / toBits) fun g => g ||| UInt8.ofNat (2 ^ (bit % toBits))
      else out) (List.replicate n 0)) := by
  induction j with
  | zero =>
    refine ⟨List.length_replicate, ?_, ?_⟩
    · intro d hd
      rw [(List.mem_replicate.1 hd).2]
      exact Nat.two_pow_pos _
    · intro i hi
      simp [bitOf, List.getD_eq_getElem?_getD, List.getElem?_replicate]
      split <;> simp
  | succ j ih =>
    rw [List.range_succ, List.foldl_append]
    exact (ih (by omega)).step hto hpos (by omega)

/-- Regrouping keeps the value. -/
theorem val_regroup (hpos : 0 < toBits) (hto : toBits ≤ 8) (h : Valid (2 ^ fromBits) groups) :
    val (2 ^ toBits) (regroup fromBits toBits groups) = val (2 ^ fromBits) groups ∧
      Valid (2 ^ toBits) (regroup fromBits toBits groups) := by
  obtain ⟨total, htotal⟩ : ∃ total, total = groups.length * fromBits := ⟨_, rfl⟩
  obtain ⟨n, hn⟩ : ∃ n, n = (total + toBits - 1) / toBits := ⟨_, rfl⟩
  have hroom : total ≤ toBits * n := by
    have hceil := Nat.div_add_mod (total + toBits - 1) toBits
    have hrem := Nat.mod_lt (total + toBits - 1) hpos
    rw [← hn] at hceil
    omega
  have hrun := regrouped_run (bitOf fromBits groups) hto hpos total hroom
  simp only [regroup, ← htotal, ← hn]
  refine ⟨?_, hrun.valid.strip⟩
  rw [val_strip]
  have hlt := val_lt hrun.valid
  have hlt' := val_lt h
  rw [hrun.length, ← Nat.pow_mul] at hlt
  rw [← Nat.pow_mul, Nat.mul_comm, ← htotal] at hlt'
  apply Nat.eq_of_testBit_eq
  intro i
  by_cases hin : i < total
  · have hi : i < toBits * n := by omega
    rw [testBit_val hrun.valid (hrun.length.symm ▸ hi),
      testBit_val h (by rwa [Nat.mul_comm, ← htotal])]
    refine (hrun.bit i hi).trans ?_
    simp [hin, bitOf]
  · rw [Nat.testBit_lt_two_pow (Nat.lt_of_lt_of_le hlt' (Nat.pow_le_pow_right (by decide) (by omega)))]
    by_cases hi : i < toBits * n
    · rw [testBit_val hrun.valid (hrun.length.symm ▸ hi)]
      refine (hrun.bit i hi).trans ?_
      simp [hin]
    · exact Nat.testBit_lt_two_pow
        (Nat.lt_of_lt_of_le hlt (Nat.pow_le_pow_right (by decide) (by omega)))

end

/-- A feature vector without leading zeros survives the two conversions. -/
theorem fiveBitToBytesBe_bytesToFiveBitBe {bytes : List UInt8} (h : bytes.head? ≠ some 0) :
    fiveBitToBytesBe (bytesToFiveBitBe bytes) = bytes := by
  obtain ⟨hval, hvalid⟩ := val_regroup (show 0 < 5 by decide) (by decide) (valid_byte bytes)
  obtain ⟨hval', hvalid'⟩ := val_regroup (show 0 < 8 by decide) (by decide) hvalid
  exact val_inj_of_head hvalid' (valid_byte bytes) (head_strip _) h (hval'.trans hval)

/-- A feature vector has one group for each five bits it needs. -/
theorem length_bytesToFiveBitBe {bytes : List UInt8} {n : Nat} (h : val (2 ^ 8) bytes < 2 ^ (5 * n)) :
    (bytesToFiveBitBe bytes).length ≤ n := by
  obtain ⟨hval, hvalid⟩ := val_regroup (show 0 < 5 by decide) (by decide) (valid_byte bytes)
  rw [← hval, Nat.pow_mul] at h
  exact length_le_of_val_lt hvalid (head_strip _) h

/-! ## Integers -/

/-- The parser's fold is the value in a `width`-bit integer. -/
theorem groupsVal_eq (width : Nat) {groups : List UInt8} (h : Valid (2 ^ 5) groups) :
    groupsVal width groups = val (2 ^ 5) groups % 2 ^ width := by
  have hfold : ∀ acc, groups.foldl (fun acc v => (acc <<< 5 ||| v.toNat) % 2 ^ width)
      (acc % 2 ^ width) = groups.foldl (fun acc d => acc * 2 ^ 5 + d.toNat) acc % 2 ^ width := by
    induction groups with
    | nil => exact fun acc => rfl
    | cons d groups ih =>
      intro acc
      obtain ⟨hd, hgroups⟩ := valid_cons.1 h
      rw [List.foldl_cons, List.foldl_cons, ← ih hgroups, ← Nat.shiftLeft_add_eq_or_of_lt hd,
        Nat.shiftLeft_eq, Nat.add_mod, Nat.mod_mul_mod, ← Nat.add_mod]
  have h0 := hfold 0
  rwa [Nat.zero_mod] at h0

theorem groupsVal_of_lt {width : Nat} {groups : List UInt8} (h : Valid (2 ^ 5) groups)
    (hlt : val (2 ^ 5) groups < 2 ^ width) : groupsVal width groups = val (2 ^ 5) groups :=
  (groupsVal_eq width h).trans (Nat.mod_eq_of_lt hlt)

theorem fiveBits_toNat (v : Nat) : (UInt8.ofNat (v &&& 31)).toNat = v % 2 ^ 5 := by
  rw [UInt8.toNat_ofNat', Nat.and_two_pow_sub_one_eq_mod v 5]
  omega

theorem base32Loop_spec (v : Nat) :
    Valid (2 ^ 5) (base32Loop v).reverse ∧ val (2 ^ 5) (base32Loop v).reverse = v ∧
      (base32Loop v).reverse.head? ≠ some 0 := by
  fun_induction base32Loop v with
  | case1 => exact ⟨valid_nil, rfl, nofun⟩
  | case2 v hv ih =>
    obtain ⟨hvalid, hval, hhead⟩ := ih
    rw [List.reverse_cons]
    refine ⟨valid_append.2 ⟨hvalid, valid_cons.2 ⟨?_, valid_nil⟩⟩, ?_, ?_⟩
    · rw [fiveBits_toNat]
      exact Nat.mod_lt _ (by decide)
    · rw [val_concat, hval, fiveBits_toNat, Nat.shiftRight_eq_div_pow, Nat.div_add_mod']
    · cases hrest : (base32Loop (v >>> 5)).reverse with
      | nil =>
        rw [hrest, val_nil, Nat.shiftRight_eq_div_pow] at hval
        intro hzero
        have hmod := congrArg UInt8.toNat (Option.some.inj hzero)
        rw [fiveBits_toNat, UInt8.toNat_zero] at hmod
        omega
      | cons d rest =>
        rw [hrest] at hhead
        exact hhead

theorem minimalBase32Be_spec (v : Nat) :
    Valid (2 ^ 5) (minimalBase32Be v) ∧ val (2 ^ 5) (minimalBase32Be v) = v := by
  unfold minimalBase32Be
  split
  · next hv => exact ⟨valid_cons.2 ⟨by decide, valid_nil⟩, hv.symm⟩
  · exact ⟨(base32Loop_spec v).1, (base32Loop_spec v).2.1⟩

/-- An integer of `width` bits is read back as it is. -/
theorem groupsVal_minimalBase32Be {width v : Nat} (h : v < 2 ^ width) :
    groupsVal width (minimalBase32Be v) = v := by
  obtain ⟨hvalid, hval⟩ := minimalBase32Be_spec v
  rw [groupsVal_of_lt hvalid (by rwa [hval]), hval]

theorem length_minimalBase32Be {v : Nat} (h : v < 2 ^ 64) : (minimalBase32Be v).length ≤ 13 := by
  unfold minimalBase32Be
  split
  · decide
  · obtain ⟨hvalid, hval, hhead⟩ := base32Loop_spec v
    apply length_le_of_val_lt hvalid hhead
    rw [hval]
    omega

/-! ## The timestamp -/

theorem valid_timestampGroups (b : InvoiceBuilder) : Valid (2 ^ 5) b.timestampGroups := by
  intro d hd
  obtain ⟨i, -, rfl⟩ := List.mem_map.1 hd
  rw [fiveBits_toNat]
  exact Nat.mod_lt _ (by decide)

theorem groupsVal_timestampGroups {b : InvoiceBuilder} (h : b.timestamp < 2 ^ 35) :
    groupsVal 64 b.timestampGroups = b.timestamp := by
  have hstep : ∀ k, b.timestamp >>> (5 * (k + 1)) * 2 ^ 5 + (b.timestamp >>> (5 * k)) % 2 ^ 5 =
      b.timestamp >>> (5 * k) := fun k => by
    rw [Nat.mul_succ, Nat.shiftRight_add, Nat.shiftRight_eq_div_pow _ 5, Nat.div_add_mod']
  have htop : 0 * 2 ^ 5 + b.timestamp >>> (5 * 6) % 2 ^ 5 = b.timestamp >>> (5 * 6) := by
    have hzero : b.timestamp >>> (5 * (6 + 1)) = 0 := by
      rw [Nat.shiftRight_eq_div_pow]
      exact Nat.div_eq_of_lt h
    have hsix := hstep 6
    rwa [hzero] at hsix
  have hval : val (2 ^ 5) b.timestampGroups = b.timestamp := by
    simp only [InvoiceBuilder.timestampGroups, val, List.map_cons, List.map_nil, List.foldl_cons,
      List.foldl_nil, fiveBits_toNat]
    rw [htop, hstep 5, hstep 4, hstep 3, hstep 2, hstep 1, hstep 0]
    rfl
  rw [groupsVal_of_lt (valid_timestampGroups b) (by omega), hval]

end Invoice
