import Keraunos.Invoice.Bech32
import Keraunos.Lib.Digits
import Mathlib.Tactic.IntervalCases

/-!
# Bech32 strings are read back

The checksum register is linear: a step is a shift of the register, XORed with the value that enters
(`polymodStep_xor`). So the six groups of the checksum, which only move up through the register, turn
the remainder of the zero groups into 1 (`polymod_checksum`), and what `encode` writes `decode` reads
(`decode_of_encode`). `convert_bits` keeps the value of its input and the number of bits
(`convertLoop_spec`), so conversion to groups of 5 bits and back is the identity.
-/

namespace Bech32

open Digits

/-! ## The checksum register -/

/-- The part of a generator that bit `i` of the register's top selects. -/
def selected (chk g : BitVec 32) (i : Nat) : BitVec 32 := if chk.getLsbD (25 + i) then g else 0

theorem selected_xor (a b g : BitVec 32) (i : Nat) :
    selected (a ^^^ b) g i = selected a g i ^^^ selected b g i := by
  unfold selected
  rw [BitVec.getLsbD_xor]
  cases a.getLsbD (25 + i) <;> cases b.getLsbD (25 + i) <;> simp

theorem topBit_iff (chk : BitVec 32) (i : Nat) :
    (chk >>> 25 >>> i) &&& 1#32 ≠ 0#32 ↔ chk.getLsbD (25 + i) = true := by
  rw [BitVec.and_one_eq_setWidth_ofBool_getLsbD, BitVec.getLsbD_ushiftRight,
    BitVec.getLsbD_ushiftRight]
  cases chk.getLsbD (25 + i) <;> decide

theorem polymodStep_eq (chk : BitVec 32) (v : UInt8) : polymodStep chk v =
    ((chk &&& 0x01ffffff) <<< 5 ^^^ BitVec.ofNat 32 v.toNat) ^^^ selected chk 0x3b6a57b2 0 ^^^
      selected chk 0x26508e6d 1 ^^^ selected chk 0x1ea119fa 2 ^^^ selected chk 0x3d4233dd 3 ^^^
      selected chk 0x2a1462b3 4 := by
  have hsel : ∀ (acc g : BitVec 32) (i : Nat),
      (if (chk >>> 25 >>> i) &&& 1#32 ≠ 0#32 then acc ^^^ g else acc) = acc ^^^ selected chk g i := by
    intro acc g i
    unfold selected
    simp only [topBit_iff]
    split <;> simp
  simp only [polymodStep, gen, List.zipIdx_cons, List.zipIdx_nil, List.foldl_cons, List.foldl_nil, hsel]

/-- A step is linear in the register. -/
theorem polymodStep_xor (a b : BitVec 32) (v : UInt8) :
    polymodStep (a ^^^ b) v = polymodStep a v ^^^ polymodStep b 0 := by
  have hmask : (a ^^^ b) &&& 0x01ffffff = (a &&& 0x01ffffff) ^^^ (b &&& 0x01ffffff) := by
    ext i
    simp [Bool.and_xor_distrib_right]
  simp only [polymodStep_eq, selected_xor, hmask, BitVec.shiftLeft_xor_distrib]
  simp only [UInt8.toNat_zero, BitVec.ofNat_eq_ofNat, BitVec.xor_zero]
  ac_rfl

theorem foldl_polymodStep_xor (a b : BitVec 32) (values : List UInt8) :
    values.foldl polymodStep (a ^^^ b) =
      values.foldl polymodStep a ^^^ (List.replicate values.length 0).foldl polymodStep b := by
  induction values generalizing a b with
  | nil => rfl
  | cons v values ih =>
    rw [List.foldl_cons, polymodStep_xor, ih, List.length_cons, List.replicate_succ, List.foldl_cons,
      List.foldl_cons]

/-- A register with nothing in its top only shifts. -/
theorem polymodStep_small {chk : BitVec 32} (h : chk.toNat < 2 ^ 25) (v : UInt8) :
    polymodStep chk v = chk <<< 5 ^^^ BitVec.ofNat 32 v.toNat := by
  have hsel : ∀ (g : BitVec 32) (i : Nat), selected chk g i = 0 := by
    intro g i
    have hbit : chk.getLsbD (25 + i) = false :=
      Nat.testBit_lt_two_pow (Nat.lt_of_lt_of_le h (Nat.pow_le_pow_right (by decide) (by omega)))
    rw [selected, hbit, if_neg Bool.false_ne_true]
  have hmask : chk &&& 0x01ffffff = chk := by
    apply BitVec.eq_of_toNat_eq
    rw [BitVec.toNat_and]
    exact (Nat.and_two_pow_sub_one_eq_mod _ 25).trans (Nat.mod_eq_of_lt h)
  rw [polymodStep_eq, hmask]
  simp only [hsel, BitVec.ofNat_eq_ofNat, BitVec.xor_zero]

/-- The register has 30 bits. -/
theorem polymodStep_lt (chk : BitVec 32) (v : UInt8) : (polymodStep chk v).toNat < 2 ^ 30 := by
  have hsel : ∀ (g : BitVec 32) (i : Nat), g.toNat < 2 ^ 30 → (selected chk g i).toNat < 2 ^ 30 := by
    intro g i hg
    unfold selected
    split
    · exact hg
    · decide
  have hmask : (chk &&& 0x01ffffff).toNat < 2 ^ 25 := by
    rw [BitVec.toNat_and]
    exact Nat.and_lt_two_pow _ (by decide)
  have hshift : ((chk &&& 0x01ffffff) <<< 5).toNat < 2 ^ 30 := by
    rw [BitVec.toNat_shiftLeft, Nat.shiftLeft_eq]
    omega
  have hv : (BitVec.ofNat 32 v.toNat).toNat < 2 ^ 30 := by
    rw [BitVec.toNat_ofNat]
    have := v.toNat_lt
    omega
  simp only [polymodStep_eq, BitVec.toNat_xor]
  exact Nat.xor_lt_two_pow (Nat.xor_lt_two_pow (Nat.xor_lt_two_pow (Nat.xor_lt_two_pow
    (Nat.xor_lt_two_pow (Nat.xor_lt_two_pow hshift hv) (hsel _ _ (by decide))) (hsel _ _ (by decide)))
    (hsel _ _ (by decide))) (hsel _ _ (by decide))) (hsel _ _ (by decide))

theorem shift_xor_low (c : BitVec 32) : c >>> 5 <<< 5 ^^^ (c &&& 31) = c := by
  apply BitVec.eq_of_toNat_eq
  rw [BitVec.toNat_xor, BitVec.toNat_and, BitVec.toNat_shiftLeft, BitVec.toNat_ushiftRight]
  apply Nat.eq_of_testBit_eq
  intro i
  rw [Nat.testBit_xor, Nat.testBit_and, Nat.testBit_mod_two_pow, Nat.testBit_shiftLeft,
    Nat.testBit_shiftRight, show (31 : BitVec 32).toNat = 2 ^ 5 - 1 from rfl,
    Nat.testBit_two_pow_sub_one]
  by_cases h32 : i < 32
  · by_cases h5 : 5 ≤ i
    · simp [h32, h5, Nat.not_lt.2 h5, Nat.add_sub_cancel' h5]
    · simp [h5, Nat.lt_of_not_le h5]
  · have hout : c.toNat.testBit i = false := by
      exact Nat.testBit_lt_two_pow
        (Nat.lt_of_lt_of_le c.isLt (Nat.pow_le_pow_right (by decide) (by omega)))
    simp [hout, h32]

/-- Group `k` of a checksum moves the register up to the checksum's bits from `5 * k`. -/
theorem polymodStep_group {plm : BitVec 32} (h : plm.toNat < 2 ^ 30) (k : Nat) :
    polymodStep (plm >>> (5 * k) >>> 5) (UInt8.ofNat (plm >>> (5 * k) &&& 31).toNat) =
      plm >>> (5 * k) := by
  have hgroup : (plm >>> (5 * k) &&& 31).toNat < 2 ^ 5 := by
    rw [BitVec.toNat_and]
    exact Nat.and_lt_two_pow _ (by decide)
  have hsmall : (plm >>> (5 * k) >>> 5).toNat < 2 ^ 25 := by
    rw [BitVec.toNat_ushiftRight, BitVec.toNat_ushiftRight, Nat.shiftRight_eq_div_pow,
      Nat.shiftRight_eq_div_pow]
    have hle := Nat.div_le_self plm.toNat (2 ^ (5 * k))
    omega
  have hbyte : (UInt8.ofNat (plm >>> (5 * k) &&& 31).toNat).toNat =
      (plm >>> (5 * k) &&& 31).toNat := by
    rw [UInt8.toNat_ofNat']
    exact Nat.mod_eq_of_lt (by omega)
  rw [polymodStep_small hsmall, hbyte, BitVec.ofNat_toNat, BitVec.setWidth_eq]
  exact shift_xor_low _

theorem foldl_checksumGroups {plm : BitVec 32} (h : plm.toNat < 2 ^ 30) :
    ((checksumGroups plm).map UInt8.ofNat).foldl polymodStep 0 = plm := by
  have hstart : (0 : BitVec 32) = plm >>> (5 * 5) >>> 5 := by
    apply BitVec.eq_of_toNat_eq
    rw [← BitVec.shiftRight_add, BitVec.toNat_ushiftRight, Nat.shiftRight_eq_div_pow]
    exact (Nat.div_eq_of_lt h).symm
  have hstep : ∀ k, plm >>> (5 * (k + 1)) = plm >>> (5 * k) >>> 5 := fun k => by
    rw [← BitVec.shiftRight_add, Nat.mul_succ]
  simp only [checksumGroups, List.range_eq_range', List.range', List.map_cons, List.map_nil,
    List.foldl_cons, List.foldl_nil]
  rw [hstart, polymodStep_group h 5, hstep 4, polymodStep_group h 4, hstep 3, polymodStep_group h 3,
    hstep 2, polymodStep_group h 2, hstep 1, polymodStep_group h 1, hstep 0, polymodStep_group h 0]
  exact BitVec.ushiftRight_zero plm

/-- The checksum turns the remainder into 1. -/
theorem polymod_checksum (values : List UInt8) :
    polymod (values ++ (checksumGroups
      (polymod (values ++ List.replicate 6 0) ^^^ 1)).map UInt8.ofNat) = 1 := by
  have hsplit : ∀ groups : List UInt8, groups.length = 6 → polymod (values ++ groups) =
      groups.foldl polymodStep 0 ^^^ polymod (values ++ List.replicate 6 0) := by
    intro groups hlen
    rw [polymod, polymod, List.foldl_append, List.foldl_append, ← hlen, ← foldl_polymodStep_xor]
    simp
  have hlt : (polymod (values ++ List.replicate 6 0) ^^^ 1).toNat < 2 ^ 30 := by
    have hrem : (polymod (values ++ List.replicate 6 0)).toNat < 2 ^ 30 := by
      rw [List.replicate_succ', ← List.append_assoc, polymod, List.foldl_concat]
      exact polymodStep_lt _ _
    rw [BitVec.toNat_xor]
    exact Nat.xor_lt_two_pow hrem (by decide)
  rw [hsplit _ (by simp [checksumGroups]), foldl_checksumGroups hlt, BitVec.xor_comm,
    ← BitVec.xor_assoc, BitVec.xor_self, BitVec.zero_xor]

/-! ## Strings -/

/-- The character of a group. -/
def charOf (d : Nat) : Char := charset.getD d 'q'

theorem charset_getElem? : ∀ d < 32, charset[d]? = some (charOf d) := by decide

theorem valueOf_charOf : ∀ d < 32, valueOf (charOf d) = .ok (UInt8.ofNat d) := by decide

theorem charOf_lowercase : ∀ d < 32, (charOf d).isUpper = false ∧ charOf d ≠ '1' := by decide

theorem toLower_eq_self {c : Char} (h : c.isUpper = false) : c.toLower = c :=
  dif_neg (of_decide_eq_false h)

theorem mapM_charset {groups : List Nat} (h : ∀ d ∈ groups, d < 32) :
    groups.mapM (fun d => charset[d]?) = some (groups.map charOf) := by
  induction groups with
  | nil => rfl
  | cons d groups ih =>
    obtain ⟨hd, hgroups⟩ := List.forall_mem_cons.1 h
    rw [List.mapM_cons, charset_getElem? d hd, ih hgroups]
    rfl

theorem mapM_valueOf {groups : List Nat} (h : ∀ d ∈ groups, d < 32) :
    (groups.map charOf).mapM valueOf = .ok (groups.map UInt8.ofNat) := by
  induction groups with
  | nil => rfl
  | cons d groups ih =>
    obtain ⟨hd, hgroups⟩ := List.forall_mem_cons.1 h
    rw [List.map_cons, List.mapM_cons, valueOf_charOf d hd, ih hgroups]
    rfl

theorem checksumGroups_lt (plm : BitVec 32) : ∀ d ∈ checksumGroups plm, d < 32 := by
  intro d hd
  obtain ⟨i, -, rfl⟩ := List.mem_map.1 hd
  rw [BitVec.toNat_and]
  exact Nat.and_lt_two_pow (n := 5) _ (by decide)

/-- The groups of a string: the data and its checksum. -/
def withChecksum (hrp : List Char) (data : List UInt8) : List Nat :=
  data.map UInt8.toNat ++
    checksumGroups (polymod (hrpExpand hrp ++ data ++ List.replicate 6 0) ^^^ 1)

theorem withChecksum_lt {data : List UInt8} (hrp : List Char) (h : Valid 32 data) :
    ∀ d ∈ withChecksum hrp data, d < 32 := by
  intro d hd
  cases List.mem_append.1 hd with
  | inl hdata =>
    obtain ⟨v, hv, rfl⟩ := List.mem_map.1 hdata
    exact h v hv
  | inr hsum => exact checksumGroups_lt _ d hsum

theorem encode_eq {data : List UInt8} (hrp : List Char) (h : Valid 32 data) :
    encode hrp data = some (hrp ++ '1' :: (withChecksum hrp data).map charOf) := by
  have hdata : data.mapM (fun d => charset[d.toNat]?) = some ((data.map UInt8.toNat).map charOf) := by
    rw [← mapM_charset, List.mapM_map]
    · rfl
    · intro d hd
      obtain ⟨v, hv, rfl⟩ := List.mem_map.1 hd
      exact h v hv
  simp only [encode, hdata, mapM_charset (checksumGroups_lt _), withChecksum, List.map_append]
  simp

theorem length_le_utf8 (s : List Char) : s.length ≤ (utf8 s).length := by
  induction s with
  | nil => exact Nat.le_refl _
  | cons c s ih =>
    have hchar : 0 < (String.utf8EncodeChar c).length := by
      rw [String.length_utf8EncodeChar]
      exact c.utf8Size_pos
    simp only [utf8, List.flatMap_cons, List.length_append, List.length_cons] at ih ⊢
    omega

theorem polymod_withChecksum (hrp : List Char) (data : List UInt8) :
    polymod (hrpExpand hrp ++ (withChecksum hrp data).map UInt8.ofNat) = 1 := by
  have hdata : (data.map UInt8.toNat).map UInt8.ofNat = data := by
    simp [Function.comp_def]
  rw [withChecksum, List.map_append, hdata, ← List.append_assoc]
  exact polymod_checksum _

theorem take_withChecksum (hrp : List Char) (data : List UInt8) :
    ((withChecksum hrp data).map UInt8.ofNat).take
      (((withChecksum hrp data).map UInt8.ofNat).length - 6) = data := by
  have hlen : ∀ plm, (checksumGroups plm).length = 6 := fun plm => by simp [checksumGroups]
  simp [withChecksum, hlen, Function.comp_def]

/-- What `encode` writes, `decode` reads. -/
theorem decode_of_encode {hrp : List Char} {data : List UInt8} (hne : hrp ≠ [])
    (hlower : ∀ c ∈ hrp, c.isUpper = false) (h : Valid 32 data) :
    ∃ s, encode hrp data = some s ∧ decode s = .ok (hrp, data) := by
  refine ⟨_, encode_eq hrp h, ?_⟩
  have hpayload : ∀ c ∈ (withChecksum hrp data).map charOf, c.isUpper = false ∧ c ≠ '1' := by
    intro c hc
    obtain ⟨d, hd, rfl⟩ := List.mem_map.1 hc
    exact charOf_lowercase d (withChecksum_lt hrp h d hd)
  have hall : ∀ c ∈ hrp ++ '1' :: (withChecksum hrp data).map charOf, c.isUpper = false := by
    intro c hc
    cases List.mem_append.1 hc with
    | inl hc => exact hlower c hc
    | inr hc =>
      cases List.mem_cons.1 hc with
      | inl hc => exact hc ▸ by decide
      | inr hc => exact (hpayload c hc).1
  have hupper : (hrp ++ '1' :: (withChecksum hrp data).map charOf).any Char.isUpper = false :=
    List.any_eq_false.2 fun c hc => by simp [hall c hc]
  have hmap : (hrp ++ '1' :: (withChecksum hrp data).map charOf).map Char.toLower =
      hrp ++ '1' :: (withChecksum hrp data).map charOf :=
    (List.map_congr_left fun c hc => toLower_eq_self (hall c hc)).trans (List.map_id _)
  have hone : ∀ c ∈ ((withChecksum hrp data).map charOf).reverse, decide (c ≠ '1') = true :=
    fun c hc => decide_eq_true (hpayload c (List.mem_reverse.1 hc)).2
  have hrev : (hrp ++ '1' :: (withChecksum hrp data).map charOf).reverse =
      ((withChecksum hrp data).map charOf).reverse ++ '1' :: hrp.reverse := by
    simp
  have hlen : 6 ≤ (utf8 ((withChecksum hrp data).map charOf)).length := by
    apply Nat.le_trans _ (length_le_utf8 _)
    simp [withChecksum, checksumGroups]
  simp only [decode, hupper, Bool.and_false, Bool.false_eq_true, if_false, hmap, hrev,
    List.takeWhile_append_of_pos hone, List.dropWhile_append_of_pos hone]
  have hcond : ¬ (hrp = [] ∨ (utf8 ((withChecksum hrp data).map charOf)).length < 6) :=
    fun hor => hor.elim hne (Nat.not_lt.2 hlen)
  simp only [List.takeWhile_cons, List.dropWhile_cons, ne_eq, not_true_eq_false, decide_false,
    Bool.false_eq_true, if_false, List.append_nil, List.reverse_reverse, if_neg hcond,
    mapM_valueOf (withChecksum_lt hrp h)]
  change (if polymod (hrpExpand hrp ++ (withChecksum hrp data).map UInt8.ofNat) ≠ 1 then _ else _) = _
  rw [if_neg (not_not.2 (polymod_withChecksum hrp data))]
  exact congrArg (fun d => Except.ok (hrp, d)) (take_withChecksum hrp data)

/-! ## Base conversion -/

section
variable {fromBits toBits : Nat} {data : List UInt8} {st : Conversion}

/-- Whole groups leave the accumulator from the top; the bits that stay are its lowest. -/
theorem drain_spec (hpos : 0 < toBits) (hto : toBits ≤ 8) (acc bits : Nat) (out : List UInt8)
    (hout : Valid (2 ^ toBits) out) :
    (drain toBits acc bits out).1 < toBits ∧ Valid (2 ^ toBits) (drain toBits acc bits out).2 ∧
    toBits * (drain toBits acc bits out).2.length + (drain toBits acc bits out).1 =
      toBits * out.length + bits ∧
    val (2 ^ toBits) (drain toBits acc bits out).2 * 2 ^ (drain toBits acc bits out).1 +
      acc % 2 ^ (drain toBits acc bits out).1 = val (2 ^ toBits) out * 2 ^ bits + acc % 2 ^ bits := by
  fun_induction drain toBits acc bits out with
  | case1 bits out hbits ih =>
    have hgroup : acc >>> (bits - toBits) &&& (2 ^ toBits - 1) =
        acc / 2 ^ (bits - toBits) % 2 ^ toBits := by
      rw [Nat.and_two_pow_sub_one_eq_mod, Nat.shiftRight_eq_div_pow]
    have hlt : acc / 2 ^ (bits - toBits) % 2 ^ toBits < 2 ^ toBits :=
      Nat.mod_lt _ (Nat.two_pow_pos _)
    have hbyte : (UInt8.ofNat (acc >>> (bits - toBits) &&& (2 ^ toBits - 1))).toNat =
        acc / 2 ^ (bits - toBits) % 2 ^ toBits := by
      rw [UInt8.toNat_ofNat', hgroup]
      exact Nat.mod_eq_of_lt (Nat.lt_of_lt_of_le hlt (Nat.pow_le_pow_right (by decide) hto))
    obtain ⟨hb, hv, hlen, hval⟩ := ih (valid_append.2 ⟨hout, valid_cons.2 ⟨hbyte ▸ hlt, valid_nil⟩⟩)
    refine ⟨hb, hv, ?_, ?_⟩
    · rw [hlen, List.length_append, List.length_singleton, Nat.mul_succ]
      omega
    · have hpow : 2 ^ bits = 2 ^ (bits - toBits) * 2 ^ toBits := by
        rw [← Nat.pow_add, Nat.sub_add_cancel hbits.1]
      rw [hval, val_concat, hbyte, hpow, Nat.mod_mul]
      ring
  | case2 bits out hbits => exact ⟨Nat.lt_of_not_le fun h => hbits ⟨h, hpos⟩, hout, rfl, rfl⟩

/-- The state of the loop after `data`: no bit is lost. -/
structure Converted (fromBits toBits : Nat) (data : List UInt8) (st : Conversion) : Prop where
  bits_lt : st.bits < toBits
  valid : Valid (2 ^ toBits) st.out
  length : toBits * st.out.length + st.bits = fromBits * data.length
  value : val (2 ^ toBits) st.out * 2 ^ st.bits + st.acc % 2 ^ st.bits = val (2 ^ fromBits) data

theorem converted_nil (hpos : 0 < toBits) : Converted fromBits toBits [] {} :=
  ⟨hpos, valid_nil, by simp, by simp⟩

/-- The bits that stay in the accumulator are those it had and the new ones. -/
theorem accumulator_mod {acc bits v : Nat} (h : bits + fromBits ≤ 32) (hv : v < 2 ^ fromBits) :
    (acc <<< fromBits ||| v) % 2 ^ 32 % 2 ^ (bits + fromBits) =
      acc % 2 ^ bits * 2 ^ fromBits + v := by
  rw [Nat.mod_mod_of_dvd _ (Nat.pow_dvd_pow 2 h), ← Nat.shiftLeft_add_eq_or_of_lt hv,
    Nat.shiftLeft_eq, Nat.add_comm bits, Nat.pow_add, Nat.mod_mul, Nat.mul_comm acc,
    Nat.mul_add_mod, Nat.mod_eq_of_lt hv, Nat.mul_add_div (Nat.two_pow_pos _),
    Nat.div_eq_of_lt hv, Nat.add_zero]
  ring

theorem Converted.step (h : Converted fromBits toBits data st) (hfrom : fromBits ≤ 8)
    (hto : toBits ≤ 8) {v : UInt8} (hv : v.toNat < 2 ^ fromBits) :
    ∃ st', convertStep fromBits toBits st v = .ok st' ∧
      Converted fromBits toBits (data ++ [v]) st' := by
  have hpos : 0 < toBits := Nat.lt_of_le_of_lt (Nat.zero_le _) h.bits_lt
  have hcheck : v.toNat >>> fromBits = 0 := by
    rw [Nat.shiftRight_eq_div_pow]
    exact Nat.div_eq_of_lt hv
  obtain ⟨hb, hvalid, hlen, hval⟩ := drain_spec hpos hto
    ((st.acc <<< fromBits ||| v.toNat) % 2 ^ 32) (st.bits + fromBits) st.out h.valid
  refine ⟨_, if_neg (not_not.2 hcheck), hb, hvalid, ?_, ?_⟩
  · have hdata := h.length
    rw [hlen, List.length_append, List.length_singleton, Nat.mul_succ]
    omega
  · have hbits := h.bits_lt
    rw [hval, accumulator_mod (by omega) hv, val_concat, ← h.value, Nat.pow_add]
    ring

theorem Converted.foldlM (h : Converted fromBits toBits data st) (hfrom : fromBits ≤ 8)
    (hto : toBits ≤ 8) {more : List UInt8} (hmore : Valid (2 ^ fromBits) more) :
    ∃ st', more.foldlM (convertStep fromBits toBits) st = .ok st' ∧
      Converted fromBits toBits (data ++ more) st' := by
  induction more generalizing data st with
  | nil => exact ⟨st, rfl, by rwa [List.append_nil]⟩
  | cons v more ih =>
    obtain ⟨hv, hmore⟩ := valid_cons.1 hmore
    obtain ⟨st₁, hstep, h₁⟩ := h.step hfrom hto hv
    obtain ⟨st₂, hrest, h₂⟩ := ih h₁ hmore
    refine ⟨st₂, ?_, by rwa [List.append_assoc] at h₂⟩
    rw [List.foldlM_cons, hstep]
    exact hrest

/-- The last, padded group. -/
theorem rest_eq (hbits : st.bits ≤ toBits) (hto : toBits ≤ 8) :
    (st.acc <<< (toBits - st.bits)) % 2 ^ 32 &&& (2 ^ toBits - 1) =
      st.acc % 2 ^ st.bits * 2 ^ (toBits - st.bits) := by
  have hpow : 2 ^ toBits = 2 ^ st.bits * 2 ^ (toBits - st.bits) := (pow_mul_pow_sub 2 hbits).symm
  rw [Nat.and_two_pow_sub_one_eq_mod, Nat.mod_mod_of_dvd _ (Nat.pow_dvd_pow 2 (by omega)),
    Nat.shiftLeft_eq, hpow, Nat.mul_mod_mul_right]

/-- `out` are the groups of the bits of `data`, followed by `k` zero bits. -/
structure Padded (fromBits toBits : Nat) (data out : List UInt8) (k : Nat) : Prop where
  lt : k < toBits
  valid : Valid (2 ^ toBits) out
  length : toBits * out.length = fromBits * data.length + k
  value : val (2 ^ toBits) out = val (2 ^ fromBits) data * 2 ^ k

/-- With padding, a conversion of well-formed groups never fails and loses nothing. -/
theorem convertBits_pad (hfrom : fromBits ≤ 8) (hpos : 0 < toBits) (hto : toBits ≤ 8)
    (h : Valid (2 ^ fromBits) data) :
    ∃ out k, convertBits data fromBits toBits true = .ok out ∧ Padded fromBits toBits data out k := by
  obtain ⟨st, hst, hconv⟩ := (converted_nil hpos).foldlM hfrom hto h
  have hlen := hconv.length
  have hval := hconv.value
  have hbits := hconv.bits_lt
  simp only [List.nil_append] at hlen hval
  have hrest := rest_eq (Nat.le_of_lt hbits) hto
  have hpow : 2 ^ toBits = 2 ^ st.bits * 2 ^ (toBits - st.bits) :=
    (pow_mul_pow_sub 2 (Nat.le_of_lt hbits)).symm
  by_cases hzero : 0 < st.bits
  · have hgroup : st.acc % 2 ^ st.bits * 2 ^ (toBits - st.bits) < 2 ^ toBits := by
      rw [hpow]
      exact Nat.mul_lt_mul_of_pos_right (Nat.mod_lt _ (Nat.two_pow_pos _)) (Nat.two_pow_pos _)
    have hbyte : (UInt8.ofNat (st.acc % 2 ^ st.bits * 2 ^ (toBits - st.bits))).toNat =
        st.acc % 2 ^ st.bits * 2 ^ (toBits - st.bits) := by
      rw [UInt8.toNat_ofNat']
      exact Nat.mod_eq_of_lt (Nat.lt_of_lt_of_le hgroup (Nat.pow_le_pow_right (by decide) hto))
    refine ⟨st.out ++ [UInt8.ofNat (st.acc % 2 ^ st.bits * 2 ^ (toBits - st.bits))],
      toBits - st.bits, ?_, ?_, ?_, ?_, ?_⟩
    · rw [convertBits, hst, ← hrest]
      exact congrArg Except.ok (if_pos hzero)
    · omega
    · exact valid_append.2 ⟨hconv.valid, valid_cons.2 ⟨by rwa [hbyte], valid_nil⟩⟩
    · rw [List.length_append, List.length_singleton, Nat.mul_succ]
      omega
    · rw [val_concat, hbyte, ← hval, Nat.add_mul, Nat.mul_assoc, ← hpow]
  · have hnone : st.bits = 0 := Nat.eq_zero_of_not_pos hzero
    refine ⟨st.out, 0, ?_, hpos, hconv.valid, by omega, ?_⟩
    · rw [convertBits, hst]
      exact congrArg Except.ok (if_neg hzero)
    · rw [hnone, Nat.pow_zero, Nat.mod_one, Nat.mul_one, Nat.add_zero] at hval
      rw [hval, Nat.pow_zero, Nat.mul_one]

/-- A conversion accepts only groups of `fromBits` bits. -/
theorem valid_of_foldlM {st' : Conversion}
    (h : data.foldlM (convertStep fromBits toBits) st = .ok st') : Valid (2 ^ fromBits) data := by
  induction data generalizing st with
  | nil => exact valid_nil
  | cons v data ih =>
    rw [List.foldlM_cons] at h
    unfold convertStep at h
    by_cases hv : v.toNat >>> fromBits = 0
    · rw [if_neg (not_not.2 hv)] at h
      rw [Nat.shiftRight_eq_div_pow] at hv
      exact valid_cons.2 ⟨(Nat.div_eq_zero_iff_lt (Nat.two_pow_pos _)).1 hv, ih h⟩
    · rw [if_pos hv] at h
      cases h

theorem valid_of_convertBits {pad : Bool} {out : List UInt8}
    (h : convertBits data fromBits toBits pad = .ok out) : Valid (2 ^ fromBits) data := by
  rw [convertBits] at h
  cases hst : data.foldlM (convertStep fromBits toBits) {} with
  | error e =>
    rw [hst] at h
    cases h
  | ok st => exact valid_of_foldlM hst

/-- Groups that came from wider ones convert back: the loop ends on the padding, which is zero. -/
theorem Padded.converted {bytes groups : List UInt8} {k : Nat} (h : Padded 8 5 bytes groups k)
    (hst : Converted 5 8 groups st) :
    st.out = bytes ∧ st.bits = k ∧ st.acc % 2 ^ st.bits = 0 := by
  have hk := h.lt
  have hbits := hst.bits_lt
  have hlen := hst.length
  have hlen' := h.length
  have hout : st.out.length = bytes.length := by omega
  have hpad : st.bits = k := by omega
  have hval : val (2 ^ 8) st.out * 2 ^ k + st.acc % 2 ^ k = val (2 ^ 8) bytes * 2 ^ k := by
    rw [← h.value, ← hst.value, hpad]
  have hlow : st.acc % 2 ^ k < 2 ^ k := Nat.mod_lt _ (Nat.two_pow_pos _)
  have hmod := congrArg (· % 2 ^ k) hval
  simp only [Nat.mul_comm _ (2 ^ k), Nat.mul_add_mod, Nat.mul_mod_right,
    Nat.mod_eq_of_lt hlow] at hmod
  have heq : val (2 ^ 8) st.out = val (2 ^ 8) bytes := by
    rw [hmod, Nat.add_zero] at hval
    exact Nat.eq_of_mul_eq_mul_right (Nat.two_pow_pos k) hval
  exact ⟨val_inj hst.valid (valid_byte bytes) hout heq, hpad, by rw [hpad, hmod]⟩

/-- Without padding, what came from bytes gives the bytes. -/
theorem Padded.convertBits_false {bytes groups : List UInt8} {k : Nat}
    (h : Padded 8 5 bytes groups k) : convertBits groups 5 8 false = .ok bytes := by
  obtain ⟨st, hst, hconv⟩ :=
    (converted_nil (show 0 < 8 by decide)).foldlM (by decide) (by decide) h.valid
  obtain ⟨hout, hbits, hacc⟩ := h.converted hconv
  have hk := h.lt
  rw [convertBits, hst]
  change (if (5 ≤ st.bits ∨ _ ≠ 0) then _ else _) = _
  rw [rest_eq (Nat.le_of_lt hconv.bits_lt) (by decide), hacc, Nat.zero_mul, if_neg (by omega), ← hout]
  rfl

/-- With padding, what came from bytes starts with the bytes. -/
theorem Padded.convertBits_true {bytes groups : List UInt8} {k : Nat}
    (h : Padded 8 5 bytes groups k) :
    ∃ tail, convertBits groups 5 8 true = .ok (bytes ++ tail) := by
  obtain ⟨st, hst, hconv⟩ :=
    (converted_nil (show 0 < 8 by decide)).foldlM (by decide) (by decide) h.valid
  obtain ⟨hout, -, -⟩ := h.converted hconv
  rw [convertBits, hst, ← hout]
  by_cases hzero : 0 < st.bits
  · exact ⟨_, congrArg Except.ok (if_pos hzero)⟩
  · refine ⟨[], congrArg Except.ok ?_⟩
    rw [if_neg hzero, List.append_nil]

/-- Without padding, fewer bits than one group are left over. -/
theorem length_convertBits_false (hfrom : fromBits ≤ 8) (hpos : 0 < toBits) (hto : toBits ≤ 8)
    {out : List UInt8} (h : convertBits data fromBits toBits false = .ok out) :
    ∃ k < fromBits, fromBits * data.length = toBits * out.length + k := by
  obtain ⟨st, hst, hconv⟩ := (converted_nil hpos).foldlM hfrom hto (valid_of_convertBits h)
  rw [convertBits, hst] at h
  change (if (fromBits ≤ st.bits ∨ _ ≠ 0) then _ else _) = _ at h
  split at h
  · cases h
  · next hleft =>
    obtain rfl := Except.ok.inj h
    exact ⟨st.bits, Nat.lt_of_not_le fun hle => hleft (.inl hle), hconv.length.symm⟩

/-- With padding, the last group is filled up. -/
theorem length_convertBits_true (hfrom : fromBits ≤ 8) (hpos : 0 < toBits) (hto : toBits ≤ 8)
    {out : List UInt8} (h : convertBits data fromBits toBits true = .ok out) :
    ∃ k < toBits, toBits * out.length = fromBits * data.length + k := by
  obtain ⟨out', k, hout, hpadded⟩ := convertBits_pad hfrom hpos hto (valid_of_convertBits h)
  obtain rfl := Except.ok.inj (h.symm.trans hout)
  exact ⟨k, hpadded.lt, hpadded.length⟩

end

end Bech32
