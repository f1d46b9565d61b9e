import Keraunos.Invoice.Proof.Slices

/-!
# Base conversion is exact

Bytes and the groups of 5 bits that they are padded to determine each other: without padding,
`convert_bits` accepts exactly the padded groups, and it returns the bytes they came from
(`convertBits_false_iff`). The accumulator of the source is a `u32`, which loses the bits that are
shifted out of it. What the loop reads are the low `bits` bits only, and on these it agrees with an
accumulator that keeps everything (`SameBits`).
-/

namespace Bech32

open Digits

/-! ## Bytes and padded groups -/

variable {bytes groups : List UInt8} {k : Nat}

/-- Bytes are padded to groups. -/
theorem exists_padded (bytes : List UInt8) :
    ∃ groups k, convertBits bytes 8 5 true = .ok groups ∧ Padded 8 5 bytes groups k :=
  convertBits_pad (by decide) (by decide) (by decide) (valid_byte bytes)

/-- Groups and padding are determined by the bytes. -/
theorem Padded.unique {groups' : List UInt8} {k' : Nat} (h : Padded 8 5 bytes groups k)
    (h' : Padded 8 5 bytes groups' k') : groups = groups' := by
  have hlt := h.lt
  have hlt' := h'.lt
  have hlen := h.length
  have hlen' := h'.length
  have hk : k = k' := by omega
  have hsize : groups.length = groups'.length := by omega
  refine val_inj h.valid h'.valid hsize ?_
  rw [h.value, h'.value, hk]

/-- Bytes are the only preimage of their padded groups. -/
theorem Padded.convertBits_pad_eq (h : Padded 8 5 bytes groups k) :
    convertBits bytes 8 5 true = .ok groups := by
  obtain ⟨groups', k', hconv, h'⟩ := exists_padded bytes
  rw [h.unique h', hconv]

/-- A few zero bits after the last byte are the padding. -/
theorem Converted.padded {st : Conversion} (h : Converted 5 8 groups st) (hfew : st.bits < 5)
    (hlow : st.acc % 2 ^ st.bits = 0) (hvalid : Valid (2 ^ 5) groups) :
    Padded 8 5 st.out groups st.bits := by
  refine ⟨hfew, hvalid, h.length.symm, ?_⟩
  rw [← h.value, hlow, Nat.add_zero]

/-- What is accepted leaves a few zero bits after the last byte. -/
theorem convertBits_false_eq_ok {out : List UInt8} : convertBits groups 5 8 false = .ok out ↔
    ∃ st, Converted 5 8 groups st ∧ st.out = out ∧ st.bits < 5 ∧ st.acc % 2 ^ st.bits = 0 ∧
      Valid (2 ^ 5) groups := by
  constructor
  · intro h
    have hvalid := valid_of_convertBits h
    obtain ⟨st, hst, hconv⟩ :=
      (converted_nil (show 0 < 8 by decide)).foldlM (by decide) (by decide) hvalid
    rw [List.nil_append] at hconv
    rw [convertBits, hst] at h
    change (if (5 ≤ st.bits ∨ _ ≠ 0) then _ else _) = _ at h
    split at h
    · cases h
    next hleft =>
    obtain ⟨hfew, hzero⟩ := not_or.1 hleft
    rw [rest_eq (Nat.le_of_lt hconv.bits_lt) (by decide)] at hzero
    have hlow := (Nat.mul_eq_zero.1 (not_not.1 hzero)).resolve_right (Nat.two_pow_pos _).ne'
    exact ⟨st, hconv, Except.ok.inj h, Nat.not_le.1 hfew, hlow, hvalid⟩
  · rintro ⟨st, hconv, rfl, hfew, hlow, hvalid⟩
    exact (hconv.padded hfew hlow hvalid).convertBits_false

/-- Without padding, the groups of bytes are accepted, and nothing else. -/
theorem convertBits_false_iff :
    convertBits groups 5 8 false = .ok bytes ↔ convertBits bytes 8 5 true = .ok groups := by
  constructor
  · intro h
    obtain ⟨st, hconv, rfl, hfew, hlow, hvalid⟩ := convertBits_false_eq_ok.1 h
    exact (hconv.padded hfew hlow hvalid).convertBits_pad_eq
  · intro h
    obtain ⟨groups', k, hgroups, hpadded⟩ := exists_padded bytes
    obtain rfl := Except.ok.inj (h.symm.trans hgroups)
    exact hpadded.convertBits_false

/-- Padded groups are values below 32 with fewer than 5 bits after the last byte, all of them zero. -/
theorem exists_bytes_iff : (∃ bytes, convertBits bytes 8 5 true = .ok groups) ↔
    Valid (2 ^ 5) groups ∧ 5 * groups.length % 8 < 5 ∧
      2 ^ (5 * groups.length % 8) ∣ val (2 ^ 5) groups := by
  constructor
  · rintro ⟨bytes, h⟩
    obtain ⟨groups', k, hgroups, hpadded⟩ := exists_padded bytes
    obtain rfl := Except.ok.inj (h.symm.trans hgroups)
    have hlt := hpadded.lt
    have hlen := hpadded.length
    have hk : 5 * groups.length % 8 = k := by omega
    exact ⟨hpadded.valid, hk ▸ hlt, hk ▸ ⟨_, hpadded.value.trans (Nat.mul_comm _ _)⟩⟩
  · rintro ⟨hvalid, hfew, hdvd⟩
    obtain ⟨st, -, hconv⟩ :=
      (converted_nil (show 0 < 8 by decide)).foldlM (by decide) (by decide) hvalid
    rw [List.nil_append] at hconv
    have hlen := hconv.length
    have hbits := hconv.bits_lt
    have hk : 5 * groups.length % 8 = st.bits := by omega
    rw [hk] at hfew hdvd
    have hlow : st.acc % 2 ^ st.bits = 0 := by
      rw [← hconv.value, Nat.dvd_add_right (Nat.dvd_mul_left _ _)] at hdvd
      exact Nat.eq_zero_of_dvd_of_lt hdvd (Nat.mod_lt _ (Nat.two_pow_pos _))
    exact ⟨st.out, (hconv.padded hfew hlow hvalid).convertBits_pad_eq⟩

/-! ## The accumulator -/

/-- The body of the loop over an accumulator that keeps every bit. -/
def convertStepUnbounded (fromBits toBits : Nat) (st : Conversion) (value : UInt8) :
    Except Bech32Error Conversion :=
  if value.toNat >>> fromBits ≠ 0 then .error .paddingError
  else
    let acc := st.acc <<< fromBits ||| value.toNat
    let (bits, out) := drain toBits acc (st.bits + fromBits) st.out
    .ok ⟨acc, bits, out⟩

/-- The conversion over an accumulator that keeps every bit. -/
def convertBitsUnbounded (data : List UInt8) (fromBits toBits : Nat) (pad : Bool) :
    Except Bech32Error (List UInt8) := do
  let st ← data.foldlM (convertStepUnbounded fromBits toBits) {}
  let rest := st.acc <<< (toBits - st.bits) &&& (2 ^ toBits - 1)
  if pad then
    return if 0 < st.bits then st.out ++ [UInt8.ofNat rest] else st.out
  else if fromBits ≤ st.bits ∨ rest ≠ 0 then throw .paddingError
  else return st.out

/-- The same groups, and the same bits waiting for the next one. -/
structure SameBits (st st' : Conversion) : Prop where
  bits : st.bits = st'.bits
  out : st.out = st'.out
  acc : st.acc % 2 ^ st.bits = st'.acc % 2 ^ st.bits

section
variable {fromBits toBits : Nat} {data : List UInt8} {st st' : Conversion}

/-- The groups that leave are made of the low `bits` bits. -/
theorem drain_congr {acc acc' : Nat} (bits : Nat) (out : List UInt8)
    (h : acc % 2 ^ bits = acc' % 2 ^ bits) :
    drain toBits acc bits out = drain toBits acc' bits out := by
  fun_induction drain toBits acc bits out with
  | case1 bits out hbits ih =>
    have hpow : 2 ^ bits = 2 ^ (bits - toBits) * 2 ^ toBits := by
      rw [← Nat.pow_add, Nat.sub_add_cancel hbits.1]
    have hgroup : acc >>> (bits - toBits) &&& (2 ^ toBits - 1) =
        acc' >>> (bits - toBits) &&& (2 ^ toBits - 1) := by
      rw [Nat.and_two_pow_sub_one_eq_mod, Nat.and_two_pow_sub_one_eq_mod, Nat.shiftRight_eq_div_pow,
        Nat.shiftRight_eq_div_pow, ← Nat.mod_mul_right_div_self, ← Nat.mod_mul_right_div_self acc',
        ← hpow, h]
    have hrest : acc % 2 ^ (bits - toBits) = acc' % 2 ^ (bits - toBits) := by
      have hmod := congrArg (· % 2 ^ (bits - toBits)) h
      rwa [hpow, Nat.mod_mul_right_mod, Nat.mod_mul_right_mod] at hmod
    rw [drain.eq_def toBits acc', if_pos hbits, ← hgroup]
    exact ih hrest
  | case2 bits out hbits => rw [drain.eq_def toBits acc', if_neg hbits]

theorem drain_le (toBits acc bits : Nat) (out : List UInt8) : (drain toBits acc bits out).1 ≤ bits := by
  fun_induction drain toBits acc bits out with
  | case1 bits out hbits ih => exact Nat.le_trans ih (Nat.sub_le _ _)
  | case2 bits out hbits => exact Nat.le_refl _

theorem SameBits.step (h : SameBits st st') (hbits : st.bits + fromBits ≤ 32) (value : UInt8) :
    (∃ e, convertStep fromBits toBits st value = .error e ∧
      convertStepUnbounded fromBits toBits st' value = .error e) ∨
    ∃ s s', convertStep fromBits toBits st value = .ok s ∧
      convertStepUnbounded fromBits toBits st' value = .ok s' ∧ SameBits s s' := by
  unfold convertStep convertStepUnbounded
  by_cases hwide : value.toNat >>> fromBits ≠ 0
  · exact .inl ⟨_, if_pos hwide, if_pos hwide⟩
  have hv : value.toNat < 2 ^ fromBits := by
    rw [not_not, Nat.shiftRight_eq_div_pow] at hwide
    exact (Nat.div_eq_zero_iff_lt (Nat.two_pow_pos _)).1 hwide
  have hacc : (st.acc <<< fromBits ||| value.toNat) % 2 ^ 32 % 2 ^ (st.bits + fromBits) =
      (st'.acc <<< fromBits ||| value.toNat) % 2 ^ (st.bits + fromBits) := by
    rw [Nat.mod_mod_of_dvd _ (Nat.pow_dvd_pow 2 hbits), ← Nat.shiftLeft_add_eq_or_of_lt hv,
      ← Nat.shiftLeft_add_eq_or_of_lt hv, Nat.shiftLeft_eq, Nat.shiftLeft_eq, Nat.pow_add,
      Nat.add_mod, Nat.mul_mod_mul_right, h.acc, ← Nat.mul_mod_mul_right, ← Nat.add_mod]
  refine .inr ⟨_, _, if_neg hwide, if_neg hwide, ?_⟩
  rw [← h.bits, ← h.out, ← drain_congr _ _ hacc]
  refine ⟨rfl, rfl, ?_⟩
  have hle := drain_le toBits ((st.acc <<< fromBits ||| value.toNat) % 2 ^ 32)
    (st.bits + fromBits) st.out
  have hmod := congrArg (· % 2 ^ (drain toBits ((st.acc <<< fromBits ||| value.toNat) % 2 ^ 32)
    (st.bits + fromBits) st.out).1) hacc
  rwa [Nat.mod_mod_of_dvd _ (Nat.pow_dvd_pow 2 hle), Nat.mod_mod_of_dvd _ (Nat.pow_dvd_pow 2 hle)] at hmod

/-- The loops run side by side. -/
theorem SameBits.foldlM (hpos : 0 < toBits) (hwidth : fromBits + toBits ≤ 32) (data : List UInt8)
    (h : SameBits st st') (hbits : st.bits < toBits) :
    (∃ e, data.foldlM (convertStep fromBits toBits) st = .error e ∧
      data.foldlM (convertStepUnbounded fromBits toBits) st' = .error e) ∨
    ∃ s s', data.foldlM (convertStep fromBits toBits) st = .ok s ∧
      data.foldlM (convertStepUnbounded fromBits toBits) st' = .ok s' ∧ SameBits s s' ∧
      s.bits < toBits := by
  induction data generalizing st st' with
  | nil => exact .inr ⟨st, st', rfl, rfl, h, hbits⟩
  | cons value data ih =>
    rw [List.foldlM_cons, List.foldlM_cons]
    have hroom : st.bits + fromBits ≤ 32 := by omega
    rcases h.step hroom value with ⟨e, hstep, hstep'⟩ | ⟨s, s', hstep, hstep', hsame⟩
    · rw [hstep, hstep']
      exact .inl ⟨e, rfl, rfl⟩
    · rw [hstep, hstep']
      exact ih hsame (bits_of_convertStep hpos hstep)

/-- The bits that the 32-bit accumulator drops are never read. -/
theorem convertBits_eq_unbounded (hpos : 0 < toBits) (hwidth : fromBits + toBits ≤ 32)
    (data : List UInt8) (pad : Bool) :
    convertBits data fromBits toBits pad = convertBitsUnbounded data fromBits toBits pad := by
  unfold convertBits convertBitsUnbounded
  have hstart : SameBits {} {} := ⟨rfl, rfl, rfl⟩
  rcases hstart.foldlM hpos hwidth data hpos with
    ⟨e, hrun, hrun'⟩ | ⟨s, s', hrun, hrun', hsame, hbits⟩
  · rw [hrun, hrun']
    rfl
  · have hpow : 2 ^ toBits = 2 ^ s.bits * 2 ^ (toBits - s.bits) :=
      (pow_mul_pow_sub 2 (Nat.le_of_lt hbits)).symm
    have hrest : (s.acc <<< (toBits - s.bits)) % 2 ^ 32 &&& (2 ^ toBits - 1) =
        s'.acc <<< (toBits - s'.bits) &&& (2 ^ toBits - 1) := by
      rw [Nat.and_two_pow_sub_one_eq_mod, Nat.and_two_pow_sub_one_eq_mod,
        Nat.mod_mod_of_dvd _ (Nat.pow_dvd_pow 2 (by omega)), Nat.shiftLeft_eq, Nat.shiftLeft_eq,
        ← hsame.bits, hpow, Nat.mul_mod_mul_right, Nat.mul_mod_mul_right, hsame.acc]
    rw [hrun, hrun']
    dsimp only [bind, Except.bind]
    rw [hrest, hsame.out, hsame.bits]

end

/-- Regrouping to 5 bits and back is the identity; back from 5 bits succeeds exactly on the groups that
bytes are padded to; and the bits that leave the accumulator are never missed. -/
theorem convertBits_exact :
    (∀ bytes, ∃ groups, convertBits bytes 8 5 true = .ok groups ∧
      convertBits groups 5 8 false = .ok bytes) ∧
    (∀ bytes groups, convertBits groups 5 8 false = .ok bytes ↔
      convertBits bytes 8 5 true = .ok groups) ∧
    (∀ groups, (∃ bytes, convertBits groups 5 8 false = .ok bytes) ↔
      Valid (2 ^ 5) groups ∧ 5 * groups.length % 8 < 5 ∧
        2 ^ (5 * groups.length % 8) ∣ val (2 ^ 5) groups) ∧
    ∀ (fromBits toBits : Nat) (data : List UInt8) (pad : Bool), 0 < toBits →
      fromBits + toBits ≤ 32 →
      convertBits data fromBits toBits pad = convertBitsUnbounded data fromBits toBits pad := by
  refine ⟨?_, fun _ _ => convertBits_false_iff, ?_, ?_⟩
  · intro bytes
    obtain ⟨groups, k, hgroups, hpadded⟩ := exists_padded bytes
    exact ⟨groups, hgroups, hpadded.convertBits_false⟩
  · intro groups
    rw [← exists_bytes_iff]
    exact exists_congr fun _ => convertBits_false_iff
  · intro fromBits toBits data pad hpos hwidth
    exact convertBits_eq_unbounded hpos hwidth data pad

theorem convertBits_exact_ones : convertBits (List.replicate 8 31) 5 8 false =
    convertBitsUnbounded (List.replicate 8 31) 5 8 false :=
  convertBits_exact.2.2.2 5 8 (List.replicate 8 31) false (by decide) (by decide)

end Bech32
