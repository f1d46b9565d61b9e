import Keraunos.Invoice.Proof.Limits
import Keraunos.Invoice.Slices
import Mathlib.Data.List.TakeWhile

/-!
# Parsing an invoice never panics

No slice of the parser is out of range: `decodeSliced` cuts the string around its last `1`, which is
one byte long, and everything after it is ASCII if it is accepted; the lengths of the converted fields
follow from those of their groups. So the parser does what `Bolt11Invoice.parse` does
(`parseSliced_eq`), and that never panics.
-/

open Bech32 Digits Invoice

namespace Bech32

/-! ## The string -/

theorem size_eq_utf8 (s : List Char) : Str.size s = (utf8 s).length := by
  induction s with
  | nil => rfl
  | cons c s ih =>
    show _ = (String.utf8EncodeChar c ++ utf8 s).length
    rw [Str.size_cons, ih, List.length_append, String.length_utf8EncodeChar]

/-- The characters of the charset have one byte. -/
theorem utf8Size_of_valueOf {c : Char} {v : UInt8} (h : valueOf c = .ok v) : c.utf8Size = 1 := by
  have hsizes : charset.all (fun c => c.utf8Size == 1) = true := by decide +kernel
  unfold valueOf at h
  split at h
  · next i hfound =>
    obtain ⟨hi, hc, -⟩ := List.findIdx?_eq_some_iff_getElem.1 hfound
    have hsize := List.all_eq_true.1 hsizes _ (List.getElem_mem hi)
    exact of_decide_eq_true hc ▸ beq_iff_eq.1 hsize
  · cases h

theorem size_of_mapM {s : List Char} {data : List UInt8} (h : s.mapM valueOf = .ok data) :
    Str.size s = data.length := by
  induction s generalizing data with
  | nil =>
    obtain rfl := Except.ok.inj h
    rfl
  | cons c s ih =>
    rw [List.mapM_cons] at h
    cases hvalue : valueOf c with
    | error e =>
      rw [hvalue] at h
      cases h
    | ok v =>
      cases hrest : s.mapM valueOf with
      | error e =>
        rw [hvalue, hrest] at h
        cases h
      | ok rest =>
        rw [hvalue, hrest] at h
        obtain rfl := Except.ok.inj h
        rw [Str.size_cons, utf8Size_of_valueOf hvalue, ih hrest, List.length_cons, Nat.add_comm]

/-- A string is cut around its last separator. -/
theorem cut_last (hrp : List Char) {payload : List Char} (h : '1' ∉ payload) :
    (hrp ++ '1' :: payload).reverse.dropWhile (fun x => decide (x ≠ '1')) = '1' :: hrp.reverse ∧
      ((hrp ++ '1' :: payload).reverse.takeWhile fun x => decide (x ≠ '1')).reverse = payload := by
  have hrev : (hrp ++ '1' :: payload).reverse = payload.reverse ++ '1' :: hrp.reverse := by
    simp
  have hone : ∀ c ∈ payload.reverse, decide (c ≠ '1') = true := by
    intro c hc
    refine decide_eq_true fun heq => h ?_
    exact heq ▸ List.mem_reverse.1 hc
  rw [hrev, List.dropWhile_append_of_pos hone, List.takeWhile_append_of_pos hone]
  simp

theorem exists_last {s : List Char} (h : '1' ∈ s) :
    ∃ hrp payload, s = hrp ++ '1' :: payload ∧ '1' ∉ payload := by
  obtain ⟨before, after, hs, hnot⟩ := List.eq_append_cons_of_mem (List.mem_reverse.2 h)
  refine ⟨after.reverse, before.reverse, ?_, fun hmem => hnot (List.mem_reverse.1 hmem)⟩
  rw [← List.reverse_reverse s, hs, List.reverse_append, List.reverse_cons, List.append_assoc]
  rfl

theorem dropWhile_of_notMem {s : List Char} (h : '1' ∉ s) :
    s.reverse.dropWhile (fun x => decide (x ≠ '1')) = [] := by
  rw [List.dropWhile_eq_nil_iff]
  exact fun c hc => decide_eq_true fun heq => h (heq ▸ List.mem_reverse.1 hc)

/-- No slice of `decode` is out of range or inside of a character. -/
theorem decodeSliced_eq (s : List Char) : decodeSliced s = (decode s).mapError .err := by
  unfold decodeSliced decode
  by_cases hmixed : (s.any Char.isLower && s.any Char.isUpper) = true
  · rw [if_pos hmixed, if_pos hmixed]
    rfl
  rw [if_neg hmixed, if_neg hmixed]
  show (do
      let sep ← Fault.okOr (Str.rfind '1' (s.map Char.toLower)) Bech32Error.noSeparator
      _) = _
  dsimp only
  generalize s.map Char.toLower = s
  by_cases hone : '1' ∈ s
  · obtain ⟨hrp, payload, rfl, hlast⟩ := exists_last hone
    obtain ⟨hdrop, htake⟩ := cut_last hrp hlast
    have hsize : Str.size (hrp ++ '1' :: payload) = Str.size hrp + (1 + Str.size payload) :=
      Str.size_append _ _
    have hsince : ∀ ε, (Str.since (hrp ++ '1' :: payload) (Str.size hrp + 1) :
        Except (Fault ε) (List Char)) = .ok payload := by
      intro ε
      have happend := Str.since_append (ε := ε) (hrp ++ ['1']) payload
      rwa [Str.size_append, List.append_assoc] at happend
    rw [Str.rfind_append hrp hlast, hdrop, htake]
    show (if Str.size hrp = 0 ∨ Str.size hrp + 7 > _ then _ else _) = Except.mapError Fault.err
      (if hrp.reverse.reverse = [] ∨ (utf8 payload).length < 6 then _ else _)
    have hcond : (Str.size hrp = 0 ∨ Str.size hrp + 7 > Str.size hrp + (1 + Str.size payload)) ↔
        (hrp = [] ∨ Str.size payload < 6) := or_congr Str.size_eq_zero (by omega)
    simp only [List.reverse_reverse, ← size_eq_utf8, hsize, hcond]
    by_cases hshort : hrp = [] ∨ Str.size payload < 6
    · rw [if_pos hshort, if_pos hshort]
      rfl
    rw [if_neg hshort, if_neg hshort, Str.upTo_append, hsince,
      Slice.minus_of_le (Nat.le_add_right _ _), Nat.add_sub_cancel_left]
    show (do
      let _ ← Slice.minus (1 + Str.size payload) 1
      _) = _
    rw [Slice.minus_of_le (Nat.le_add_right _ _)]
    show (do
      let data ← (payload.mapM valueOf).mapError Fault.err
      _) = _
    cases hdata : payload.mapM valueOf with
    | error e => rfl
    | ok data =>
      have hlong : 6 ≤ data.length := by
        rw [← size_of_mapM hdata]
        omega
      show (if polymod (hrpExpand hrp ++ data) ≠ 1 then _ else _) = Except.mapError Fault.err
        (if polymod (hrpExpand hrp ++ data) ≠ 1 then _ else _)
      by_cases hsum : polymod (hrpExpand hrp ++ data) ≠ 1
      · rw [if_pos hsum, if_pos hsum]
        rfl
      · rw [if_neg hsum, if_neg hsum, Slice.minus_of_le hlong]
        rfl
  · rw [Str.rfind_eq_none.2 hone, dropWhile_of_notMem hone]
    rfl

/-! ## Base conversion -/

section
variable {ε : Type} {fromBits toBits : Nat}

theorem shiftBy_of_lt {n : Nat} (h : n < 32) : (shiftBy n : Except (Fault ε) Nat) = .ok n := if_pos h

/-- Every shift of the inner loop is by less than the bits that came in. -/
theorem drainSliced_eq (acc : Nat) {bits : Nat} (out : List UInt8) (h : bits < 32 + toBits) :
    (drainSliced toBits acc bits out : Except (Fault ε) (Nat × List UInt8)) =
      .ok (drain toBits acc bits out) := by
  fun_induction drain toBits acc bits out with
  | case1 bits out hbits ih =>
    rw [drainSliced, if_pos hbits, shiftBy_of_lt (by omega)]
    exact ih (by omega)
  | case2 bits out hbits => rw [drainSliced, if_neg hbits]

theorem drain_lt (hpos : 0 < toBits) (acc bits : Nat) (out : List UInt8) :
    (drain toBits acc bits out).1 < toBits := by
  fun_induction drain toBits acc bits out with
  | case1 bits out hbits ih => exact ih
  | case2 bits out hbits => omega

theorem convertStepSliced_eq (hfrom : fromBits ≤ 8) {st : Conversion}
    (hst : st.bits < toBits) (value : UInt8) :
    convertStepSliced fromBits toBits st value =
      (convertStep fromBits toBits st value).mapError .err := by
  unfold convertStepSliced convertStep
  rw [shiftBy_of_lt (by omega)]
  show (if value.toNat >>> fromBits ≠ 0 then _ else _) = _
  by_cases hwide : value.toNat >>> fromBits ≠ 0
  · rw [if_pos hwide, if_pos hwide]
    rfl
  · rw [if_neg hwide, if_neg hwide, drainSliced_eq _ _ (by omega)]
    rfl

theorem bits_of_convertStep (hpos : 0 < toBits) {st st' : Conversion} {value : UInt8}
    (h : convertStep fromBits toBits st value = .ok st') : st'.bits < toBits := by
  unfold convertStep at h
  split at h
  · cases h
  · obtain rfl := Except.ok.inj h
    exact drain_lt hpos _ _ _

theorem foldlM_convertStepSliced (hfrom : fromBits ≤ 8) (hpos : 0 < toBits)
    (data : List UInt8) {st : Conversion} (hst : st.bits < toBits) :
    data.foldlM (convertStepSliced fromBits toBits) st =
        (data.foldlM (convertStep fromBits toBits) st).mapError .err ∧
      ∀ st', data.foldlM (convertStep fromBits toBits) st = .ok st' → st'.bits < toBits := by
  induction data generalizing st with
  | nil => exact ⟨rfl, fun st' h => Except.ok.inj h ▸ hst⟩
  | cons value data ih =>
    rw [List.foldlM_cons, List.foldlM_cons, convertStepSliced_eq hfrom hst]
    cases hstep : convertStep fromBits toBits st value with
    | error e => exact ⟨rfl, nofun⟩
    | ok next => exact ih (bits_of_convertStep hpos hstep)

/-- No shift and no difference of `convert_bits` is out of range. -/
theorem convertBitsSliced_eq (hfrom : fromBits ≤ 8) (hpos : 0 < toBits) (hto : toBits ≤ 8)
    (data : List UInt8) (pad : Bool) :
    convertBitsSliced data fromBits toBits pad =
      (convertBits data fromBits toBits pad).mapError .err := by
  have hwidth : 1 <<< toBits = 2 ^ toBits := by rw [Nat.shiftLeft_eq, Nat.one_mul]
  obtain ⟨hfold, hbits⟩ := foldlM_convertStepSliced hfrom hpos data (show ({} : Conversion).bits < toBits from hpos)
  unfold convertBitsSliced convertBits
  rw [shiftBy_of_lt (by omega)]
  show (do
    let maxv ← Slice.minus (1 <<< toBits) 1
    _) = _
  rw [hwidth, Slice.minus_of_le (Nat.two_pow_pos _), hfold]
  cases hdata : data.foldlM (convertStep fromBits toBits) {} with
  | error e => rfl
  | ok st =>
    have hleft := hbits st hdata
    have hshift : (shiftBy (toBits - st.bits) : Except (Fault Bech32Error) Nat) =
        .ok (toBits - st.bits) := shiftBy_of_lt (by omega)
    cases pad with
    | true =>
      show (if 0 < st.bits then _ else _) = Except.mapError Fault.err
        (.ok (if 0 < st.bits then _ else _))
      by_cases hsome : 0 < st.bits
      · rw [if_pos hsome, if_pos hsome, Slice.minus_of_le hleft.le]
        show (do
          let shift ← shiftBy (toBits - st.bits)
          _) = _
        rw [hshift]
        rfl
      · rw [if_neg hsome, if_neg hsome]
        rfl
    | false =>
      show (if fromBits ≤ st.bits then _ else _) = Except.mapError Fault.err
        (if fromBits ≤ st.bits ∨ (st.acc <<< (toBits - st.bits)) % 2 ^ 32 &&& (2 ^ toBits - 1) ≠ 0
          then _ else _)
      by_cases hmany : fromBits ≤ st.bits
      · rw [if_pos hmany, if_pos (.inl hmany)]
        rfl
      rw [if_neg hmany, Slice.minus_of_le hleft.le]
      show (do
        let shift ← shiftBy (toBits - st.bits)
        _) = _
      rw [hshift]
      show (if (st.acc <<< (toBits - st.bits)) % 2 ^ 32 &&& (2 ^ toBits - 1) ≠ 0 then _ else _) = _
      by_cases hrest : (st.acc <<< (toBits - st.bits)) % 2 ^ 32 &&& (2 ^ toBits - 1) ≠ 0
      · rw [if_pos hrest, if_pos (.inr hrest)]
        rfl
      · rw [if_neg hrest, if_neg (not_or.2 ⟨hmany, hrest⟩)]
        rfl

end

end Bech32

namespace Invoice

/-! ## Amounts -/

theorem withoutLast_eq {s : List Char} {last : Char} (h : s.getLast? = some last)
    (hone : last.utf8Size = 1) : withoutLast s = .ok s.dropLast := by
  obtain ⟨init, rfl⟩ := List.getLast?_eq_some_iff.1 h
  have hsize : Str.size (init ++ [last]) = Str.size init + 1 := by
    rw [Str.size_append, Str.size_cons, hone]
    rfl
  rw [withoutLast, hsize, Slice.minus_of_le (Nat.le_add_left _ _), List.dropLast_concat]
  exact Str.upTo_append init [last]

theorem amountUnitSliced_eq {s : List Char} {last : Char} (h : s.getLast? = some last) :
    amountUnitSliced s last = Fault.okOr (amountUnit s last) .badAmount := by
  fun_cases amountUnit s last with
  | case1 | case2 | case3 | case4 =>
    rw [amountUnitSliced, withoutLast_eq h (by decide)]
    rfl
  | case5 last hm hu hn hp hdigit =>
    unfold amountUnitSliced
    split
    case h_5 =>
      rw [if_pos hdigit]
      rfl
    all_goals contradiction
  | case6 last hm hu hn hp hdigit =>
    unfold amountUnitSliced
    split
    case h_5 =>
      rw [if_neg hdigit]
      rfl
    all_goals contradiction

/-- The last character is dropped where it is a unit, which has one byte. -/
theorem parseAmountSliced_eq (s : List Char) :
    parseAmountSliced s = (parseAmount s).mapError .err := by
  unfold parseAmountSliced parseAmount
  cases hlast : s.getLast? with
  | none =>
    rw [if_pos (List.getLast?_eq_none_iff.1 hlast)]
    rfl
  | some last =>
    have hne : s ≠ [] := by
      rintro rfl
      cases hlast
    rw [if_neg hne]
    show amountUnitSliced s last >>= _ = _
    rw [amountUnitSliced_eq hlast]
    dsimp only
    cases amountUnit s last with
    | none => rfl
    | some unit =>
      obtain ⟨digits, multiplier⟩ := unit
      show (if digits = [] ∨ ¬ digits.all Char.isDigit then _ else _) = Except.mapError Fault.err
        (if digits = [] ∨ ¬ digits.all Char.isDigit then _ else _)
      split
      · rfl
      cases parseU64 digits with
      | none => rfl
      | some value =>
        dsimp only
        split
        · split <;> rfl
        · split <;> rfl

/-! ## Groups of bits -/

section
variable {ε : Type}

theorem copyBit_eq {groups out : List UInt8} {nbytes bit : Nat} (hbit : bit < groups.length * 5)
    (hroom : groups.length * 5 ≤ nbytes * 8) (hout : out.length = nbytes) :
    (copyBit groups nbytes out bit : Except (Fault ε) (List UInt8)) =
      .ok (if bitOf 5 groups bit then
        out.modify (nbytes - 1 - bit / 8) fun g => g ||| UInt8.ofNat (2 ^ (bit % 8)) else out) := by
  have hgroup : groups.length - 1 - bit / 5 < groups.length := by omega
  have hbyte : nbytes - 1 - bit / 8 < out.length := by omega
  have hone : 1 ≤ groups.length := by omega
  have hdiv : bit / 5 ≤ groups.length - 1 := by omega
  have hone' : 1 ≤ nbytes := by omega
  have hdiv' : bit / 8 ≤ nbytes - 1 := by omega
  have hbitOf : bitOf 5 groups bit = groups[groups.length - 1 - bit / 5].toNat.testBit (bit % 5) := by
    rw [bitOf, List.getD_eq_getElem?_getD, List.getElem?_eq_getElem hgroup, Option.getD_some]
  have hmodify : out.modify (nbytes - 1 - bit / 8) (fun g => g ||| UInt8.ofNat (2 ^ (bit % 8))) =
      out.set (nbytes - 1 - bit / 8)
        (out[nbytes - 1 - bit / 8] ||| UInt8.ofNat (2 ^ (bit % 8))) := by
    rw [List.modify_eq_set_getElem?, List.getElem?_eq_getElem hbyte]
    rfl
  simp only [copyBit, Slice.minus_of_le hone, Slice.minus_of_le hdiv, Slice.ok_bind,
    Slice.index_of (List.getElem?_eq_getElem hgroup), ← hbitOf]
  by_cases hset : bitOf 5 groups bit = true
  · simp only [if_pos hset, Slice.minus_of_le hone', Slice.minus_of_le hdiv', Slice.ok_bind,
      Slice.index_of (List.getElem?_eq_getElem hbyte), hmodify]
    rfl
  · rw [if_neg hset, if_neg hset]
    rfl

theorem foldlM_copyBit {groups : List UInt8} {nbytes : Nat}
    (hroom : groups.length * 5 ≤ nbytes * 8) {j : Nat} (hj : j ≤ groups.length * 5) :
    ((List.range j).foldlM (copyBit groups nbytes) (List.replicate nbytes 0) :
        Except (Fault ε) (List UInt8)) =
      .ok ((List.range j).foldl (fun out bit =>
        if bitOf 5 groups bit then
          out.modify (nbytes - 1 - bit / 8) fun g => g ||| UInt8.ofNat (2 ^ (bit % 8))
        else out) (List.replicate nbytes 0)) := by
  induction j with
  | zero => rfl
  | succ j ih =>
    have hrun : Regrouped 8 nbytes (bitOf 5 groups) j _ :=
      regrouped_run (bitOf 5 groups) (by decide) (by decide) j (by omega)
    rw [List.range_succ, List.foldlM_append, ih (by omega), Slice.ok_bind, List.foldl_append,
      List.foldlM_cons, copyBit_eq hj hroom hrun.length]
    rfl

/-- No index of the loop is out of range: the bytes have room for every bit of the groups. -/
theorem fiveBitToBytesBeSliced_eq (groups : List UInt8) :
    (fiveBitToBytesBeSliced groups : Except (Fault ε) (List UInt8)) =
      .ok (fiveBitToBytesBe groups) := by
  have hroom : groups.length * 5 ≤ (groups.length * 5 + 8 - 1) / 8 * 8 := by omega
  simp only [fiveBitToBytesBeSliced, foldlM_copyBit hroom (Nat.le_refl _)]
  show Slice.since _ _ = _
  rw [← List.findIdx_eq_getD_findIdx?, Slice.since_of_le List.findIdx_le_length]
  rw [fiveBitToBytesBe, regroup, strip, List.dropWhile_eq_drop_findIdx_not]
  simp only [decide_not]

end

/-! ## Fields -/

theorem convertSliced_eq (f : Bech32Error → InvoiceError) (data : List UInt8) (pad : Bool) :
    convertSliced f data pad = orError f (convertBits data 5 8 pad) := by
  rw [convertSliced, convertBitsSliced_eq (by decide) (by decide) (by decide)]
  cases convertBits data 5 8 pad <;> rfl

theorem firstBytes_take (n : Nat) (bytes : List UInt8) : firstBytes n (bytes.take n) = firstBytes n bytes := by
  unfold firstBytes
  by_cases hn : n ≤ bytes.length
  · have hn' : n ≤ (bytes.take n).length := by
      rw [List.length_take, Nat.min_eq_left hn]
    simp only [dif_pos hn, dif_pos hn', List.take_take, Nat.min_self]
  · have hn' : ¬ n ≤ (bytes.take n).length := by
      rw [List.length_take]
      omega
    rw [dif_neg hn, dif_neg hn']

/-- 52 groups are 33 bytes. -/
theorem readBytes32Sliced_eq {body : List UInt8} (h : body.length = 52) :
    readBytes32Sliced body = readBytes32 body := by
  unfold readBytes32Sliced readBytes32
  rw [convertSliced_eq]
  cases hbytes : convertBits body 5 8 true with
  | error e => rfl
  | ok bytes =>
    obtain ⟨k, hk, hlen⟩ := length_convertBits_true (by decide) (by decide) (by decide) hbytes
    simp only [orError, Slice.ok_bind, Slice.upTo_of_le (show 32 ≤ bytes.length by omega),
      firstBytes_take]

section
variable (K : KeyParsers)

theorem wordAt_eq {chunk : List UInt8} {a w : Nat} (h : a + w ≤ chunk.length) :
    wordAt chunk a w = .ok (Bytes.beVal ((chunk.drop a).take w)) := by
  have hlen : ((chunk.drop a).take w).length = w := by
    rw [List.length_take, List.length_drop]
    omega
  rw [wordAt, Slice.between_of_le (Nat.le_add_right _ _) h, Slice.ok_bind, List.drop_take,
    Nat.add_sub_cancel_left, Slice.array_of_length hlen]
  rfl

theorem readHopSliced_eq {chunk : List UInt8} (h : chunk.length = 51) :
    readHopSliced K chunk = readHop K chunk := by
  unfold readHopSliced readHop
  rw [Slice.upTo_of_le (by omega), Slice.ok_bind, wordAt_eq (by omega), wordAt_eq (by omega),
    wordAt_eq (by omega), wordAt_eq (by omega)]
  rfl

theorem length_of_mem_chunksExact {n : Nat} {bytes chunk : List UInt8}
    (h : chunk ∈ chunksExact n bytes) : chunk.length = n := by
  obtain ⟨i, hi, rfl⟩ := List.mem_map.1 h
  have hle : n * (i + 1) ≤ bytes.length :=
    Nat.le_trans (Nat.mul_le_mul_left n (List.mem_range.1 hi)) (Nat.mul_div_le _ _)
  rw [List.length_take, List.length_drop]
  rw [Nat.mul_succ] at hle
  omega

theorem readRouteHintSliced_eq (body : List UInt8) :
    readRouteHintSliced K body = readRouteHint K body := by
  unfold readRouteHintSliced readRouteHint
  rw [convertSliced_eq]
  cases convertBits body 5 8 false with
  | error e => rfl
  | ok bytes =>
    simp only [orError, Slice.ok_bind]
    rw [List.mapM_congr_left fun chunk hchunk => readHopSliced_eq K (length_of_mem_chunksExact hchunk)]

theorem readFieldSliced_eq (found : TaggedFields) (tag : UInt8) (body : List UInt8) :
    readFieldSliced K found tag body.length body = readField K found tag body := by
  unfold readFieldSliced readField
  split
  · next h => rw [readBytes32Sliced_eq h.2]
  split
  · next h => rw [readBytes32Sliced_eq h.2]
  split
  · rw [convertSliced_eq]
  split
  · next h => rw [readBytes32Sliced_eq h.2]
  split
  · rfl
  split
  · rfl
  split
  · rw [fiveBitToBytesBeSliced_eq]
    rfl
  split
  · next h =>
    rw [convertSliced_eq]
    cases hbytes : convertBits body 5 8 true with
    | error e => rfl
    | ok bytes =>
      -- 53 groups are 34 bytes.
      obtain ⟨k, hk, hlen⟩ := length_convertBits_true (by decide) (by decide) (by decide) hbytes
      simp only [orError, Slice.ok_bind, Slice.upTo_of_le (show 33 ≤ bytes.length by omega)]
  split
  · rw [readRouteHintSliced_eq]
  · rfl

/-- The slices of one pass are in range once the length is checked. -/
theorem readFieldsSliced_cons (found : TaggedFields) (tag hi lo : UInt8) (rest : List UInt8) {len : Nat}
    (hlen : hi.toNat * 32 + lo.toNat = len) :
    readFieldsSliced K found (tag :: hi :: lo :: rest) =
      if rest.length < len then .error (.err (.badField "tagged field overruns data"))
      else readField K found tag (rest.take len) >>= fun found =>
        readFieldsSliced K found (rest.drop len) := by
  have hthree : (tag :: hi :: lo :: rest).length = 3 + rest.length := by
    show rest.length + 1 + 1 + 1 = 3 + rest.length
    omega
  rw [readFieldsSliced, if_neg (List.cons_ne_nil _ _), if_neg (by omega)]
  show (if (tag :: hi :: lo :: rest).length < 3 + (hi.toNat * 32 + lo.toNat) then _ else _) = _
  rw [hlen, hthree]
  by_cases hshort : rest.length < len
  · rw [if_pos hshort, if_pos (by omega)]
  have htake : (rest.take len).length = len := by
    rw [List.length_take]
    omega
  have hbody : ((tag :: hi :: lo :: rest).take (3 + len)).drop 3 = rest.take len := by
    rw [List.drop_take, Nat.add_sub_cancel_left]
    rfl
  have hrest : (Slice.since (tag :: hi :: lo :: rest) (3 + len) :
      Except (Fault InvoiceError) (List UInt8)) = .ok (rest.drop len) := by
    rw [Slice.since_of_le (by omega), Nat.add_comm]
    rfl
  rw [if_neg hshort, if_neg (by omega), Slice.between_of_le (by omega) (by omega), Slice.ok_bind, hbody]
  split
  · next h => cases hrest.symm.trans h
  · next h =>
    obtain rfl := Except.ok.inj (hrest.symm.trans h)
    have hfield := readFieldSliced_eq K found tag (rest.take len)
    rw [htake] at hfield
    rw [hfield]

/-- The loop ends: what is left of the data gets shorter in every pass. -/
theorem readFieldsSliced_eq (found : TaggedFields) (fields : List UInt8) :
    readFieldsSliced K found fields = readFields K found fields := by
  fun_induction readFields K found fields with
  | case1 found => rw [readFieldsSliced, if_pos rfl]
  | case2 found tag hi lo rest len hshort => rw [readFieldsSliced_cons K _ _ _ _ _ rfl, if_pos hshort]
  | case3 found tag hi lo rest len hlong next hfield ih =>
    rw [readFieldsSliced_cons K _ _ _ _ _ rfl, if_neg hlong, hfield]
    exact ih
  | case4 found tag hi lo rest len hlong e hfield =>
    rw [readFieldsSliced_cons K _ _ _ _ _ rfl, if_neg hlong, hfield]
    rfl
  | case5 found fields hnil hthree =>
    have hshort : fields.length < 3 := by
      rcases fields with _ | ⟨tag, _ | ⟨hi, _ | ⟨lo, rest⟩⟩⟩
      · simp
      · simp
      · simp
      · exact absurd rfl (hthree tag hi lo rest)
    rw [readFieldsSliced, if_neg hnil, if_pos hshort]

end

/-! ## The signature and the whole invoice -/

/-- What follows `ln` starts at a character. -/
theorem splitHrpSliced_eq (hrp : List Char) :
    splitHrpSliced hrp = Fault.okOr (splitHrp hrp) .badPrefix := by
  unfold splitHrpSliced splitHrp
  by_cases hprefix : ['l', 'n'].isPrefixOf hrp = true
  · obtain ⟨afterLn, rfl⟩ := List.isPrefixOf_iff_prefix.1 hprefix
    have hsome : ['l', 'n'].isPrefixOf? (['l', 'n'] ++ afterLn) = some afterLn :=
      List.isPrefixOf?_eq_some_iff_append_eq.2 rfl
    rw [Fault.require_of hprefix, hsome, Slice.ok_bind,
      show (2 : Nat) = Str.size ['l', 'n'] by decide, Str.since_append]
    rfl
  · have hnone : ['l', 'n'].isPrefixOf? hrp = none := by
      cases hsome : ['l', 'n'].isPrefixOf? hrp with
      | none => rfl
      | some rest =>
        have happend := List.isPrefixOf?_eq_some_iff_append_eq.1 hsome
        exact absurd (List.isPrefixOf_iff_prefix.2 ⟨rest, happend⟩) hprefix
    rw [Fault.require, if_neg hprefix, hnone]
    rfl

/-- 104 groups are 65 bytes. -/
theorem readSignatureSliced_eq (R : Recovery) {groups : List UInt8} (h : groups.length = 104) :
    readSignatureSliced R groups = readSignature R groups := by
  unfold readSignatureSliced readSignature
  rw [convertSliced_eq]
  cases hbytes : convertBits groups 5 8 false with
  | error e => rfl
  | ok bytes =>
    obtain ⟨k, hk, hlen⟩ := length_convertBits_false (by decide) (by decide) (by decide) hbytes
    have hlast : bytes[64]? = some bytes[64] := List.getElem?_eq_getElem (by omega)
    obtain ⟨compact, hcompact⟩ : ∃ compact, firstBytes 64 bytes = some compact :=
      ⟨_, dif_pos (by omega)⟩
    simp only [orError, Slice.ok_bind, Slice.array_of_length (show bytes.length = 65 by omega),
      Slice.index_of hlast, Slice.upTo_of_le (show 64 ≤ bytes.length by omega), firstBytes_take,
      hlast, hcompact, Fault.expect]

/-! ## No panic is left -/

theorem orError_ne_panic {α : Type} (f : Bech32Error → InvoiceError) (x : Except Bech32Error α) :
    orError f x ≠ .error .panic := by
  cases x <;> nofun

theorem mapError_err_ne_panic {ε α : Type} (x : Except ε α) : x.mapError Fault.err ≠ .error .panic := by
  cases x <;> nofun

theorem readBytes32_ne_panic {body : List UInt8} (h : body.length = 52) :
    readBytes32 body ≠ .error .panic := by
  refine Fault.bind_ne_panic (orError_ne_panic _ _) fun bytes hbytes => ?_
  obtain ⟨k, hk, hlen⟩ :=
    length_convertBits_true (by decide) (by decide) (by decide) (orError_eq_ok.1 hbytes)
  exact Fault.expect_ne_panic ⟨_, dif_pos (show 32 ≤ bytes.length by omega)⟩

section
variable (K : KeyParsers)

theorem readRouteHint_ne_panic (body : List UInt8) : readRouteHint K body ≠ .error .panic := by
  refine Fault.bind_ne_panic (orError_ne_panic _ _) fun bytes _ => ?_
  refine Fault.bind_ne_panic (Fault.require_ne_panic _ _) fun _ _ => Fault.mapM_ne_panic fun chunk _ => ?_
  exact Fault.bind_ne_panic (Fault.okOr_ne_panic _ _) fun _ _ => nofun

theorem readField_ne_panic (found : TaggedFields) (tag : UInt8) (body : List UInt8) :
    readField K found tag body ≠ .error .panic := by
  unfold readField
  split
  · next h => exact Fault.bind_ne_panic (readBytes32_ne_panic h.2) fun _ _ => nofun
  split
  · next h => exact Fault.bind_ne_panic (readBytes32_ne_panic h.2) fun _ _ => nofun
  split
  · refine Fault.bind_ne_panic (orError_ne_panic _ _) fun bytes _ => ?_
    exact Fault.bind_ne_panic (Fault.okOr_ne_panic _ _) fun _ _ => nofun
  split
  · next h => exact Fault.bind_ne_panic (readBytes32_ne_panic h.2) fun _ _ => nofun
  split
  · nofun
  split
  · nofun
  split
  · nofun
  split
  · exact Fault.bind_ne_panic (orError_ne_panic _ _) fun bytes _ => nofun
  split
  · exact Fault.bind_ne_panic (readRouteHint_ne_panic K body) fun _ _ => nofun
  · nofun

theorem readFields_ne_panic (found : TaggedFields) (fields : List UInt8) :
    readFields K found fields ≠ .error .panic := by
  fun_induction readFields K found fields with
  | case1 found => exact fun h => by cases h
  | case2 found tag hi lo rest len hshort => exact fun h => by cases h
  | case3 found tag hi lo rest len hlong next hfield ih => exact ih
  | case4 found tag hi lo rest len hlong e hfield => exact hfield ▸ readField_ne_panic K found tag _
  | case5 found fields hnil hthree => exact fun h => by cases h

end

theorem readSignature_ne_panic (R : Recovery) {groups : List UInt8} (h : groups.length = 104) :
    readSignature R groups ≠ .error .panic := by
  refine Fault.bind_ne_panic (orError_ne_panic _ _) fun bytes hbytes => ?_
  obtain ⟨k, hk, hlen⟩ :=
    length_convertBits_false (by decide) (by decide) (by decide) (orError_eq_ok.1 hbytes)
  refine Fault.bind_ne_panic (Fault.expect_ne_panic ⟨_, List.getElem?_eq_getElem (by omega)⟩)
    fun recovery _ => ?_
  refine Fault.bind_ne_panic
    (Fault.expect_ne_panic ⟨_, dif_pos (show 64 ≤ bytes.length by omega)⟩) fun compact _ => ?_
  split
  · exact Fault.okOr_ne_panic _ _
  · nofun

end Invoice

/-- No slice of the parser is out of range. -/
theorem Bolt11Invoice.parseSliced_eq (C : Crypto) (K : KeyParsers) (R : Recovery) (s : String) :
    parseSliced C K R s = parse C K R s := by
  unfold parseSliced parse
  rw [decodeSliced_eq]
  cases hdecode : decode s.toList with
  | error e => rfl
  | ok parts =>
    obtain ⟨hrp, data⟩ := parts
    show splitHrpSliced hrp >>= _ = Fault.okOr (splitHrp hrp) .badPrefix >>= _
    rw [splitHrpSliced_eq]
    refine bind_congr fun prefixes => ?_
    obtain ⟨network, amountStr⟩ := prefixes
    dsimp only
    rw [parseAmountSliced_eq]
    refine bind_congr fun amountMsat => ?_
    by_cases hlong : 7 + 104 ≤ data.length
    · have hhead : 7 ≤ (data.take (data.length - 104)).length := by
        rw [List.length_take]
        omega
      have hsig : (data.drop (data.length - 104)).length = 104 := by
        rw [List.length_drop]
        omega
      simp only [Fault.require_of hlong, Slice.minus_of_le (show 104 ≤ data.length by omega),
        Slice.ok_bind, Slice.upTo_of_le (Nat.sub_le data.length 104),
        Slice.since_of_le (Nat.sub_le data.length 104), Slice.upTo_of_le hhead,
        Slice.since_of_le hhead, readSignatureSliced_eq R hsig, convertSliced_eq,
        readFieldsSliced_eq, signedMessage]
      refine bind_congr fun rsig => ?_
      cases convertBits (data.take (data.length - 104)) 5 8 true with
      | error e => rfl
      | ok packed => rfl
    · rw [Fault.require, if_neg hlong]
      rfl

theorem Bolt11Invoice.parse_ne_panic (C : Crypto) (K : KeyParsers) (R : Recovery) (s : String) :
    parse C K R s ≠ .error .panic := by
  refine Fault.bind_ne_panic (orError_ne_panic _ _) fun ⟨hrp, data⟩ _ => ?_
  refine Fault.bind_ne_panic (Fault.okOr_ne_panic _ _) fun ⟨network, amountStr⟩ _ => ?_
  refine Fault.bind_ne_panic (mapError_err_ne_panic _) fun amountMsat _ => ?_
  refine Fault.bind_ne_panic (Fault.require_ne_panic _ _) fun _ hlong => ?_
  have hsig : (data.drop (data.length - 104)).length = 104 := by
    have hlen := Fault.require_eq_ok.1 hlong
    rw [List.length_drop]
    omega
  refine Fault.bind_ne_panic (readSignature_ne_panic R hsig) fun rsig _ => ?_
  refine Fault.bind_ne_panic (orError_ne_panic _ _) fun msg _ => ?_
  refine Fault.bind_ne_panic (Fault.okOr_ne_panic _ _) fun recovered _ => ?_
  refine Fault.bind_ne_panic (readFields_ne_panic K _ _) fun fields _ => ?_
  have hfound : ∀ payee : PublicKey, (do
      let paymentHash ← Fault.okOr fields.paymentHash (.missingField "payment_hash")
      let paymentSecret ← Fault.okOr fields.paymentSecret (.missingField "payment_secret")
      let description ← Fault.okOr fields.description (.missingField "description")
      return { network, amountMsat, payee
               timestamp := groupsVal 64 ((data.take (data.length - 104)).take 7)
               paymentHash, paymentSecret, description
               expirySecs := fields.expiry
               minFinalCltvExpiryDelta := fields.minFinalCltv
               features := fields.features
               routeHints := fields.routeHints } : Except (Fault InvoiceError) Bolt11Invoice) ≠
        .error .panic := by
    intro payee
    refine Fault.bind_ne_panic (Fault.okOr_ne_panic _ _) fun _ _ => ?_
    refine Fault.bind_ne_panic (Fault.okOr_ne_panic _ _) fun _ _ => ?_
    exact Fault.bind_ne_panic (Fault.okOr_ne_panic _ _) fun _ _ => nofun
  cases hpayee : fields.explicitPayee with
  | none => exact hfound recovered
  | some pk =>
    exact Fault.bind_ne_panic (Fault.require_ne_panic _ _) fun _ _ => hfound pk

/-- Parsing a string ends with an invoice or an error, whatever the string is. -/
theorem Bolt11Invoice.parse_never_panics (C : Crypto) (K : KeyParsers) (R : Recovery) :
    (∀ s : String, parseSliced C K R s ≠ .error .panic ∧ decodeSliced s.toList ≠ .error .panic) ∧
      (∀ s, parseAmountSliced s ≠ .error .panic) ∧
      (∀ data pad, convertBitsSliced data 5 8 pad ≠ .error .panic) ∧
      (∀ groups, (fiveBitToBytesBeSliced groups : Except (Fault InvoiceError) _) ≠ .error .panic) ∧
      ∀ found fields, readFieldsSliced K found fields ≠ .error .panic := by
  refine ⟨fun s => ⟨?_, ?_⟩, fun s => ?_, fun data pad => ?_, fun groups => ?_, fun found fields => ?_⟩
  · rw [parseSliced_eq]
    exact parse_ne_panic C K R s
  · rw [decodeSliced_eq]
    exact mapError_err_ne_panic _
  · rw [parseAmountSliced_eq]
    exact mapError_err_ne_panic _
  · rw [convertBitsSliced_eq (by decide) (by decide) (by decide)]
    exact mapError_err_ne_panic _
  · rw [fiveBitToBytesBeSliced_eq]
    nofun
  · rw [readFieldsSliced_eq]
    exact readFields_ne_panic K found fields
