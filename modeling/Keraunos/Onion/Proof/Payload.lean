import Keraunos.Onion.Payload
import Keraunos.Wire.Proof.Streams

/-!
# Hop payloads are read back

Each reader of a value accepts exactly what its writer writes (`readTu64_iff` to
`readPaymentData_iff`). A stream of known types is the sequence of its optional records
(`split_known`), so `decode` accepts, of the streams without other types, exactly what `encode`
writes.
-/

namespace Wire.Tlv

open Bytes Digits

/-! ## Truncated integers -/

theorem shift_or (out : Nat) (b : UInt8) : out <<< 8 ||| b.toNat = out * 256 + b.toNat := by
  rw [← Nat.shiftLeft_add_eq_or_of_lt b.toNat_lt, Nat.shiftLeft_eq]

theorem foldl_shift (l : List UInt8) (acc : Nat) :
    l.foldl (fun out b => (out <<< 8 ||| b.toNat) % 2 ^ 64) (acc % 2 ^ 64) =
      (acc * 256 ^ l.length + val 256 l) % 2 ^ 64 := by
  induction l generalizing acc with
  | nil => simp
  | cons b l ih =>
    have hstep : (acc % 2 ^ 64 * 256 + b.toNat) % 2 ^ 64 = (acc * 256 + b.toNat) % 2 ^ 64 := by omega
    rw [List.foldl_cons, shift_or, hstep, ih, val_cons, List.length_cons, Nat.pow_succ']
    ring_nf

theorem val_lt_of_length {l : List UInt8} {n : Nat} (h : l.length ≤ n) : val 256 l < 256 ^ n :=
  Nat.lt_of_lt_of_le (val_lt (valid_byte l)) (Nat.pow_le_pow_right (by decide) h)

/-- The value of at most 8 bytes. -/
theorem foldl_shift_eq {l : List UInt8} (h : l.length ≤ 8) :
    l.foldl (fun out b => (out <<< 8 ||| b.toNat) % 2 ^ 64) 0 = val 256 l := by
  have hlt : val 256 l < 2 ^ 64 := val_lt_of_length h
  have hfold := foldl_shift l 0
  rw [Nat.zero_mul, Nat.zero_add, Nat.mod_eq_of_lt hlt] at hfold
  exact hfold

theorem val_beBytes (w v : Nat) : val 256 (beBytes w v) = v % 256 ^ w := beVal_beBytes w v

theorem val_writeTu64 {v : Nat} (h : v < 2 ^ 64) : val 256 (writeTu64 v) = v := by
  rw [writeTu64, val_strip, val_beBytes]
  exact Nat.mod_eq_of_lt h

theorem length_writeTu64_le (v : Nat) : (writeTu64 v).length ≤ 8 := by
  have hsub := (List.dropWhile_sublist (fun d : UInt8 => decide (d = 0)) (l := beBytes 8 v)).length_le
  rwa [length_beBytes] at hsub

theorem head_writeTu64 (v : Nat) : (writeTu64 v).head? ≠ some 0 := head_strip _

theorem eq_writeTu64 {l : List UInt8} (hlen : l.length ≤ 8) (hhead : l.head? ≠ some 0) :
    l = writeTu64 (val 256 l) ∧ val 256 l < 2 ^ 64 := by
  have hlt : val 256 l < 2 ^ 64 := val_lt_of_length hlen
  refine ⟨?_, hlt⟩
  exact val_inj_of_head (valid_byte l) (valid_byte _) hhead (head_strip _) (val_writeTu64 hlt).symm

theorem readTu64_iff {l : List UInt8} {v : Nat} :
    readTu64 l = .ok v ↔ v < 2 ^ 64 ∧ l = writeTu64 v := by
  unfold readTu64
  constructor
  · intro h
    split at h
    · cases h
    split at h
    · cases h
    next hlen hhead =>
    rw [foldl_shift_eq (Nat.not_lt.1 hlen)] at h
    obtain rfl := Except.ok.inj h
    exact (eq_writeTu64 (Nat.not_lt.1 hlen) hhead).symm
  · rintro ⟨hlt, rfl⟩
    rw [if_neg (Nat.not_lt.2 (length_writeTu64_le v)), if_neg (head_writeTu64 v),
      foldl_shift_eq (length_writeTu64_le v), val_writeTu64 hlt]

theorem readTu32_iff {l : List UInt8} {v : Nat} :
    readTu32 l = .ok v ↔ v < 2 ^ 32 ∧ l = writeTu32 v := by
  unfold readTu32 writeTu32
  constructor
  · intro h
    split at h
    · cases h
    next hlen =>
    cases hread : readTu64 l with
    | error e =>
      rw [hread] at h
      cases h
    | ok w =>
      rw [hread] at h
      obtain rfl : w % 2 ^ 32 = v := Except.ok.inj h
      obtain ⟨hlt, hl⟩ := readTu64_iff.1 hread
      have hsmall : w < 2 ^ 32 := by
        rw [← val_writeTu64 hlt, ← hl]
        exact val_lt_of_length (Nat.not_lt.1 hlen)
      rw [Nat.mod_eq_of_lt hsmall]
      exact ⟨hsmall, hl⟩
  · rintro ⟨hlt, rfl⟩
    have hlt' : v < 2 ^ 64 := by omega
    have hlen : (writeTu64 v).length ≤ 4 := by
      refine length_le_of_val_lt (valid_byte _) (head_writeTu64 v) ?_
      exact (val_writeTu64 hlt').trans_lt hlt
    rw [if_neg (Nat.not_lt.2 hlen), readTu64_iff.2 ⟨hlt', rfl⟩]
    exact congrArg Except.ok (Nat.mod_eq_of_lt hlt)

/-! ## Streams of known types -/

/-- Records in ascending order start with the record of the least type, if they have one. -/
theorem Stream.split {t : Nat} {ts : List Nat} {records : List TlvRecord} (h : Stream records)
    (hknown : ∀ r ∈ records, r.typ ∈ t :: ts) (hleast : ∀ t' ∈ ts, t < t') :
    ∃ value rest, records = optional t value ++ rest ∧ Stream rest ∧ ∀ r ∈ rest, r.typ ∈ ts := by
  cases records with
  | nil => exact ⟨none, [], rfl, h, fun _ => nofun⟩
  | cons r rest =>
    obtain ⟨hr, hrest⟩ := List.pairwise_cons.1 h.ascending
    have hstream : Stream rest := ⟨hrest, fun q hq => h.typ_lt q (List.mem_cons_of_mem _ hq),
      fun q hq => h.length_lt q (List.mem_cons_of_mem _ hq)⟩
    rcases List.mem_cons.1 (hknown r List.mem_cons_self) with rfl | hmem
    · refine ⟨some r.value, rest, rfl, hstream, fun q hq => ?_⟩
      have hq' := hknown q (List.mem_cons_of_mem _ hq)
      exact (List.mem_cons.1 hq').resolve_left (hr q hq).ne'
    · refine ⟨none, r :: rest, rfl, h, fun q hq => ?_⟩
      have habove : t < q.typ := by
        rcases List.mem_cons.1 hq with rfl | hq
        · exact hleast _ hmem
        · exact (hleast _ hmem).trans (hr q hq)
      exact (List.mem_cons.1 (hknown q hq)).resolve_left habove.ne'

/-- The optional records of ascending types make a stream. -/
theorem stream_optional {t : Nat} {value : Option (List UInt8)} {rest : List TlvRecord}
    (hrest : Stream rest) (habove : ∀ r ∈ rest, t < r.typ) (ht : t < 2 ^ 64)
    (hvalue : ∀ v ∈ value, v.length < 2 ^ 64) : Stream (optional t value ++ rest) := by
  cases value with
  | none => exact hrest
  | some v =>
    refine ⟨List.pairwise_cons.2 ⟨habove, hrest.ascending⟩, ?_, ?_⟩
    · exact List.forall_mem_cons.2 ⟨ht, hrest.typ_lt⟩
    · exact List.forall_mem_cons.2 ⟨hvalue v rfl, hrest.length_lt⟩

theorem typ_of_mem_optional {t : Nat} {value : Option (List UInt8)} {r : TlvRecord}
    (h : r ∈ optional t value) : r.typ = t := by
  cases value with
  | none => cases h
  | some v => rw [List.mem_singleton.1 h]

theorem checkUnknownEven_ok {records : List TlvRecord} {known : List Nat}
    (h : ∀ r ∈ records, r.typ ∈ known) : checkUnknownEven records known = .ok () := by
  have hnone : records.find? (fun r => decide (r.typ % 2 = 0 ∧ r.typ ∉ known)) = none := by
    refine List.find?_eq_none.2 fun r hr => ?_
    simp [h r hr]
  rw [checkUnknownEven, hnone]

end Wire.Tlv

namespace Onion.HopPayload

open Bytes Wire Tlv

/-- Amounts and ids are `u64`s, the expiry is a `u32`. -/
structure Fits (p : HopPayload) : Prop where
  amtToForward : p.amtToForward < 2 ^ 64
  outgoingCltvValue : p.outgoingCltvValue < 2 ^ 32
  shortChannelId : ∀ scid ∈ p.shortChannelId, scid < 2 ^ 64
  totalMsat : ∀ pd ∈ p.paymentData, pd.totalMsat < 2 ^ 64
  paymentMetadata : ∀ md ∈ p.paymentMetadata, md.length < 2 ^ 64

/-- A TLV stream without other types than those of hop payloads. -/
def OnlyKnown (data : List UInt8) : Prop :=
  ∃ records, parseStream data = .ok records ∧ ∀ r ∈ records, r.typ ∈ [2, 4, 6, 8, 16]

def paymentDataValue (pd : PaymentData) : List UInt8 :=
  pd.paymentSecret.toList ++ writeTu64 pd.totalMsat

theorem readShortChannelId_iff {value : List UInt8} {scid : ShortChannelId} :
    readShortChannelId value = .ok scid ↔ scid < 2 ^ 64 ∧ value = beBytes 8 scid := by
  unfold readShortChannelId
  constructor
  · intro h
    split at h
    · cases h
    next hlen =>
    obtain rfl := Except.ok.inj h
    have hlt := beVal_lt value
    have hbytes := beBytes_beVal value
    rw [not_not.1 hlen] at hlt hbytes
    exact ⟨hlt, hbytes.symm⟩
  · rintro ⟨hlt, rfl⟩
    rw [if_neg (not_not.2 (length_beBytes 8 scid)), beVal_beBytes]
    exact congrArg Except.ok (Nat.mod_eq_of_lt hlt)

theorem readPaymentData_iff {value : List UInt8} {pd : PaymentData} :
    readPaymentData value = .ok pd ↔ pd.totalMsat < 2 ^ 64 ∧ value = paymentDataValue pd := by
  unfold readPaymentData
  constructor
  · intro h
    split at h
    · cases h
    cases htotal : readTu64 (value.drop 32) with
    | error e =>
      rw [htotal] at h
      cases h
    | ok total =>
      rw [htotal] at h
      obtain rfl := Except.ok.inj h
      obtain ⟨hlt, hdrop⟩ := readTu64_iff.1 htotal
      refine ⟨hlt, ?_⟩
      show value = value.take 32 ++ writeTu64 total
      rw [← hdrop, List.take_append_drop]
  · rintro ⟨hlt, rfl⟩
    have hlen : pd.paymentSecret.toList.length = 32 := Vector.length_toList
    have htake : (paymentDataValue pd).take 32 = pd.paymentSecret.toList := List.take_left' hlen
    have hdrop : (paymentDataValue pd).drop 32 = writeTu64 pd.totalMsat := List.drop_left' hlen
    have hlong : ¬ (paymentDataValue pd).length < 32 := by
      rw [paymentDataValue, List.length_append, hlen]
      omega
    rw [dif_neg hlong, hdrop, readTu64_iff.2 ⟨hlt, rfl⟩]
    refine congrArg (fun secret => Except.ok (PaymentData.mk secret pd.totalMsat)) ?_
    apply Vector.toList_inj.1
    exact htake

/-! ## The loop over the records -/

/-- What the loop finds in the optional records of the known types. -/
def findIn (amt cltv scid pd md : Option (List UInt8)) : Except WireError Found := do
  let amt ← amt.mapM readTu64
  let cltv ← cltv.mapM readTu32
  let scid ← scid.mapM readShortChannelId
  let paymentData ← pd.mapM readPaymentData
  return { amt, cltv, scid, paymentData, paymentMetadata := md }

theorem foldlM_optional (t : Nat) (value : Option (List UInt8)) (found : Found) :
    (optional t value).foldlM readRecord found =
      match value with
      | none => .ok found
      | some v => readRecord found ⟨t, v⟩ := by
  cases value with
  | none => rfl
  | some v => exact List.foldlM_cons.trans (bind_pure _)

section
variable {ε α β : Type} {x : Except ε α} {f : α → Except ε β}

theorem ok_bind (a : α) : (Except.ok a >>= f) = f a := rfl

theorem bind_eq_ok {b : β} : x >>= f = .ok b ↔ ∃ a, x = .ok a ∧ f a = .ok b := by
  cases x with
  | error e => exact ⟨nofun, fun ⟨a, ha, _⟩ => nomatch ha⟩
  | ok a => exact ⟨fun h => ⟨a, rfl, h⟩, fun ⟨a', ha, h⟩ => Except.ok.inj ha ▸ h⟩

end

theorem foldlM_known (amt cltv scid pd md : Option (List UInt8)) :
    (optional 2 amt ++ (optional 4 cltv ++ (optional 6 scid ++ (optional 8 pd ++ optional 16 md)))).foldlM
      readRecord {} = findIn amt cltv scid pd md := by
  simp only [List.foldlM_append, foldlM_optional, findIn]
  cases amt <;> cases cltv <;> cases scid <;> cases pd <;> cases md <;>
    simp [readRecord, ok_bind, Except.pure, pure, map_eq_pure_bind]

theorem mapM_eq_ok_iff {α : Type} {read : List UInt8 → Except WireError α} {write : α → List UInt8}
    {fits : α → Prop} (hread : ∀ l a, read l = .ok a ↔ fits a ∧ l = write a)
    {value : Option (List UInt8)} {o : Option α} :
    value.mapM read = .ok o ↔ (∀ a ∈ o, fits a) ∧ value = o.map write := by
  cases value with
  | none => cases o <;> simp [pure, Except.pure]
  | some l =>
    have hsome : (some l).mapM read = some <$> read l := rfl
    rw [hsome]
    cases hl : read l with
    | error e =>
      have hno : ∀ a, ¬ (fits a ∧ l = write a) := by
        intro a ha
        cases hl.symm.trans ((hread l a).2 ha)
      cases o with
      | none => simp
      | some a => simpa using hno a
    | ok a =>
      obtain ⟨hfits, rfl⟩ := (hread l a).1 hl
      constructor
      · intro h
        obtain rfl := Except.ok.inj h
        exact ⟨fun b hb => Option.mem_some.1 hb ▸ hfits, rfl⟩
      · rintro ⟨hall, hvalue⟩
        obtain ⟨b, rfl, hb⟩ := Option.map_eq_some_iff.1 hvalue.symm
        have hok := (hread (write a) b).2 ⟨hall b rfl, hb.symm⟩
        obtain rfl := Except.ok.inj (hl.symm.trans hok)
        rfl

/-- What is found is what was written. -/
theorem findIn_iff {amt cltv scid pd md : Option (List UInt8)} {found : Found} :
    findIn amt cltv scid pd md = .ok found ↔
      ((∀ a ∈ found.amt, a < 2 ^ 64) ∧ amt = found.amt.map writeTu64) ∧
      ((∀ c ∈ found.cltv, c < 2 ^ 32) ∧ cltv = found.cltv.map writeTu32) ∧
      ((∀ s ∈ found.scid, s < 2 ^ 64) ∧ scid = found.scid.map (beBytes 8)) ∧
      ((∀ d ∈ found.paymentData, d.totalMsat < 2 ^ 64) ∧ pd = found.paymentData.map paymentDataValue) ∧
      md = found.paymentMetadata := by
  rw [← mapM_eq_ok_iff fun l a => readTu64_iff, ← mapM_eq_ok_iff fun l a => readTu32_iff,
    ← mapM_eq_ok_iff fun l a => readShortChannelId_iff, ← mapM_eq_ok_iff fun l a => readPaymentData_iff]
  simp only [findIn, bind_eq_ok]
  constructor
  · rintro ⟨a, ha, c, hc, i, hi, d, hd, h⟩
    obtain rfl := Except.ok.inj h
    exact ⟨ha, hc, hi, hd, rfl⟩
  · rintro ⟨ha, hc, hi, hd, rfl⟩
    exact ⟨_, ha, _, hc, _, hi, _, hd, rfl⟩

/-! ## Payloads -/

/-- The records of a payload. -/
def records (p : HopPayload) : List TlvRecord :=
  optional 2 (some (writeTu64 p.amtToForward)) ++ (optional 4 (some (writeTu32 p.outgoingCltvValue)) ++
    (optional 6 (p.shortChannelId.map (beBytes 8)) ++ (optional 8 (p.paymentData.map paymentDataValue) ++
      optional 16 p.paymentMetadata)))

theorem encode_eq (p : HopPayload) : p.encode = writeStream p.records := by
  simp only [records, writeStream, List.flatMap_append, flatMap_optional, encode, List.append_assoc]
  rfl

theorem typ_of_mem_records {p : HopPayload} {r : TlvRecord} (h : r ∈ p.records) :
    r.typ ∈ [2, 4, 6, 8, 16] := by
  simp only [records, List.mem_append] at h
  simp only [List.mem_cons, List.not_mem_nil, or_false]
  exact h.imp typ_of_mem_optional (Or.imp typ_of_mem_optional (Or.imp typ_of_mem_optional
    (Or.imp typ_of_mem_optional typ_of_mem_optional)))

theorem stream_records {p : HopPayload} (h : p.Fits) : Stream p.records := by
  have hshort : ∀ v : Nat, (writeTu64 v).length < 2 ^ 64 := fun v =>
    Nat.lt_of_le_of_lt (length_writeTu64_le v) (by decide)
  have hmd : Stream (optional 16 p.paymentMetadata) := by
    have hnil : Stream [] := ⟨.nil, fun _ => nofun, fun _ => nofun⟩
    simpa using stream_optional hnil (fun _ => nofun) (by decide : 16 < 2 ^ 64) h.paymentMetadata
  refine stream_optional ?_ ?_ (by decide) (by simpa using hshort p.amtToForward)
  · refine stream_optional ?_ ?_ (by decide) (by simpa [writeTu32] using hshort p.outgoingCltvValue)
    · refine stream_optional (stream_optional hmd ?_ (by decide) ?_) ?_ (by decide) ?_
      · intro r hr
        rw [typ_of_mem_optional hr]
        decide
      · intro v hv
        obtain ⟨pd, -, rfl⟩ := Option.map_eq_some_iff.1 hv
        have hlen := length_writeTu64_le pd.totalMsat
        rw [paymentDataValue, List.length_append, Vector.length_toList]
        omega
      · intro r hr
        rcases List.mem_append.1 hr with hr | hr
        · rw [typ_of_mem_optional hr]
          decide
        · rw [typ_of_mem_optional hr]
          decide
      · intro v hv
        obtain ⟨scid, -, rfl⟩ := Option.map_eq_some_iff.1 hv
        rw [length_beBytes]
        decide
    · intro r hr
      have htyp : r.typ = 6 ∨ r.typ = 8 ∨ r.typ = 16 := by
        simp only [List.mem_append] at hr
        exact hr.imp typ_of_mem_optional (Or.imp typ_of_mem_optional typ_of_mem_optional)
      omega
  · intro r hr
    have htyp : r.typ = 4 ∨ r.typ = 6 ∨ r.typ = 8 ∨ r.typ = 16 := by
      simp only [List.mem_append] at hr
      exact hr.imp typ_of_mem_optional (Or.imp typ_of_mem_optional (Or.imp typ_of_mem_optional
        typ_of_mem_optional))
    omega

/-- A stream of known types is the sequence of its optional records. -/
theorem split_known {records : List TlvRecord} (h : Stream records)
    (hknown : ∀ r ∈ records, r.typ ∈ [2, 4, 6, 8, 16]) : ∃ amt cltv scid pd md,
    records = optional 2 amt ++ (optional 4 cltv ++ (optional 6 scid ++ (optional 8 pd ++ optional 16 md))) := by
  obtain ⟨amt, rest, rfl, h, hknown⟩ := h.split hknown (by decide)
  obtain ⟨cltv, rest, rfl, h, hknown⟩ := h.split hknown (by decide)
  obtain ⟨scid, rest, rfl, h, hknown⟩ := h.split hknown (by decide)
  obtain ⟨pd, rest, rfl, h, hknown⟩ := h.split hknown (by decide)
  obtain ⟨md, rest, rfl, -, hknown⟩ := h.split hknown (fun _ => nofun)
  obtain rfl : rest = [] := List.eq_nil_iff_forall_not_mem.2 fun r hr => nomatch hknown r hr
  exact ⟨amt, cltv, scid, pd, md, by rw [List.append_nil]⟩

/-- What `decode` makes of the fields found. -/
theorem decode_eq {data : List UInt8} {records : List TlvRecord} {amt cltv scid pd md : Option (List UInt8)}
    (hparse : parseStream data = .ok records) (hknown : ∀ r ∈ records, r.typ ∈ [2, 4, 6, 8, 16])
    (hrecords : records = optional 2 amt ++ (optional 4 cltv ++ (optional 6 scid ++ (optional 8 pd ++
      optional 16 md)))) (p : HopPayload) :
    decode data = .ok p ↔ findIn amt cltv scid pd md = .ok ⟨some p.amtToForward, some p.outgoingCltvValue,
      p.shortChannelId, p.paymentData, p.paymentMetadata⟩ := by
  have hfold := foldlM_known amt cltv scid pd md
  rw [← hrecords] at hfold
  simp only [decode, hparse, checkUnknownEven_ok hknown, hfold, ok_bind]
  rw [bind_eq_ok]
  constructor
  · rintro ⟨found, hfound, h⟩
    obtain ⟨amt', cltv', scid', pd', md'⟩ := found
    cases amt' with
    | none => cases h
    | some a =>
      cases cltv' with
      | none => cases h
      | some c =>
        obtain rfl := Except.ok.inj h
        exact hfound
  · intro hfound
    exact ⟨_, hfound, rfl⟩

/-- Of the streams without other types `decode` accepts exactly the encodings, each as its payload. -/
theorem decode_eq_ok_iff (data : List UInt8) (p : HopPayload) :
    decode data = .ok p ∧ OnlyKnown data ↔ p.Fits ∧ data = p.encode := by
  constructor
  · rintro ⟨hdecode, records, hparse, hknown⟩
    obtain ⟨hstream, rfl⟩ := (parseStream_eq_ok_iff data records).1 hparse
    obtain ⟨amt, cltv, scid, pd, md, hrecords⟩ := split_known hstream hknown
    have hfound := (decode_eq hparse hknown hrecords p).1 hdecode
    obtain ⟨⟨ha, rfl⟩, ⟨hc, rfl⟩, ⟨hs, rfl⟩, ⟨hd, rfl⟩, rfl⟩ := findIn_iff.1 hfound
    have hsame : records = p.records := hrecords
    refine ⟨⟨ha _ rfl, hc _ rfl, hs, hd, fun md hmd => ?_⟩, by rw [encode_eq, hsame]⟩
    refine hstream.length_lt ⟨16, md⟩ ?_
    have hmem : (⟨16, md⟩ : TlvRecord) ∈ optional 16 p.paymentMetadata := by
      rw [Option.mem_def.1 hmd]
      exact List.mem_singleton_self _
    rw [hsame]
    simp only [HopPayload.records, List.mem_append]
    exact .inr (.inr (.inr (.inr hmem)))
  · rintro ⟨hfits, rfl⟩
    have hparse : parseStream p.encode = .ok p.records :=
      (parseStream_eq_ok_iff _ _).2 ⟨stream_records hfits, encode_eq p⟩
    have hknown : ∀ r ∈ p.records, r.typ ∈ [2, 4, 6, 8, 16] := fun r => typ_of_mem_records
    refine ⟨(decode_eq hparse hknown rfl p).2 ?_, p.records, hparse, hknown⟩
    refine findIn_iff.2 ⟨⟨?_, rfl⟩, ⟨?_, rfl⟩, ⟨hfits.shortChannelId, rfl⟩, ⟨hfits.totalMsat, rfl⟩, rfl⟩
    · exact fun a ha => Option.mem_some.1 ha ▸ hfits.amtToForward
    · exact fun c hc => Option.mem_some.1 hc ▸ hfits.outgoingCltvValue

end Onion.HopPayload
