import Keraunos.Invoice.Proof.Bech32
import Keraunos.Invoice.Proof.Groups

/-!
# Invoices are read back

`Bolt11Invoice.parse` of what `InvoiceBuilder.encodeSigned` writes gives the builder's fields and the
signer as payee (`InvoiceBuilder.parse_encodeSigned`). Part by part: the amount and the prefix of the
network, the byte strings packed into groups, and the loop over the tagged fields, one step for each
field that was written (`readFields_tagged`).
-/

namespace Invoice

open Digits Bech32 Bytes

/-! ## Amounts -/

theorem parseU64_toDigits {v : Nat} (h : v < 2 ^ 64) : parseU64 (Nat.toDigits 10 v) = some v := by
  simp only [parseU64, Nat.ofDigitChars_ten_toDigits, h, if_true]

theorem isDigit_of_mem_toDigits {v : Nat} : ∀ c ∈ Nat.toDigits 10 v, c.isDigit = true :=
  fun _ hc => Nat.isDigit_of_mem_toDigits (by decide) (by decide) hc

/-- A number and a letter that stands for a multiplier. -/
theorem parseAmount_toDigits {v multiplier : Nat} {unit : Char} (hv : v < 2 ^ 64)
    (hunit : ∀ s, amountUnit s unit = some (s.dropLast, multiplier)) :
    parseAmount (Nat.toDigits 10 v ++ [unit]) =
      if multiplier = 0 then
        if v % 10 ≠ 0 then .error .badAmount else .ok (some (v / 10))
      else if v * multiplier < 2 ^ 64 then .ok (some (v * multiplier)) else .error .badAmount := by
  have hdigits : ¬ (Nat.toDigits 10 v = [] ∨ ¬ (Nat.toDigits 10 v).all Char.isDigit) := by
    rintro (hnil | hall)
    · exact Nat.toDigits_ne_nil hnil
    · exact hall (List.all_eq_true.2 isDigit_of_mem_toDigits)
  simp only [parseAmount, List.getLast?_concat, hunit, List.dropLast_concat, if_neg hdigits,
    parseU64_toDigits hv]

/-- An amount is read back when its product with 10 does not wrap, where that is the encoding. -/
theorem parseAmount_encodeAmount {m : Nat} (hm : m < 2 ^ 64) (h : m % 100 = 0 ∨ m * 10 < 2 ^ 64) :
    parseAmount (encodeAmount m) = .ok (some m) := by
  unfold encodeAmount
  split
  · next hmod =>
    have hmul : m / 100000000 * 100000000 = m := Nat.div_mul_cancel (Nat.dvd_of_mod_eq_zero hmod)
    have hunit : ∀ s, amountUnit s 'm' = some (s.dropLast, 100000000) := fun s => rfl
    rw [parseAmount_toDigits (by omega) hunit, if_neg (by decide), hmul, if_pos hm]
  split
  · next hmod =>
    have hmul : m / 100000 * 100000 = m := Nat.div_mul_cancel (Nat.dvd_of_mod_eq_zero hmod)
    have hunit : ∀ s, amountUnit s 'u' = some (s.dropLast, 100000) := fun s => rfl
    rw [parseAmount_toDigits (by omega) hunit, if_neg (by decide), hmul, if_pos hm]
  split
  · next hmod =>
    have hmul : m / 100 * 100 = m := Nat.div_mul_cancel (Nat.dvd_of_mod_eq_zero hmod)
    have hunit : ∀ s, amountUnit s 'n' = some (s.dropLast, 100) := fun s => rfl
    rw [parseAmount_toDigits (by omega) hunit, if_neg (by decide), hmul, if_pos hm]
  · next hmod =>
    have hlt : m * 10 < 2 ^ 64 := h.resolve_left hmod
    have hunit : ∀ s, amountUnit s 'p' = some (s.dropLast, 0) := fun s => rfl
    rw [Nat.mod_eq_of_lt hlt, parseAmount_toDigits hlt hunit, if_pos rfl, Nat.mul_mod_left,
      if_neg (not_not.2 rfl), Nat.mul_div_cancel _ (by decide)]

/-- An amount is digits and a letter. -/
theorem exists_encodeAmount (m : Nat) :
    ∃ v unit, encodeAmount m = Nat.toDigits 10 v ++ [unit] ∧ unit ∈ ['m', 'u', 'n', 'p'] := by
  unfold encodeAmount
  split
  · exact ⟨_, _, rfl, by decide⟩
  split
  · exact ⟨_, _, rfl, by decide⟩
  split
  · exact ⟨_, _, rfl, by decide⟩
  · exact ⟨_, _, rfl, by decide⟩

/-! ## The human-readable part -/

theorem isUpper_of_isDigit {c : Char} (h : c.isDigit = true) : c.isUpper = false := by
  have hc := Char.isDigit_iff_toNat.1 h
  have hle : c.toNat < 'A'.toNat := Nat.lt_of_le_of_lt hc.2 (by decide)
  exact decide_eq_false fun hup => Nat.not_le.2 hle (UInt32.le_iff_toNat_le.1 hup.1)

theorem isUpper_encodeAmount (m : Nat) : ∀ c ∈ encodeAmount m, c.isUpper = false := by
  obtain ⟨v, unit, heq, hunit⟩ := exists_encodeAmount m
  intro c hc
  rw [heq] at hc
  cases List.mem_append.1 hc with
  | inl hc => exact isUpper_of_isDigit (isDigit_of_mem_toDigits c hc)
  | inr hc =>
    rw [List.mem_singleton.1 hc]
    simp only [List.mem_cons, List.not_mem_nil, or_false] at hunit
    rcases hunit with rfl | rfl | rfl | rfl <;> rfl

theorem isUpper_hrp (b : InvoiceBuilder) : ∀ c ∈ b.hrp, c.isUpper = false := by
  intro c hc
  cases List.mem_append.1 hc with
  | inl hc =>
    have hnames : ∀ n : Network, (['l', 'n'] ++ n.invoiceHrp).all (!·.isUpper) = true := by
      intro n
      cases n <;> rfl
    simpa using List.all_eq_true.1 (hnames b.network) c hc
  | inr hc =>
    cases hm : b.amountMsat with
    | none =>
      rw [hm] at hc
      cases hc
    | some m =>
      rw [hm] at hc
      exact isUpper_encodeAmount m c hc

theorem head_encodeAmount {m : Nat} {c : Char} {rest : List Char} (h : encodeAmount m = c :: rest) :
    c.isDigit = true := by
  obtain ⟨v, unit, heq, -⟩ := exists_encodeAmount m
  cases hv : Nat.toDigits 10 v with
  | nil => exact absurd hv Nat.toDigits_ne_nil
  | cons d ds =>
    rw [heq, hv] at h
    injection h with hd
    rw [← hd]
    exact isDigit_of_mem_toDigits d (hv ▸ List.mem_cons_self)

/-- An amount starts with a digit, so it does not continue a network's prefix to another's. -/
theorem splitHrp_hrp (b : InvoiceBuilder) :
    splitHrp b.hrp = some (b.network, (b.amountMsat.map encodeAmount).getD []) := by
  have hhead : ∀ c rest, (b.amountMsat.map encodeAmount).getD [] = c :: rest → 'r' ≠ c ∧ 's' ≠ c := by
    intro c rest h
    cases hm : b.amountMsat with
    | none => simp [hm] at h
    | some m =>
      rw [hm] at h
      have hdigit := head_encodeAmount h
      exact ⟨fun hr => by simp [← hr] at hdigit, fun hs => by simp [← hs] at hdigit⟩
  unfold InvoiceBuilder.hrp
  generalize (b.amountMsat.map encodeAmount).getD [] = amount at hhead ⊢
  cases b.network <;> cases amount with
  | nil => rfl
  | cons c rest =>
    obtain ⟨hr, hs⟩ := hhead c rest rfl
    simp [splitHrp, Network.invoiceHrp, List.isPrefixOf?, hr, hs]

/-! ## Byte strings -/

/-- The groups of a byte string. -/
def groupsOf (bytes : List UInt8) : List UInt8 := (packed bytes).getD []

theorem packed_eq (bytes : List UInt8) :
    packed bytes = some (groupsOf bytes) ∧ ∃ k, Padded 8 5 bytes (groupsOf bytes) k := by
  obtain ⟨out, k, heq, hpad⟩ := convertBits_pad (show 8 ≤ 8 by decide) (show 0 < 5 by decide)
    (by decide) (valid_byte bytes)
  have hout : packed bytes = some out := by
    rw [packed, heq]
    rfl
  rw [groupsOf, hout]
  exact ⟨rfl, k, hpad⟩

theorem valid_groupsOf (bytes : List UInt8) : Valid (2 ^ 5) (groupsOf bytes) :=
  let ⟨_, _, hpad⟩ := packed_eq bytes
  hpad.valid

theorem length_groupsOf (bytes : List UInt8) :
    (groupsOf bytes).length = (bytes.length * 8 + 4) / 5 := by
  obtain ⟨-, k, hpad⟩ := packed_eq bytes
  have hlen := hpad.length
  have hk := hpad.lt
  omega

theorem convertBits_groupsOf (bytes : List UInt8) : convertBits (groupsOf bytes) 5 8 false = .ok bytes :=
  let ⟨_, _, hpad⟩ := packed_eq bytes
  hpad.convertBits_false

theorem firstBytes_append {n : Nat} (v : Vector UInt8 n) (tail : List UInt8) :
    firstBytes n (v.toList ++ tail) = some v := by
  have hlen : n ≤ (v.toList ++ tail).length := by simp
  rw [firstBytes, dif_pos hlen]
  congr 1
  apply Vector.toList_inj.1
  simp [Vector.toList]

theorem readBytes32_groupsOf (v : Bytes32) : readBytes32 (groupsOf v.toList) = .ok v := by
  obtain ⟨-, k, hpad⟩ := packed_eq v.toList
  obtain ⟨tail, htail⟩ := hpad.convertBits_true
  rw [readBytes32, htail]
  change Fault.expect (firstBytes 32 (v.toList ++ tail)) = _
  rw [firstBytes_append]
  rfl

/-! ## Route hints -/

/-- The fields have their source types. -/
structure Hop.Fits (hop : RouteHintHop) : Prop where
  shortChannelId : hop.shortChannelId < 2 ^ 64
  feeBaseMsat : hop.feeBaseMsat < 2 ^ 32
  feeProportionalMillionths : hop.feeProportionalMillionths < 2 ^ 32
  cltvExpiryDelta : hop.cltvExpiryDelta < 2 ^ 16

section
variable {K : KeyParsers}

@[simp] theorem length_hopBytes (hop : RouteHintHop) : (hopBytes hop).length = 51 := by
  simp [hopBytes]

theorem beVal_beBytes_of_lt {w v : Nat} (h : v < 2 ^ (8 * w)) : beVal (beBytes w v) = v := by
  rw [beVal_beBytes]
  exact Nat.mod_eq_of_lt (by rwa [show 256 = 2 ^ 8 from rfl, ← Nat.pow_mul])

theorem take_drop_of_eq {l a b c : List UInt8} {i n : Nat} (hl : l = a ++ (b ++ c))
    (ha : a.length = i) (hb : b.length = n) : (l.drop i).take n = b := by
  subst hl ha hb
  simp

theorem readHop_hopBytes {hop : RouteHintHop} (h : Hop.Fits hop)
    (hkey : K.fromSlice hop.srcNodeId.serialize = some hop.srcNodeId) :
    readHop K (hopBytes hop) = .ok hop := by
  have hnode : (hopBytes hop).take 33 = hop.srcNodeId.serialize := by
    simp [hopBytes, List.append_assoc]
  have hscid : ((hopBytes hop).drop 33).take 8 = beBytes 8 hop.shortChannelId :=
    take_drop_of_eq (a := hop.srcNodeId.serialize)
      (c := beBytes 4 hop.feeBaseMsat ++ beBytes 4 hop.feeProportionalMillionths ++
        beBytes 2 hop.cltvExpiryDelta) (by simp [hopBytes]) (by simp) (by simp)
  have hbase : ((hopBytes hop).drop 41).take 4 = beBytes 4 hop.feeBaseMsat :=
    take_drop_of_eq (a := hop.srcNodeId.serialize ++ beBytes 8 hop.shortChannelId)
      (c := beBytes 4 hop.feeProportionalMillionths ++ beBytes 2 hop.cltvExpiryDelta)
      (by simp [hopBytes]) (by simp) (by simp)
  have hprop : ((hopBytes hop).drop 45).take 4 = beBytes 4 hop.feeProportionalMillionths :=
    take_drop_of_eq (a := hop.srcNodeId.serialize ++ beBytes 8 hop.shortChannelId ++
        beBytes 4 hop.feeBaseMsat) (c := beBytes 2 hop.cltvExpiryDelta)
      (by simp [hopBytes]) (by simp) (by simp)
  have hcltv : ((hopBytes hop).drop 49).take 2 = beBytes 2 hop.cltvExpiryDelta :=
    take_drop_of_eq (a := hop.srcNodeId.serialize ++ beBytes 8 hop.shortChannelId ++
        beBytes 4 hop.feeBaseMsat ++ beBytes 4 hop.feeProportionalMillionths) (c := [])
      (by simp [hopBytes]) (by simp) (by simp)
  rw [readHop, hnode, hkey, hscid, hbase, hprop, hcltv, beVal_beBytes_of_lt h.shortChannelId,
    beVal_beBytes_of_lt h.feeBaseMsat, beVal_beBytes_of_lt h.feeProportionalMillionths,
    beVal_beBytes_of_lt h.cltvExpiryDelta]
  rfl

theorem length_flatMap_hopBytes (hint : List RouteHintHop) :
    (hint.flatMap hopBytes).length = 51 * hint.length := by
  induction hint with
  | nil => rfl
  | cons hop hint ih =>
    rw [List.flatMap_cons, List.length_append, length_hopBytes, ih, List.length_cons]
    omega

theorem chunksExact_append {chunk rest : List UInt8} {n : Nat} (hpos : 0 < n)
    (h : chunk.length = n) : chunksExact n (chunk ++ rest) = chunk :: chunksExact n rest := by
  have hcount : (chunk ++ rest).length / n = rest.length / n + 1 := by
    rw [List.length_append, h, Nat.add_comm, Nat.add_div_right _ hpos]
  have hdrop : ∀ i, (chunk ++ rest).drop (n * (i + 1)) = rest.drop (n * i) := fun i => by
    rw [Nat.mul_succ, Nat.add_comm, ← List.drop_drop, List.drop_left' h]
  rw [chunksExact, hcount, List.range_succ_eq_map, List.map_cons, List.map_map]
  congr 1
  · rw [Nat.mul_zero, List.drop_zero, List.take_left' h]
  · exact List.map_congr_left fun i _ => congrArg (List.take n) (hdrop i)

theorem chunksExact_flatMap (hint : List RouteHintHop) :
    chunksExact 51 (hint.flatMap hopBytes) = hint.map hopBytes := by
  induction hint with
  | nil => rfl
  | cons hop hint ih =>
    rw [List.flatMap_cons, chunksExact_append (by decide) (length_hopBytes hop), ih, List.map_cons]

theorem readRouteHint_groupsOf {hint : List RouteHintHop} (h : ∀ hop ∈ hint, Hop.Fits hop)
    (hkeys : ∀ hop ∈ hint, K.fromSlice hop.srcNodeId.serialize = some hop.srcNodeId) :
    readRouteHint K (groupsOf (hint.flatMap hopBytes)) = .ok hint := by
  have hmod : (hint.flatMap hopBytes).length % 51 = 0 := by
    rw [length_flatMap_hopBytes]
    exact Nat.mul_mod_right _ _
  rw [readRouteHint, convertBits_groupsOf]
  change (do Fault.require ((hint.flatMap hopBytes).length % 51 = 0) _
             (chunksExact 51 (hint.flatMap hopBytes)).mapM (readHop K)) = _
  rw [Fault.require, if_pos hmod, chunksExact_flatMap]
  change (hint.map hopBytes).mapM (readHop K) = _
  clear hmod
  induction hint with
  | nil => rfl
  | cons hop hint ih =>
    obtain ⟨hhop, h⟩ := List.forall_mem_cons.1 h
    obtain ⟨hkey, hkeys⟩ := List.forall_mem_cons.1 hkeys
    rw [List.map_cons, List.mapM_cons, readHop_hopBytes hhop hkey, ih h hkeys]
    rfl

/-! ## The loop over the fields -/

/-- A field the reader can frame. -/
structure Framed (field : UInt8 × List UInt8) : Prop where
  tag : field.1.toNat < 2 ^ 5
  length : field.2.length < 1024
  valid : Valid (2 ^ 5) field.2

/-- Fields as they are written. -/
def written (fields : List (UInt8 × List UInt8)) : List UInt8 :=
  fields.flatMap fun field => tagged field.1 field.2

/-- A byte string of up to 639 bytes. -/
theorem framed_groupsOf {tag : UInt8} {bytes : List UInt8} (htag : tag.toNat < 2 ^ 5)
    (h : bytes.length ≤ 639) : Framed (tag, groupsOf bytes) := by
  refine ⟨htag, ?_, valid_groupsOf bytes⟩
  rw [length_groupsOf]
  omega

theorem framed_minimalBase32Be {tag : UInt8} {v : Nat} (htag : tag.toNat < 2 ^ 5) (h : v < 2 ^ 64) :
    Framed (tag, minimalBase32Be v) :=
  ⟨htag, Nat.lt_of_le_of_lt (length_minimalBase32Be h) (by decide), (minimalBase32Be_spec v).1⟩

theorem written_append (l m : List (UInt8 × List UInt8)) :
    written (l ++ m) = written l ++ written m := List.flatMap_append

theorem written_cons (field : UInt8 × List UInt8) (l : List (UInt8 × List UInt8)) :
    written (field :: l) = tagged field.1 field.2 ++ written l := List.flatMap_cons

theorem valid_written {fields : List (UInt8 × List UInt8)} (h : ∀ f ∈ fields, Framed f) :
    Valid (2 ^ 5) (written fields) := by
  intro d hd
  obtain ⟨field, hf, hd⟩ := List.mem_flatMap.1 hd
  have hframed := h field hf
  have hlen := hframed.length
  have hhi : (UInt8.ofNat (field.2.length / 32)).toNat < 2 ^ 5 := by
    rw [UInt8.toNat_ofNat']
    omega
  have hlo : (UInt8.ofNat (field.2.length % 32)).toNat < 2 ^ 5 := by
    rw [UInt8.toNat_ofNat']
    omega
  exact valid_cons.2 ⟨hframed.tag, valid_cons.2 ⟨hhi, valid_cons.2 ⟨hlo, hframed.valid⟩⟩⟩ d hd

/-- One pass of the loop reads one field. -/
theorem readFields_tagged {found : TaggedFields} {field : UInt8 × List UInt8} (h : Framed field)
    (rest : List UInt8) :
    readFields K found (tagged field.1 field.2 ++ rest) =
      readField K found field.1 field.2 >>= fun found => readFields K found rest := by
  have hlen := h.length
  have hcount : (UInt8.ofNat (field.2.length / 32)).toNat * 32 +
      (UInt8.ofNat (field.2.length % 32)).toNat = field.2.length := by
    rw [UInt8.toNat_ofNat', UInt8.toNat_ofNat']
    omega
  rw [tagged, List.cons_append, List.cons_append, List.cons_append, readFields]
  simp only [hcount, List.length_append, List.take_left, List.drop_left]
  rw [if_neg (by omega)]
  cases readField K found field.1 field.2 <;> rfl

/-- The loop reads every field, in order. -/
theorem readFields_written {fields : List (UInt8 × List UInt8)} (h : ∀ f ∈ fields, Framed f)
    (found : TaggedFields) :
    readFields K found (written fields) =
      fields.foldlM (fun found field => readField K found field.1 field.2) found := by
  induction fields generalizing found with
  | nil =>
    rw [written, List.flatMap_nil, readFields]
    rfl
  | cons field fields ih =>
    obtain ⟨hf, hfields⟩ := List.forall_mem_cons.1 h
    rw [written, List.flatMap_cons, readFields_tagged hf, List.foldlM_cons]
    exact congrArg _ (funext fun found => ih hfields found)

end

theorem fromUTF8_toByteArray (text : String) :
    String.fromUTF8? ⟨text.toByteArray.data⟩ = some text := dif_pos text.isValidUTF8

end Invoice

open Invoice Digits Bech32

namespace InvoiceBuilder

/-! ## What a builder writes -/

/-- The integers have their source types. -/
structure Fits (b : InvoiceBuilder) : Prop where
  amountMsat : ∀ m ∈ b.amountMsat, m < 2 ^ 64
  expirySecs : ∀ x ∈ b.expirySecs, x < 2 ^ 64
  minFinalCltvExpiryDelta : ∀ c ∈ b.minFinalCltvExpiryDelta, c < 2 ^ 32
  routeHints : ∀ hint ∈ b.routeHints, ∀ hop ∈ hint, Hop.Fits hop

/-- What an invoice has room for: a field holds at most 1023 groups, an amount that is not a multiple
of 100 msat stands in units of 0.1 msat, and leading zeros of the features are not written. -/
structure Encodable (b : InvoiceBuilder) : Prop where
  timestamp : b.timestamp < 2 ^ 35
  amount : ∀ m ∈ b.amountMsat, m % 100 = 0 ∨ m * 10 < 2 ^ 64
  features_head : b.features.head? ≠ some 0
  features_bits : val (2 ^ 8) b.features < 2 ^ (5 * 1023)
  description : ∀ text, b.description = .direct text → text.utf8ByteSize ≤ 639
  routeHints : ∀ hint ∈ b.routeHints, hint.length ≤ 12

/-- The description's field. -/
def descriptionEntry (b : InvoiceBuilder) : UInt8 × List UInt8 :=
  match b.description with
  | .direct text => (tagDescription, groupsOf text.toByteArray.data.toList)
  | .hash digest => (tagDescriptionHash, groupsOf digest.toList)

/-- The fields in the order they are written. -/
def fields (b : InvoiceBuilder) : List (UInt8 × List UInt8) :=
  [(tagPaymentSecret, groupsOf b.paymentSecret.toList),
    (tagPaymentHash, groupsOf b.paymentHash.toList), b.descriptionEntry] ++
  b.expirySecs.toList.map (fun x => (tagExpiry, minimalBase32Be x)) ++
  b.minFinalCltvExpiryDelta.toList.map (fun c => (tagMinFinalCltv, minimalBase32Be c)) ++
  b.routeHints.map (fun hint => (tagRouteHint, groupsOf (hint.flatMap hopBytes))) ++
  if b.features = [] then [] else [(tagFeatures, bytesToFiveBitBe b.features)]

theorem descriptionField_eq (b : InvoiceBuilder) :
    b.descriptionField = some (tagged b.descriptionEntry.1 b.descriptionEntry.2) := by
  unfold descriptionField descriptionEntry
  cases b.description <;> simp only [(packed_eq _).1, Option.map_some]

theorem mapM_hintField (hints : List (List RouteHintHop)) :
    hints.mapM hintField =
      some (hints.map fun hint => tagged tagRouteHint (groupsOf (hint.flatMap hopBytes))) := by
  induction hints with
  | nil => rfl
  | cons hint hints ih =>
    rw [List.mapM_cons, ih, hintField, (packed_eq _).1]
    rfl

theorem data_eq (b : InvoiceBuilder) : b.data = some (b.timestampGroups ++ written b.fields) := by
  have hexpiry : (b.expirySecs.map fun x => tagged tagExpiry (minimalBase32Be x)).getD [] =
      written (b.expirySecs.toList.map fun x => (tagExpiry, minimalBase32Be x)) := by
    cases b.expirySecs <;> simp [written]
  have hcltv : (b.minFinalCltvExpiryDelta.map fun c =>
      tagged tagMinFinalCltv (minimalBase32Be c)).getD [] =
      written (b.minFinalCltvExpiryDelta.toList.map fun c => (tagMinFinalCltv, minimalBase32Be c)) := by
    cases b.minFinalCltvExpiryDelta <;> simp [written]
  have hhints : (b.routeHints.map fun hint =>
      tagged tagRouteHint (groupsOf (hint.flatMap hopBytes))).flatten =
      written (b.routeHints.map fun hint => (tagRouteHint, groupsOf (hint.flatMap hopBytes))) := by
    simp [written, List.flatMap_def, Function.comp_def]
  have hfeatures : (if b.features = [] then [] else tagged tagFeatures (bytesToFiveBitBe b.features)) =
      written (if b.features = [] then [] else [(tagFeatures, bytesToFiveBitBe b.features)]) := by
    split <;> simp [written]
  simp only [data, (packed_eq _).1, descriptionField_eq, mapM_hintField, hexpiry, hcltv, hfeatures]
  change some (_ ++ (b.routeHints.map fun hint =>
    tagged tagRouteHint (groupsOf (hint.flatMap hopBytes))).flatten ++ _) = _
  rw [hhints]
  simp only [fields, written_append, written_cons, List.append_assoc, List.cons_append,
    List.nil_append]

theorem framed_fields {b : InvoiceBuilder} (hfits : b.Fits) (h : b.Encodable) :
    ∀ f ∈ b.fields, Framed f := by
  have h32 : ∀ v : Bytes32, v.toList.length ≤ 639 := fun v => by
    rw [Vector.length_toList]
    decide
  have hdescription : Framed b.descriptionEntry := by
    unfold descriptionEntry
    cases hd : b.description with
    | direct text => exact framed_groupsOf (by decide) (h.description text hd)
    | hash digest => exact framed_groupsOf (by decide) (h32 digest)
  intro f hf
  simp only [fields, List.mem_append, List.mem_cons, List.not_mem_nil, or_false, List.mem_map,
    Option.mem_toList] at hf
  rcases hf with ((((hf | hf | hf) | ⟨x, hx, rfl⟩) | ⟨c, hc, rfl⟩) | ⟨hint, hh, rfl⟩) | hf
  · exact hf ▸ framed_groupsOf (by decide) (h32 _)
  · exact hf ▸ framed_groupsOf (by decide) (h32 _)
  · exact hf ▸ hdescription
  · exact framed_minimalBase32Be (by decide) (hfits.expirySecs x hx)
  · exact framed_minimalBase32Be (by decide)
      (Nat.lt_trans (hfits.minFinalCltvExpiryDelta c hc) (by decide))
  · have hlen := h.routeHints hint hh
    apply framed_groupsOf (by decide)
    rw [length_flatMap_hopBytes]
    omega
  · by_cases hnil : b.features = []
    · simp [hnil] at hf
    · rw [if_neg hnil, List.mem_singleton] at hf
      rw [hf]
      exact ⟨show tagFeatures.toNat < 2 ^ 5 by decide,
        Nat.lt_succ_of_le (length_bytesToFiveBitBe h.features_bits),
        (val_regroup (by decide) (by decide) (valid_byte _)).2⟩

/-! ## What the parser finds -/

section
variable {K : KeyParsers} {b : InvoiceBuilder} (found : TaggedFields)

theorem readField_paymentSecret (secret : Bytes32) :
    readField K found tagPaymentSecret (groupsOf secret.toList) =
      .ok { found with paymentSecret := some secret } := by
  have hlen : (groupsOf secret.toList).length = 52 := by simp [length_groupsOf]
  simp [readField, tagPaymentSecret, tagPaymentHash, hlen, readBytes32_groupsOf, bind, Except.bind, pure, Except.pure]

theorem readField_paymentHash (hash : Bytes32) :
    readField K found tagPaymentHash (groupsOf hash.toList) =
      .ok { found with paymentHash := some hash } := by
  have hlen : (groupsOf hash.toList).length = 52 := by simp [length_groupsOf]
  simp [readField, hlen, readBytes32_groupsOf, bind, Except.bind, pure, Except.pure]

theorem readField_description :
    readField K found b.descriptionEntry.1 b.descriptionEntry.2 =
      .ok { found with description := some b.description } := by
  unfold descriptionEntry
  cases b.description with
  | direct text =>
    simp [readField, tagDescription, tagPaymentSecret, tagPaymentHash, convertBits_groupsOf, orError,
      fromUTF8_toByteArray, Fault.okOr, bind, Except.bind, pure, Except.pure]
  | hash digest =>
    have hlen : (groupsOf digest.toList).length = 52 := by simp [length_groupsOf]
    simp [readField, tagDescription, tagPaymentSecret, tagPaymentHash, tagDescriptionHash, hlen,
      readBytes32_groupsOf, bind, Except.bind, pure, Except.pure]

theorem foldlM_append_of_ok {f : TaggedFields → UInt8 × List UInt8 → Except (Fault InvoiceError) TaggedFields}
    {l m : List (UInt8 × List UInt8)} {a b c : TaggedFields} (hl : l.foldlM f a = .ok b)
    (hm : m.foldlM f b = .ok c) : (l ++ m).foldlM f a = .ok c := by
  rw [List.foldlM_append, hl]
  exact hm

theorem foldlM_expirySecs (hfits : b.Fits) (hnone : found.expiry = none) :
    (b.expirySecs.toList.map fun x => (tagExpiry, minimalBase32Be x)).foldlM
      (fun found field => readField K found field.1 field.2) found =
      .ok { found with expiry := b.expirySecs } := by
  cases hx : b.expirySecs with
  | none =>
    change Except.ok found = _
    rw [← hnone]
  | some x =>
    have hval : groupsVal 64 (minimalBase32Be x) = x :=
      groupsVal_minimalBase32Be (hfits.expirySecs x hx)
    simp [readField, tagDescription, tagPaymentSecret, tagPaymentHash, tagDescriptionHash, tagExpiry,
      hval]

theorem foldlM_minFinalCltv (hfits : b.Fits) (hnone : found.minFinalCltv = none) :
    (b.minFinalCltvExpiryDelta.toList.map fun c => (tagMinFinalCltv, minimalBase32Be c)).foldlM
      (fun found field => readField K found field.1 field.2) found =
      .ok { found with minFinalCltv := b.minFinalCltvExpiryDelta } := by
  cases hc : b.minFinalCltvExpiryDelta with
  | none =>
    change Except.ok found = _
    rw [← hnone]
  | some c =>
    have hval : groupsVal 32 (minimalBase32Be c) = c :=
      groupsVal_minimalBase32Be (hfits.minFinalCltvExpiryDelta c hc)
    simp [readField, tagDescription, tagPaymentSecret, tagPaymentHash, tagDescriptionHash, tagExpiry,
      tagMinFinalCltv, hval]

theorem foldlM_routeHints {hints : List (List RouteHintHop)}
    (h : ∀ hint ∈ hints, readRouteHint K (groupsOf (hint.flatMap hopBytes)) = .ok hint) :
    (hints.map fun hint => (tagRouteHint, groupsOf (hint.flatMap hopBytes))).foldlM
      (fun found field => readField K found field.1 field.2) found =
      .ok { found with routeHints := found.routeHints ++ hints } := by
  induction hints generalizing found with
  | nil =>
    rw [List.append_nil]
    rfl
  | cons hint hints ih =>
    obtain ⟨hhint, h⟩ := List.forall_mem_cons.1 h
    have hread : readField K found tagRouteHint (groupsOf (hint.flatMap hopBytes)) =
        .ok { found with routeHints := found.routeHints ++ [hint] } := by
      simp [readField, tagDescription, tagPaymentSecret, tagPaymentHash, tagDescriptionHash, tagExpiry,
        tagMinFinalCltv, tagFeatures, tagPayeeNode, tagRouteHint, hhint, bind, Except.bind, pure,
        Except.pure]
    rw [List.map_cons, List.foldlM_cons, hread]
    refine (ih _ h).trans ?_
    rw [List.append_assoc, List.singleton_append]

theorem foldlM_features (h : b.features.head? ≠ some 0) (hnil : found.features = []) :
    (if b.features = [] then [] else [(tagFeatures, bytesToFiveBitBe b.features)]).foldlM
      (fun found field => readField K found field.1 field.2) found =
      .ok { found with features := b.features } := by
  by_cases hf : b.features = []
  · rw [if_pos hf, hf, ← hnil]
    rfl
  · rw [if_neg hf, List.foldlM_cons]
    simp [readField, tagDescription, tagPaymentSecret, tagPaymentHash, tagDescriptionHash, tagExpiry,
      tagMinFinalCltv, tagFeatures, fiveBitToBytesBe_bytesToFiveBitBe h]

/-- The parser finds what the builder wrote. -/
theorem readFields_fields (hfits : b.Fits) (h : b.Encodable)
    (hkeys : ∀ hint ∈ b.routeHints, ∀ hop ∈ hint,
      K.fromSlice hop.srcNodeId.serialize = some hop.srcNodeId) :
    readFields K {} (written b.fields) = .ok
      { paymentHash := some b.paymentHash, paymentSecret := some b.paymentSecret
        description := some b.description, expiry := b.expirySecs
        minFinalCltv := b.minFinalCltvExpiryDelta, features := b.features
        routeHints := b.routeHints } := by
  have hhints : ∀ hint ∈ b.routeHints,
      readRouteHint K (groupsOf (hint.flatMap hopBytes)) = .ok hint :=
    fun hint hh => readRouteHint_groupsOf (hfits.routeHints hint hh) (hkeys hint hh)
  have hfirst : [(tagPaymentSecret, groupsOf b.paymentSecret.toList),
      (tagPaymentHash, groupsOf b.paymentHash.toList), b.descriptionEntry].foldlM
        (fun found field => readField K found field.1 field.2) {} =
      .ok { paymentHash := some b.paymentHash, paymentSecret := some b.paymentSecret
            description := some b.description } := by
    simp only [List.foldlM_cons, List.foldlM_nil, readField_paymentSecret, readField_paymentHash,
      readField_description, bind, Except.bind, pure, Except.pure]
  rw [readFields_written (framed_fields hfits h)]
  have hexpiry := foldlM_append_of_ok hfirst (foldlM_expirySecs _ hfits rfl)
  have hcltv := foldlM_append_of_ok hexpiry (foldlM_minFinalCltv _ hfits rfl)
  have hhints := foldlM_append_of_ok hcltv (foldlM_routeHints _ hhints)
  exact foldlM_append_of_ok hhints (foldlM_features _ h.features_head rfl)

end

/-! ## The signature -/

theorem readSignature_groupsOf {R : Recovery} {rsig : RecoverableSignature}
    (h : R.fromCompact rsig.compact rsig.recoveryId = some rsig) :
    readSignature R (groupsOf (rsig.compact.toList ++ [UInt8.ofNat rsig.recoveryId])) = .ok rsig := by
  have hid : (UInt8.ofNat rsig.recoveryId).toNat = rsig.recoveryId := by
    rw [UInt8.toNat_ofNat']
    have hlt := rsig.recoveryId.isLt
    omega
  have hlast : (rsig.compact.toList ++ [UInt8.ofNat rsig.recoveryId])[64]? =
      some (UInt8.ofNat rsig.recoveryId) := by
    simp
  simp only [readSignature, convertBits_groupsOf, orError, hlast, firstBytes_append, Fault.expect, bind,
    Except.bind, hid, rsig.recoveryId.isLt, dite_true, Fin.eta, h, Fault.okOr]

theorem signedMessage_ok (C : Crypto) (hrp : List Char) {data : List UInt8} (h : Valid (2 ^ 5) data) :
    ∃ digest, signedMessage C hrp data = .ok digest := by
  obtain ⟨out, k, heq, -⟩ := convertBits_pad (show 5 ≤ 8 by decide) (show 0 < 8 by decide)
    (by decide) h
  rw [signedMessage, heq]
  exact ⟨_, rfl⟩

/-- The groups of a signature and its recovery id. -/
def signatureGroups (rsig : RecoverableSignature) : List UInt8 :=
  groupsOf (rsig.compact.toList ++ [UInt8.ofNat rsig.recoveryId])

theorem length_signatureGroups (rsig : RecoverableSignature) : (signatureGroups rsig).length = 104 := by
  rw [signatureGroups, length_groupsOf]
  simp

/-- What a builder writes within the limits of the format can be decoded. -/
theorem encodeSigned_decodes (C : Crypto) {b : InvoiceBuilder} (sign : Bytes32 → RecoverableSignature)
    (hfits : b.Fits) (h : b.Encodable) : ∃ s digest,
      signedMessage C b.hrp (b.timestampGroups ++ written b.fields) = .ok digest ∧
      b.encodeSigned C sign = some s ∧ decode s.toList =
        .ok (b.hrp, b.timestampGroups ++ written b.fields ++ signatureGroups (sign digest)) := by
  have hvalid : Valid (2 ^ 5) (b.timestampGroups ++ written b.fields) :=
    valid_append.2 ⟨valid_timestampGroups b, valid_written (framed_fields hfits h)⟩
  obtain ⟨digest, hdigest⟩ := signedMessage_ok C b.hrp hvalid
  have hhrp : b.hrp ≠ [] := by simp [hrp]
  obtain ⟨s, hencode, hdecode⟩ := decode_of_encode hhrp (isUpper_hrp b)
    (valid_append.2 ⟨hvalid, valid_groupsOf ((sign digest).compact.toList ++
      [UInt8.ofNat (sign digest).recoveryId])⟩)
  refine ⟨String.ofList s, digest, hdigest, ?_, by rwa [String.toList_ofList]⟩
  simp only [encodeSigned, data_eq, hdigest, Except.toOption, (packed_eq _).1, hencode, bind,
    Option.bind, pure]

/-- The parser reads the groups that a builder writes. -/
theorem parse_of_decode {C : Crypto} {K : KeyParsers} {R : Recovery} {b : InvoiceBuilder} {s : String}
    {rsig : RecoverableSignature} {digest : Bytes32} {payee : PublicKey} (hfits : b.Fits)
    (h : b.Encodable)
    (hdigest : signedMessage C b.hrp (b.timestampGroups ++ written b.fields) = .ok digest)
    (hdecode : decode s.toList =
      .ok (b.hrp, b.timestampGroups ++ written b.fields ++ signatureGroups rsig))
    (hkeys : ∀ hint ∈ b.routeHints, ∀ hop ∈ hint,
      K.fromSlice hop.srcNodeId.serialize = some hop.srcNodeId)
    (hcompact : R.fromCompact rsig.compact rsig.recoveryId = some rsig)
    (hrecover : R.recoverEcdsa digest rsig = some payee) :
    Bolt11Invoice.parse C K R s = .ok
      { network := b.network, amountMsat := b.amountMsat, timestamp := b.timestamp
        paymentHash := b.paymentHash, paymentSecret := b.paymentSecret, description := b.description
        expirySecs := b.expirySecs, minFinalCltvExpiryDelta := b.minFinalCltvExpiryDelta
        features := b.features, routeHints := b.routeHints, payee } := by
  have hsiglen := length_signatureGroups rsig
  have hlen : (b.timestampGroups ++ written b.fields ++ signatureGroups rsig).length - 104 =
      (b.timestampGroups ++ written b.fields).length := by
    rw [List.length_append, hsiglen, Nat.add_sub_cancel]
  have hlong : 7 + 104 ≤ (b.timestampGroups ++ written b.fields ++ signatureGroups rsig).length := by
    simp [timestampGroups, hsiglen]
  have hamount : parseAmount ((b.amountMsat.map encodeAmount).getD []) = .ok b.amountMsat := by
    cases hm : b.amountMsat with
    | none => rfl
    | some m => exact parseAmount_encodeAmount (hfits.amountMsat m hm) (h.amount m hm)
  have hts : (b.timestampGroups ++ written b.fields).take 7 = b.timestampGroups :=
    List.take_left' rfl
  have hrest : (b.timestampGroups ++ written b.fields).drop 7 = written b.fields :=
    List.drop_left' rfl
  have hread : readSignature R (signatureGroups rsig) = .ok rsig := readSignature_groupsOf hcompact
  simp only [Bolt11Invoice.parse, hdecode, orError, splitHrp_hrp, hamount, Fault.okOr, Except.mapError,
    Fault.require, hlong, if_true, hlen, List.take_left, List.drop_left, hread, hdigest, hrecover, hts,
    hrest, readFields_fields hfits h hkeys, groupsVal_timestampGroups h.timestamp, bind, Except.bind,
    pure, Except.pure]

/-- What a builder writes within the limits of the format, the parser reads: the fields unchanged, and
as payee the key that the signature recovers to. -/
theorem parse_encodeSigned (C : Crypto) (K : KeyParsers) (R : Recovery) (b : InvoiceBuilder)
    (sign : Bytes32 → RecoverableSignature) (payee : PublicKey) (hfits : b.Fits) (h : b.Encodable)
    (hkeys : ∀ hint ∈ b.routeHints, ∀ hop ∈ hint,
      K.fromSlice hop.srcNodeId.serialize = some hop.srcNodeId)
    (hcompact : ∀ digest,
      R.fromCompact (sign digest).compact (sign digest).recoveryId = some (sign digest))
    (hrecover : ∀ digest, R.recoverEcdsa digest (sign digest) = some payee) :
    ∃ s, b.encodeSigned C sign = some s ∧ Bolt11Invoice.parse C K R s = .ok
      { network := b.network, amountMsat := b.amountMsat, timestamp := b.timestamp
        paymentHash := b.paymentHash, paymentSecret := b.paymentSecret, description := b.description
        expirySecs := b.expirySecs, minFinalCltvExpiryDelta := b.minFinalCltvExpiryDelta
        features := b.features, routeHints := b.routeHints, payee } := by
  obtain ⟨s, digest, hdigest, hencode, hdecode⟩ := encodeSigned_decodes C sign hfits h
  exact ⟨s, hencode,
    parse_of_decode hfits h hdigest hdecode hkeys (hcompact digest) (hrecover digest)⟩

namespace Demo

/-- Signatures that are the key and the digest they sign. -/
def recovery : Recovery where
  fromCompact compact recoveryId := some ⟨recoveryId, compact⟩
  recoverEcdsa digest rsig :=
    if rsig.compact.toList.drop 32 = digest.toList then
      some ⟨⟨(2 :: rsig.compact.toList.take 32).toArray, by simp⟩⟩
    else none
  toStandard rsig := ⟨rsig.compact⟩

def key : Bytes32 := Vector.replicate 32 7

def sign (digest : Bytes32) : RecoverableSignature :=
  ⟨1, ⟨(key.toList ++ digest.toList).toArray, by simp⟩⟩

def payee : PublicKey := ⟨⟨(2 :: key.toList).toArray, by simp⟩⟩

/-- 2500 satoshis and 1 millisatoshi, to be reached through two hops. -/
def invoice : InvoiceBuilder where
  network := .testnet
  amountMsat := some 2500001
  timestamp := 1496314658
  paymentHash := Vector.replicate 32 1
  paymentSecret := Vector.replicate 32 2
  description := .direct "ナンセンス 1杯"
  expirySecs := some 60
  minFinalCltvExpiryDelta := some 40
  features := defaultFeatures
  routeHints := [[⟨payee, 5, 1, 20, 3⟩, ⟨payee, 6, 2, 30, 4⟩]]

end Demo

theorem Demo.invoice_fits : Demo.invoice.Fits := by
  refine ⟨fun m hm => ?_, fun x hx => ?_, fun c hc => ?_, fun hint hh hop hhop => ?_⟩
  · cases hm
    decide
  · cases hx
    decide
  · cases hc
    decide
  · rw [List.mem_singleton.1 hh] at hhop
    rcases List.mem_cons.1 hhop with rfl | hhop
    · exact ⟨by decide, by decide, by decide, by decide⟩
    · rw [List.mem_singleton.1 hhop]
      exact ⟨by decide, by decide, by decide, by decide⟩

theorem Demo.invoice_keys : ∀ hint ∈ Demo.invoice.routeHints, ∀ hop ∈ hint,
    KeyParsers.transparent.fromSlice hop.srcNodeId.serialize = some hop.srcNodeId := by
  have hkey : KeyParsers.transparent.fromSlice Demo.payee.serialize = some Demo.payee := by
    decide +kernel
  intro hint hh hop hhop
  rw [List.mem_singleton.1 hh] at hhop
  rcases List.mem_cons.1 hhop with rfl | hhop
  · exact hkey
  · rw [List.mem_singleton.1 hhop]
    exact hkey

theorem Demo.recoverEcdsa_sign (digest : Bytes32) :
    Demo.recovery.recoverEcdsa digest (Demo.sign digest) = some Demo.payee := by
  simp [Demo.recovery, Demo.sign, Demo.payee, Vector.toList]

theorem parse_encodeSigned_testnet :
    ∃ s, Demo.invoice.encodeSigned .transparent Demo.sign = some s ∧
      Bolt11Invoice.parse .transparent .transparent Demo.recovery s = .ok
        { network := .testnet, amountMsat := some 2500001, timestamp := 1496314658
          paymentHash := Vector.replicate 32 1, paymentSecret := Vector.replicate 32 2
          description := .direct "ナンセンス 1杯", expirySecs := some 60
          minFinalCltvExpiryDelta := some 40, features := defaultFeatures
          routeHints := [[⟨Demo.payee, 5, 1, 20, 3⟩, ⟨Demo.payee, 6, 2, 30, 4⟩]]
          payee := Demo.payee } := by
  refine parse_encodeSigned .transparent .transparent Demo.recovery Demo.invoice Demo.sign Demo.payee
    Demo.invoice_fits ⟨?_, ?_, ?_, ?_, ?_, ?_⟩ Demo.invoice_keys (fun digest => rfl)
    Demo.recoverEcdsa_sign
  · decide
  · intro m hm
    cases hm
    exact .inr (by decide)
  · decide
  · decide +kernel
  · intro text htext
    cases htext
    decide
  · intro hint hh
    rw [List.mem_singleton.1 hh]
    decide

/-! ## Feature vectors that do not fit -/

/-- A field of more than 1023 groups: the first group of its length has more than 5 bits, and packing
the data for the signature panics. -/
theorem encodeSigned_eq_none (C : Crypto) (sign : Bytes32 → RecoverableSignature) {b : InvoiceBuilder}
    {field : UInt8 × List UInt8} (hfield : field ∈ b.fields) (hlow : 1024 ≤ field.2.length)
    (hhigh : field.2.length < 8192) : b.encodeSigned C sign = none := by
  have hinvalid : ¬ Valid (2 ^ 5) (b.timestampGroups ++ written b.fields) := by
    intro hvalid
    have hmem : UInt8.ofNat (field.2.length / 32) ∈ written b.fields :=
      List.mem_flatMap.2 ⟨field, hfield, by simp [tagged]⟩
    have hlt := (valid_append.1 hvalid).2 _ hmem
    rw [UInt8.toNat_ofNat'] at hlt
    omega
  have herror : (signedMessage C b.hrp (b.timestampGroups ++ written b.fields)).toOption = none := by
    unfold signedMessage
    cases hout : convertBits (b.timestampGroups ++ written b.fields) 5 8 true with
    | error e => rfl
    | ok out => exact absurd (valid_of_convertBits hout) hinvalid
  simp only [encodeSigned, data_eq, herror, bind, Option.bind]

theorem encodeSigned_of_features (C : Crypto) (sign : Bytes32 → RecoverableSignature)
    {b : InvoiceBuilder} (hlow : 1024 ≤ (bytesToFiveBitBe b.features).length)
    (hhigh : (bytesToFiveBitBe b.features).length < 8192) : b.encodeSigned C sign = none := by
  have hne : b.features ≠ [] := by
    intro hnil
    rw [hnil] at hlow
    exact absurd hlow (by decide)
  have hfield : (tagFeatures, bytesToFiveBitBe b.features) ∈ b.fields := by
    simp [fields, hne]
  exact encodeSigned_eq_none C sign hfield hlow hhigh

theorem val_one_replicate (n : Nat) : val (2 ^ 8) (1 :: List.replicate n 0) = 2 ^ (8 * n) := by
  have hzero : val (2 ^ 8) (List.replicate n 0) = 0 := by
    induction n with
    | zero => rfl
    | succ n ih => rw [List.replicate_succ, val_cons, ih, UInt8.toNat_zero, Nat.zero_mul]
  rw [val_cons, hzero, List.length_replicate, Nat.add_zero, ← Nat.pow_mul]
  exact Nat.one_mul _

/-- The groups of a single feature bit. -/
theorem length_one_replicate (n : Nat) :
    8 * n < 5 * (bytesToFiveBitBe (1 :: List.replicate n 0)).length ∧
      (bytesToFiveBitBe (1 :: List.replicate n 0)).length ≤ 2 * n + 1 := by
  constructor
  · obtain ⟨hval, hvalid⟩ := val_regroup (show 0 < 5 by decide) (by decide)
      (valid_byte (1 :: List.replicate n 0))
    have hlt := val_lt hvalid
    rwa [hval, val_one_replicate, ← Nat.pow_mul, Nat.pow_lt_pow_iff_right (by decide)] at hlt
  · apply length_bytesToFiveBitBe
    rw [val_one_replicate]
    exact Nat.pow_lt_pow_right (by decide) (by omega)

namespace Demo

/-- An invoice with feature bit 5120. -/
def overflowing : InvoiceBuilder where
  network := .bitcoin
  amountMsat := none
  timestamp := 0
  paymentHash := Vector.replicate 32 1
  paymentSecret := Vector.replicate 32 2
  description := .direct ""
  expirySecs := none
  minFinalCltvExpiryDelta := none
  features := 1 :: List.replicate 640 0
  routeHints := []

end Demo

/-- Without a bound on the features there is a builder that cannot be encoded at all. -/
theorem encodeSigned_overflowing :
    Demo.overflowing.Fits ∧ Demo.overflowing.timestamp < 2 ^ 35 ∧
      (∀ m ∈ Demo.overflowing.amountMsat, m % 100 = 0 ∨ m * 10 < 2 ^ 64) ∧
      Demo.overflowing.features.head? ≠ some 0 ∧
      (∀ text, Demo.overflowing.description = .direct text → text.utf8ByteSize ≤ 639) ∧
      (∀ hint ∈ Demo.overflowing.routeHints, hint.length ≤ 12) ∧
      Demo.overflowing.encodeSigned .transparent Demo.sign = none := by
  have hfeatures : Demo.overflowing.features = 1 :: List.replicate 640 0 := by rw [Demo.overflowing]
  have hlen := length_one_replicate 640
  rw [← hfeatures] at hlen
  refine ⟨⟨?_, ?_, ?_, ?_⟩, ?_, ?_, ?_, ?_, ?_, ?_⟩
  · exact fun m hm => nomatch hm
  · exact fun x hx => nomatch hx
  · exact fun c hc => nomatch hc
  · exact fun hint hh => nomatch hh
  · decide
  · exact fun m hm => nomatch hm
  · exact fun hhead => nomatch hhead
  · intro text htext
    cases htext
    decide
  · exact fun hint hh => nomatch hh
  · exact encodeSigned_of_features _ _ (by omega) (by omega)

end InvoiceBuilder
