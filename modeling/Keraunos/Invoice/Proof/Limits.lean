import Keraunos.Invoice.Proof.RoundTrip
import Keraunos.Node.Payments

/-!
# The limits of invoices

The length of a tagged field is two groups of 5 bits, so no field has more than 1023 groups, which are
639 bytes or 12 hops; a timestamp has seven groups, and the amounts in units of 0.1 msat end below
`2 ^ 64`. Whatever `parse` accepts stays within these limits (`parse_limits`), so a builder outside of
them cannot be read back, and one within them is (`RoundTrip`).
-/

open Bech32 Digits Invoice

namespace Bech32

theorem valueOf_lt {c : Char} {v : UInt8} (h : valueOf c = .ok v) : v.toNat < 32 := by
  unfold valueOf at h
  split at h
  · next i hfound =>
    obtain rfl := Except.ok.inj h
    have hi : i < 32 := (List.findIdx?_eq_some_iff_findIdx_eq.1 hfound).1
    rw [UInt8.toNat_ofNat']
    omega
  · cases h

theorem valid_mapM_valueOf {s : List Char} {data : List UInt8} (h : s.mapM valueOf = .ok data) :
    Valid 32 data := by
  induction s generalizing data with
  | nil =>
    obtain rfl := Except.ok.inj h
    exact valid_nil
  | cons c s ih =>
    rw [List.mapM_cons] at h
    cases hvalue : valueOf c with
    | error e =>
      rw [hvalue] at h
      cases h
    | ok v =>
      cases hrest : s.mapM valueOf with
      | error e =>
        rw [hvalue, hrest] at h
        cases h
      | ok rest =>
        rw [hvalue, hrest] at h
        obtain rfl := Except.ok.inj h
        exact valid_cons.2 ⟨valueOf_lt hvalue, ih hrest⟩

/-- What is decoded are groups of 5 bits. -/
theorem valid_of_decode {s hrp : List Char} {data : List UInt8} (h : decode s = .ok (hrp, data)) :
    Valid (2 ^ 5) data := by
  unfold decode at h
  split at h
  · cases h
  · dsimp only at h
    split at h
    · cases h
    · next hrpReversed _ =>
      generalize (List.takeWhile (fun x => decide (x ≠ '1')) (List.map Char.toLower s).reverse).reverse =
        payload at h
      split at h
      · cases h
      · cases hvalues : payload.mapM valueOf with
        | error e =>
          rw [hvalues] at h
          cases h
        | ok values =>
          rw [hvalues] at h
          change (if polymod (hrpExpand hrpReversed.reverse ++ values) ≠ 1 then _ else _) = _ at h
          split at h
          · cases h
          · obtain ⟨-, rfl⟩ := Prod.mk.inj (Except.ok.inj h)
            exact fun v hv => valid_mapM_valueOf hvalues v (List.mem_of_mem_take hv)

end Bech32

namespace Invoice

/-! ## What the parser accepts -/

/-- The description and the hints fit their fields. -/
structure Limited (description : Option Description) (hints : List (List RouteHintHop)) : Prop where
  description : ∀ text, description = some (.direct text) → text.utf8ByteSize ≤ 639
  hints : ∀ hint ∈ hints, hint.length ≤ 12

theorem orError_eq_ok {α : Type} {f : Bech32Error → InvoiceError} {x : Except Bech32Error α} {a : α} :
    orError f x = .ok a ↔ x = .ok a := by
  cases x with
  | error e => simp [orError]
  | ok b => simp [orError]

theorem length_bytes_le {body bytes : List UInt8} (hbody : body.length ≤ 1023)
    (h : convertBits body 5 8 false = .ok bytes) : bytes.length ≤ 639 := by
  obtain ⟨k, -, hlen⟩ := length_convertBits_false (by decide) (by decide) (by decide) h
  omega

theorem utf8ByteSize_of_fromUTF8 {bytes : List UInt8} {text : String}
    (h : String.fromUTF8? ⟨bytes.toArray⟩ = some text) : text.utf8ByteSize = bytes.length := by
  unfold String.fromUTF8? at h
  split at h
  · obtain rfl := Option.some.inj h
    rfl
  · cases h

theorem length_mapM {ε α β : Type} {f : α → Except ε β} {l : List α} {l' : List β}
    (h : l.mapM f = .ok l') : l'.length = l.length := by
  induction l generalizing l' with
  | nil =>
    obtain rfl := Except.ok.inj h
    rfl
  | cons a l ih =>
    rw [List.mapM_cons] at h
    cases ha : f a with
    | error e =>
      rw [ha] at h
      cases h
    | ok b =>
      cases hl : l.mapM f with
      | error e =>
        rw [ha, hl] at h
        cases h
      | ok bs =>
        rw [ha, hl] at h
        obtain rfl := Except.ok.inj h
        rw [List.length_cons, List.length_cons, ih hl]

theorem length_readRouteHint {K : KeyParsers} {body : List UInt8} {hint : List RouteHintHop}
    (hbody : body.length ≤ 1023) (h : readRouteHint K body = .ok hint) : hint.length ≤ 12 := by
  unfold readRouteHint at h
  simp only [Fault.bind_eq_ok, Fault.require_eq_ok, orError_eq_ok] at h
  obtain ⟨bytes, hbytes, -, -, hhops⟩ := h
  have hle := length_bytes_le hbody hbytes
  rw [length_mapM hhops, chunksExact, List.length_map, List.length_range]
  omega

theorem Limited.readField {K : KeyParsers} {found found' : TaggedFields} {tag : UInt8}
    {body : List UInt8} (hbody : body.length ≤ 1023) (hlimited : Limited found.description found.routeHints)
    (h : readField K found tag body = .ok found') : Limited found'.description found'.routeHints := by
  unfold Invoice.readField at h
  split_ifs at h
  · obtain ⟨hash, -, heq⟩ := Fault.bind_eq_ok.1 h
    obtain rfl := Except.ok.inj heq
    exact hlimited
  · obtain ⟨secret, -, heq⟩ := Fault.bind_eq_ok.1 h
    obtain rfl := Except.ok.inj heq
    exact hlimited
  · simp only [Fault.bind_eq_ok, Fault.okOr_eq_ok, orError_eq_ok] at h
    obtain ⟨bytes, hbytes, text, htext, heq⟩ := h
    obtain rfl := Except.ok.inj heq
    refine ⟨fun text' heq' => ?_, hlimited.hints⟩
    obtain rfl := Description.direct.inj (Option.some.inj heq')
    rw [utf8ByteSize_of_fromUTF8 htext]
    exact length_bytes_le hbody hbytes
  · obtain ⟨digest, -, heq⟩ := Fault.bind_eq_ok.1 h
    obtain rfl := Except.ok.inj heq
    exact ⟨fun text heq' => (by cases heq'), hlimited.hints⟩
  · obtain rfl := Except.ok.inj h
    exact hlimited
  · obtain rfl := Except.ok.inj h
    exact hlimited
  · obtain rfl := Except.ok.inj h
    exact hlimited
  · obtain ⟨bytes, -, heq⟩ := Fault.bind_eq_ok.1 h
    obtain rfl := Except.ok.inj heq
    exact hlimited
  · obtain ⟨hint, hhint, heq⟩ := Fault.bind_eq_ok.1 h
    obtain rfl := Except.ok.inj heq
    refine ⟨hlimited.description, fun hint' hmem => ?_⟩
    rcases List.mem_append.1 hmem with hmem | hmem
    · exact hlimited.hints hint' hmem
    · rw [List.mem_singleton.1 hmem]
      exact length_readRouteHint hbody hhint
  · obtain rfl := Except.ok.inj h
    exact hlimited

theorem Limited.readFields {K : KeyParsers} {found found' : TaggedFields} {fields : List UInt8}
    (hlimited : Limited found.description found.routeHints) (hvalid : Valid (2 ^ 5) fields)
    (h : readFields K found fields = .ok found') :
    Limited found'.description found'.routeHints := by
  fun_induction Invoice.readFields K found fields with
  | case1 =>
    obtain rfl := Except.ok.inj h
    exact hlimited
  | case2 => cases h
  | case3 found tag hi lo rest len hlen found₁ hfield ih =>
    obtain ⟨-, hhi, hlo, hrest⟩ : _ ∧ hi.toNat < 2 ^ 5 ∧ lo.toNat < 2 ^ 5 ∧ Valid (2 ^ 5) rest := by
      simpa only [valid_cons] using hvalid
    have hbody : (rest.take len).length ≤ 1023 := by
      rw [List.length_take]
      omega
    exact ih (hlimited.readField hbody hfield) (fun v hv => hrest v (List.mem_of_mem_drop hv)) h
  | case4 => cases h
  | case5 => cases h

theorem groupsVal_lt {groups : List UInt8} (hvalid : Valid (2 ^ 5) groups) (hlen : groups.length ≤ 7) :
    groupsVal 64 groups < 2 ^ 35 := by
  have hlt := val_lt hvalid
  have hpow : (2 ^ 5) ^ groups.length ≤ (2 ^ 5) ^ 7 := Nat.pow_le_pow_right (by decide) hlen
  have hval : val (2 ^ 5) groups < 2 ^ 35 := Nat.lt_of_lt_of_le hlt hpow
  rwa [groupsVal_of_lt hvalid (Nat.lt_trans hval (by decide))]

theorem amountUnit_dvd {s digits : List Char} {last : Char} {multiplier : Nat}
    (h : amountUnit s last = some (digits, multiplier)) : 100 ∣ multiplier := by
  unfold amountUnit at h
  split at h
  case h_5 =>
    split at h
    · obtain ⟨-, rfl⟩ := Prod.mk.inj (Option.some.inj h)
      decide
    · cases h
  all_goals
    obtain ⟨-, rfl⟩ := Prod.mk.inj (Option.some.inj h)
    decide

theorem amount_of_parseAmount {s : List Char} {a : Msat} (h : parseAmount s = .ok (some a)) :
    a % 100 = 0 ∨ a * 10 < 2 ^ 64 := by
  unfold parseAmount at h
  split at h
  · cases h
  · split at h
    · cases h
    · next digits multiplier hunit =>
      split at h
      · cases h
      · split at h
        · cases h
        · next value hvalue =>
          have hlt : value < 2 ^ 64 := by
            unfold parseU64 at hvalue
            dsimp only at hvalue
            split at hvalue
            · next hlt => exact Option.some.inj hvalue ▸ hlt
            · cases hvalue
          split at h
          · split at h
            · cases h
            · obtain rfl := Option.some.inj (Except.ok.inj h)
              right
              show value / 10 * 10 < 2 ^ 64
              omega
          · split at h
            · obtain rfl := Option.some.inj (Except.ok.inj h)
              exact .inl (Nat.mod_eq_zero_of_dvd ((amountUnit_dvd hunit).mul_left value))
            · cases h

/-- Whatever is accepted stays within the limits of the format. -/
theorem parse_limits {C : Crypto} {K : KeyParsers} {R : Recovery} {s : String} {inv : Bolt11Invoice}
    (h : Bolt11Invoice.parse C K R s = .ok inv) :
    inv.timestamp < 2 ^ 35 ∧ (∀ a ∈ inv.amountMsat, a % 100 = 0 ∨ a * 10 < 2 ^ 64) ∧
      Limited (some inv.description) inv.routeHints := by
  unfold Bolt11Invoice.parse at h
  simp only [Fault.bind_eq_ok, Fault.okOr_eq_ok, Fault.require_eq_ok, orError_eq_ok] at h
  obtain ⟨⟨hrp, data⟩, hdecode, h⟩ := h
  obtain ⟨⟨network, amountStr⟩, -, h⟩ := h
  obtain ⟨amount, hamount, -, -, rsig, -, msg, -, recovered, -, fields, hfields, h⟩ := h
  have hinv : fields.description = some inv.description ∧ fields.routeHints = inv.routeHints ∧
      groupsVal 64 ((data.take (data.length - 104)).take 7) = inv.timestamp ∧
      amount = inv.amountMsat := by
    split at h
    · simp only [Fault.bind_eq_ok, Fault.okOr_eq_ok, Fault.require_eq_ok] at h
      obtain ⟨-, -, payee, -, hash, -, secret, -, description, hdescription, hinv⟩ := h
      obtain rfl := Except.ok.inj hinv
      exact ⟨hdescription, rfl, rfl, rfl⟩
    · simp only [Fault.bind_eq_ok, Fault.okOr_eq_ok] at h
      obtain ⟨payee, -, hash, -, secret, -, description, hdescription, hinv⟩ := h
      obtain rfl := Except.ok.inj hinv
      exact ⟨hdescription, rfl, rfl, rfl⟩
  obtain ⟨hdescription, hhints, htimestamp, rfl⟩ := hinv
  have hvalid : Valid (2 ^ 5) (data.take (data.length - 104)) :=
    fun v hv => valid_of_decode hdecode v (List.mem_of_mem_take hv)
  have hempty : Limited ({} : TaggedFields).description ({} : TaggedFields).routeHints :=
    ⟨fun _ htext => (by cases htext), fun _ hhint => by cases hhint⟩
  have hlimited := hempty.readFields (fun v hv => hvalid v (List.mem_of_mem_drop hv)) hfields
  rw [hdescription, hhints] at hlimited
  refine ⟨?_, fun a ha => ?_, hlimited⟩
  · rw [← htimestamp]
    refine groupsVal_lt (fun v hv => hvalid v (List.mem_of_mem_take hv)) ?_
    rw [List.length_take]
    exact Nat.min_le_left _ _
  · rw [Option.mem_def.1 ha] at hamount
    cases hparsed : parseAmount amountStr with
    | error e =>
      rw [hparsed] at hamount
      cases hamount
    | ok amount =>
      rw [hparsed] at hamount
      obtain rfl := Except.ok.inj hamount
      exact amount_of_parseAmount hparsed

end Invoice

namespace InvoiceBuilder

/-! ## What can be written and read back -/

/-- The invoice is written, and reads back with the amount, timestamp, description and hints. -/
def RoundTrips (C : Crypto) (K : KeyParsers) (R : Recovery) (sign : Bytes32 → RecoverableSignature)
    (b : InvoiceBuilder) : Prop :=
  ∃ s inv, b.encodeSigned C sign = some s ∧ Bolt11Invoice.parse C K R s = .ok inv ∧
    inv.amountMsat = b.amountMsat ∧ inv.timestamp = b.timestamp ∧ inv.description = b.description ∧
    inv.routeHints = b.routeHints

/-- There is room for the timestamp, the amount, the description and the hints. -/
structure Representable (b : InvoiceBuilder) : Prop where
  timestamp : b.timestamp < 2 ^ 35
  amount : ∀ m ∈ b.amountMsat, m % 100 = 0 ∨ m * 10 < 2 ^ 64
  description : ∀ text, b.description = .direct text → text.utf8ByteSize ≤ 639
  routeHints : ∀ hint ∈ b.routeHints, hint.length ≤ 12

/-- The features have no leading zeros and fit a field. -/
structure FeaturesFit (b : InvoiceBuilder) : Prop where
  head : b.features.head? ≠ some 0
  bits : val (2 ^ 8) b.features < 2 ^ (5 * 1023)

theorem RoundTrips.representable {C : Crypto} {K : KeyParsers} {R : Recovery}
    {sign : Bytes32 → RecoverableSignature} {b : InvoiceBuilder} (h : b.RoundTrips C K R sign) :
    b.Representable := by
  obtain ⟨s, inv, -, hparse, hamount, htimestamp, hdescription, hhints⟩ := h
  obtain ⟨htime, hamt, hlimited⟩ := parse_limits hparse
  rw [htimestamp] at htime
  rw [hamount] at hamt
  rw [hdescription, hhints] at hlimited
  exact ⟨htime, hamt, fun text htext => hlimited.description text (congrArg some htext),
    hlimited.hints⟩

/-- What `create_invoice` asks for. -/
def created {E : Env} (n : Node E) (amountMsat : Option Msat) (description : String)
    (expirySecs : Nat) (paymentHash paymentSecret : Bytes32) : InvoiceBuilder where
  network := n.config.network
  amountMsat := amountMsat
  timestamp := n.now
  paymentHash := paymentHash
  paymentSecret := paymentSecret
  description := .direct description
  expirySecs := some expirySecs
  minFinalCltvExpiryDelta := some 18
  features := defaultFeatures
  routeHints := []

theorem createInvoice_eq_ok {E : Env} {n n' : Node E} {amountMsat : Option Msat} {description : String}
    {expirySecs : Nat} {out : String × PaymentHash}
    (h : Node.createInvoice amountMsat description expirySecs n = .ok out n') : ∃ secret,
      out.1 = E.encodeInvoice (created n amountMsat description expirySecs out.2 secret) := by
  cases h
  exact ⟨_, rfl⟩

theorem Representable.roundTrips {C : Crypto} {K : KeyParsers} {R : Recovery}
    {sign : Bytes32 → RecoverableSignature} {payee : PublicKey} {b : InvoiceBuilder}
    (h : b.Representable) (hfits : b.Fits) (hfeatures : b.FeaturesFit)
    (hkeys : ∀ hint ∈ b.routeHints, ∀ hop ∈ hint,
      K.fromSlice hop.srcNodeId.serialize = some hop.srcNodeId)
    (hcompact : ∀ digest,
      R.fromCompact (sign digest).compact (sign digest).recoveryId = some (sign digest))
    (hrecover : ∀ digest, R.recoverEcdsa digest (sign digest) = some payee) :
    b.RoundTrips C K R sign := by
  have hencodable : b.Encodable :=
    ⟨h.timestamp, h.amount, hfeatures.head, hfeatures.bits, h.description, h.routeHints⟩
  obtain ⟨s, digest, hdigest, hencode, hdecode⟩ := encodeSigned_decodes C sign hfits hencodable
  exact ⟨s, _, hencode, parse_of_decode hfits hencodable hdigest hdecode hkeys (hcompact digest)
    (hrecover digest), rfl, rfl, rfl, rfl⟩

/-- An invoice is written and reads back exactly if it is representable; the one of `create_invoice`
exactly if the clock, the amount and the description are in range. -/
theorem roundTrips_iff (C : Crypto) (K : KeyParsers) (R : Recovery)
    (sign : Bytes32 → RecoverableSignature) (payee : PublicKey)
    (hcompact : ∀ digest,
      R.fromCompact (sign digest).compact (sign digest).recoveryId = some (sign digest))
    (hrecover : ∀ digest, R.recoverEcdsa digest (sign digest) = some payee) :
    (∀ b : InvoiceBuilder, b.Fits → b.FeaturesFit →
      (∀ hint ∈ b.routeHints, ∀ hop ∈ hint,
        K.fromSlice hop.srcNodeId.serialize = some hop.srcNodeId) →
      (b.RoundTrips C K R sign ↔ b.Representable)) ∧
    ∀ (E : Env) (n n' : Node E) (amountMsat : Option Msat) (description : String) (expirySecs : Nat)
      (out : String × PaymentHash), (∀ m ∈ amountMsat, m < 2 ^ 64) → expirySecs < 2 ^ 64 →
      Node.createInvoice amountMsat description expirySecs n = .ok out n' →
      ∃ secret, out.1 = E.encodeInvoice (created n amountMsat description expirySecs out.2 secret) ∧
        ((created n amountMsat description expirySecs out.2 secret).RoundTrips C K R sign ↔
          n.now < 2 ^ 35 ∧ (∀ m ∈ amountMsat, m % 100 = 0 ∨ m * 10 < 2 ^ 64) ∧
            description.utf8ByteSize ≤ 639) := by
  refine ⟨fun b hfits hfeatures hkeys => ⟨RoundTrips.representable, fun h =>
    h.roundTrips hfits hfeatures hkeys hcompact hrecover⟩, ?_⟩
  intro E n n' amountMsat description expirySecs out hamount hexpiry hout
  obtain ⟨secret, hstring⟩ := createInvoice_eq_ok hout
  refine ⟨secret, hstring, fun h => ?_, fun ⟨htimestamp, hamt, hdescription⟩ => ?_⟩
  · have hrepresentable := h.representable
    exact ⟨hrepresentable.timestamp, hrepresentable.amount,
      hrepresentable.description description rfl⟩
  · refine Representable.roundTrips ⟨htimestamp, hamt, fun text htext => ?_, fun _ => nofun⟩
      ⟨hamount, fun x hx => ?_, fun c hc => ?_, fun _ => nofun⟩ ⟨?_, ?_⟩ (fun _ => nofun) hcompact
      hrecover
    · exact Description.direct.inj htext ▸ hdescription
    · exact Option.some.inj hx ▸ hexpiry
    · exact Option.some.inj hc ▸ by decide
    · exact show defaultFeatures.head? ≠ some 0 by decide
    · exact show val (2 ^ 8) defaultFeatures < 2 ^ (5 * 1023) by decide +kernel

/-- The amount of the example has a unit of 0.1 msat. -/
theorem roundTrips_iff_testnet :
    Demo.invoice.RoundTrips .transparent .transparent Demo.recovery Demo.sign := by
  refine ((roundTrips_iff .transparent .transparent Demo.recovery Demo.sign Demo.payee
    (fun digest => rfl) Demo.recoverEcdsa_sign).1 Demo.invoice Demo.invoice_fits ⟨?_, ?_⟩
    Demo.invoice_keys).2 ⟨?_, ?_, ?_, ?_⟩
  · decide
  · decide +kernel
  · decide
  · intro m hm
    cases hm
    exact .inr (by decide)
  · intro text htext
    cases htext
    decide
  · intro hint hh
    rw [List.mem_singleton.1 hh]
    decide

namespace Demo

/-- An invoice with a description of `n` characters and this timestamp. -/
def wordy (n timestamp : Nat) : InvoiceBuilder where
  network := .bitcoin
  amountMsat := none
  timestamp := timestamp
  paymentHash := Vector.replicate 32 1
  paymentSecret := Vector.replicate 32 2
  description := .direct (String.ofList (List.replicate n 'a'))
  expirySecs := some 3600
  minFinalCltvExpiryDelta := some 18
  features := defaultFeatures
  routeHints := []

end Demo

theorem length_bytes_replicate (n : Nat) :
    (String.ofList (List.replicate n 'a')).toByteArray.data.toList.length = n := by
  have hsize : 'a'.utf8Size = 1 := by decide
  rw [String.toByteArray_ofList, List.utf8Encode]
  simp [hsize]

/-- A description of more than 639 bytes is a panic; from 5120 bytes on its length wraps around. -/
theorem encodeSigned_wordy {n timestamp : Nat} (hlow : 640 ≤ n) (hhigh : n < 5120) :
    (Demo.wordy n timestamp).encodeSigned .transparent Demo.sign = none := by
  have hlen := length_groupsOf (String.ofList (List.replicate n 'a')).toByteArray.data.toList
  rw [length_bytes_replicate] at hlen
  have hfield : (Demo.wordy n timestamp).descriptionEntry ∈ (Demo.wordy n timestamp).fields := by
    simp [fields]
  refine encodeSigned_eq_none _ _ hfield ?_ ?_
  · show 1024 ≤ (groupsOf (String.ofList (List.replicate n 'a')).toByteArray.data.toList).length
    omega
  · show (groupsOf (String.ofList (List.replicate n 'a')).toByteArray.data.toList).length < 8192
    omega

/-- A description of 640 bytes is a panic, and a timestamp of 36 bits does not read back. -/
theorem wordy_not_roundTrips :
    (∀ n timestamp, (Demo.wordy n timestamp).Fits ∧ (Demo.wordy n timestamp).FeaturesFit) ∧
    (Demo.wordy 640 0).encodeSigned .transparent Demo.sign = none ∧
    ¬ (Demo.wordy 640 0).RoundTrips .transparent .transparent Demo.recovery Demo.sign ∧
    ¬ (Demo.wordy 0 (2 ^ 35)).RoundTrips .transparent .transparent Demo.recovery Demo.sign := by
  have hnone : (Demo.wordy 640 0).encodeSigned .transparent Demo.sign = none :=
    encodeSigned_wordy (by decide) (by decide)
  refine ⟨fun n timestamp => ⟨⟨fun _ => nofun, fun x hx => ?_, fun c hc => ?_, fun _ => nofun⟩,
    ?_, ?_⟩, hnone, fun h => ?_, fun h => ?_⟩
  · exact Option.some.inj hx ▸ by decide
  · exact Option.some.inj hc ▸ by decide
  · exact show defaultFeatures.head? ≠ some 0 by decide
  · exact show val (2 ^ 8) defaultFeatures < 2 ^ (5 * 1023) by decide +kernel
  · obtain ⟨s, -, hs, -⟩ := h
    rw [hnone] at hs
    cases hs
  · exact absurd h.representable.timestamp (Nat.lt_irrefl _)

end InvoiceBuilder
