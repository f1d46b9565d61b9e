import Keraunos.Invoice.Bolt11
import Keraunos.Lib.Slice

/-!
# Parsing invoices, slice by slice (`invoice/mod.rs`, `invoice/bech32.rs`)

The parser with every slice, index, difference and shift as the source has it, each a panic where it is
out of range. `Bolt11Invoice.parse` is what it computes.
-/

open Bech32

/-- An error of another type; a panic stays one. -/
def Fault.wrap {ε ε' : Type} (f : ε → ε') : Fault ε → Fault ε'
  | .err e => .err (f e)
  | .panic => .panic

namespace Bech32

def decodeSliced (s : List Char) : Except (Fault Bech32Error) (List Char × List UInt8) := do
  if s.any Char.isLower && s.any Char.isUpper then throw (.err .mixedCase)
  let s := s.map Char.toLower
  let sep ← Fault.okOr (Str.rfind '1' s) .noSeparator
  if sep = 0 ∨ sep + 7 > Str.size s then throw (.err .noSeparator)
  let hrp ← Str.upTo s sep
  -- The capacity of `data`.
  let afterSep ← Slice.minus (Str.size s) sep
  let _ ← Slice.minus afterSep 1
  let rest ← Str.since s (sep + 1)
  let data ← (rest.mapM valueOf).mapError .err
  if polymod (hrpExpand hrp ++ data) ≠ 1 then throw (.err .badChecksum)
  let n ← Slice.minus data.length 6
  return (hrp, data.take n)

section
variable {ε : Type}

/-- The amount of a shift of a `u32`. -/
def shiftBy (n : Nat) : Except (Fault ε) Nat := if n < 32 then .ok n else .error .panic

def drainSliced (toBits acc bits : Nat) (out : List UInt8) : Except (Fault ε) (Nat × List UInt8) :=
  if toBits ≤ bits ∧ 0 < toBits then
    match shiftBy (bits - toBits) with
    | .error e => .error e
    | .ok shift => drainSliced toBits acc (bits - toBits)
        (out ++ [UInt8.ofNat ((acc >>> shift) &&& (2 ^ toBits - 1))])
  else .ok (bits, out)
termination_by bits
decreasing_by omega

def convertStepSliced (fromBits toBits : Nat) (st : Conversion) (value : UInt8) :
    Except (Fault Bech32Error) Conversion := do
  let shift ← shiftBy fromBits
  if value.toNat >>> shift ≠ 0 then .error (.err .paddingError)
  else
    let acc := (st.acc <<< shift ||| value.toNat) % 2 ^ 32
    let (bits, out) ← drainSliced toBits acc (st.bits + fromBits) st.out
    return ⟨acc, bits, out⟩

def convertBitsSliced (data : List UInt8) (fromBits toBits : Nat) (pad : Bool) :
    Except (Fault Bech32Error) (List UInt8) := do
  let width ← shiftBy toBits
  let maxv ← Slice.minus (1 <<< width) 1
  let st ← data.foldlM (convertStepSliced fromBits toBits) {}
  if pad then
    if 0 < st.bits then
      let left ← Slice.minus toBits st.bits
      let shift ← shiftBy left
      return st.out ++ [UInt8.ofNat ((st.acc <<< shift) % 2 ^ 32 &&& maxv)]
    else return st.out
  else if fromBits ≤ st.bits then .error (.err .paddingError)
  else
    let left ← Slice.minus toBits st.bits
    let shift ← shiftBy left
    if (st.acc <<< shift) % 2 ^ 32 &&& maxv ≠ 0 then .error (.err .paddingError)
    else return st.out

end

end Bech32

namespace Invoice

/-! ## Amounts and groups -/

/-- `&s[..s.len() - 1]`. -/
def withoutLast (s : List Char) : Except (Fault InvoiceError) (List Char) := do
  let n ← Slice.minus (Str.size s) 1
  Str.upTo s n

def amountUnitSliced (s : List Char) (last : Char) :
    Except (Fault InvoiceError) (List Char × Nat) := do
  match last with
  | 'm' => return (← withoutLast s, 100000000)
  | 'u' => return (← withoutLast s, 100000)
  | 'n' => return (← withoutLast s, 100)
  | 'p' => return (← withoutLast s, 0)
  | c => if c.isDigit then return (s, 100000000000) else throw (.err .badAmount)

def parseAmountSliced (s : List Char) : Except (Fault InvoiceError) (Option Msat) :=
  if s = [] then return none
  else do
    let last ← Fault.expect s.getLast?
    let (digits, multiplier) ← amountUnitSliced s last
    if digits = [] ∨ ¬ digits.all Char.isDigit then throw (.err .badAmount)
    else
      match parseU64 digits with
      | none => throw (.err .badAmount)
      | some value =>
        if multiplier = 0 then
          if value % 10 ≠ 0 then throw (.err .badAmount) else return some (value / 10)
        else if value * multiplier < 2 ^ 64 then return some (value * multiplier)
        else throw (.err .badAmount)

section
variable {ε : Type}

/-- The body of the loop of `five_bit_to_bytes_be` over `groups`, of `nbytes` bytes. -/
def copyBit (groups : List UInt8) (nbytes : Nat) (out : List UInt8) (bit : Nat) :
    Except (Fault ε) (List UInt8) := do
  let lastGroup ← Slice.minus groups.length 1
  let group ← Slice.minus lastGroup (bit / 5)
  let g ← Slice.index groups group
  if g.toNat.testBit (bit % 5) then
    let lastByte ← Slice.minus nbytes 1
    let byte ← Slice.minus lastByte (bit / 8)
    let old ← Slice.index out byte
    return out.set byte (old ||| UInt8.ofNat (2 ^ (bit % 8)))
  else return out

def fiveBitToBytesBeSliced (groups : List UInt8) : Except (Fault ε) (List UInt8) := do
  let totalBits := groups.length * 5
  let nbytes := (totalBits + 8 - 1) / 8
  let out ← (List.range totalBits).foldlM (copyBit groups nbytes) (List.replicate nbytes 0)
  let firstNonzero := (out.findIdx? fun b => b ≠ 0).getD out.length
  Slice.since out firstNonzero

end

/-! ## Fields -/

/-- The result of `convert_bits` in a function with other errors. -/
def convertSliced (f : Bech32Error → InvoiceError) (data : List UInt8) (pad : Bool) :
    Except (Fault InvoiceError) (List UInt8) :=
  (convertBitsSliced data 5 8 pad).mapError (Fault.wrap f)

/-- `bytes[..32].try_into().expect(..)`. -/
def readBytes32Sliced (body : List UInt8) : Except (Fault InvoiceError) Bytes32 := do
  let bytes ← convertSliced .bech32 body true
  let first ← Slice.upTo bytes 32
  Fault.expect (firstBytes 32 first)

section
variable (K : KeyParsers)

/-- An integer of `w` bytes at `a`. -/
def wordAt (chunk : List UInt8) (a w : Nat) : Except (Fault InvoiceError) Nat := do
  let bytes ← Slice.between chunk a (a + w)
  let bytes ← Slice.array w bytes
  return Bytes.beVal bytes

def readHopSliced (chunk : List UInt8) : Except (Fault InvoiceError) RouteHintHop := do
  let key ← Slice.upTo chunk 33
  let srcNodeId ← Fault.okOr (K.fromSlice key) (.badField "route hint pubkey")
  let shortChannelId ← wordAt chunk 33 8
  let feeBaseMsat ← wordAt chunk 41 4
  let feeProportionalMillionths ← wordAt chunk 45 4
  let cltvExpiryDelta ← wordAt chunk 49 2
  return ⟨srcNodeId, shortChannelId, feeBaseMsat, feeProportionalMillionths, cltvExpiryDelta⟩

def readRouteHintSliced (body : List UInt8) :
    Except (Fault InvoiceError) (List RouteHintHop) := do
  let bytes ← convertSliced (fun _ => .badField "route hint") body false
  Fault.require (bytes.length % 51 = 0) (.badField "route hint length")
  (chunksExact 51 bytes).mapM (readHopSliced K)

def readFieldSliced (found : TaggedFields) (tag : UInt8) (len : Nat) (body : List UInt8) :
    Except (Fault InvoiceError) TaggedFields :=
  if tag = tagPaymentHash ∧ len = 52 then do
    return { found with paymentHash := some (← readBytes32Sliced body) }
  else if tag = tagPaymentSecret ∧ len = 52 then do
    return { found with paymentSecret := some (← readBytes32Sliced body) }
  else if tag = tagDescription then do
    let bytes ← convertSliced (fun _ => .badField "description") body false
    let text ← Fault.okOr (String.fromUTF8? ⟨bytes.toArray⟩) (.badField "description utf8")
    return { found with description := some (.direct text) }
  else if tag = tagDescriptionHash ∧ len = 52 then do
    return { found with description := some (.hash (← readBytes32Sliced body)) }
  else if tag = tagExpiry then .ok { found with expiry := some (groupsVal 64 body) }
  else if tag = tagMinFinalCltv then .ok { found with minFinalCltv := some (groupsVal 32 body) }
  else if tag = tagFeatures then do
    return { found with features := ← fiveBitToBytesBeSliced body }
  else if tag = tagPayeeNode ∧ len = 53 then do
    let bytes ← convertSliced .bech32 body true
    let key ← Slice.upTo bytes 33
    return { found with explicitPayee := K.fromSlice key }
  else if tag = tagRouteHint then do
    return { found with routeHints := found.routeHints ++ [← readRouteHintSliced K body] }
  else .ok found

/-- The `while` loop over the tagged fields: the slice that is left gets shorter in every pass. -/
def readFieldsSliced (found : TaggedFields) (fields : List UInt8) :
    Except (Fault InvoiceError) TaggedFields :=
  if fields = [] then .ok found
  else if fields.length < 3 then .error (.err (.badField "truncated tagged field"))
  else do
    let tag ← Slice.index fields 0
    let hi ← Slice.index fields 1
    let lo ← Slice.index fields 2
    let len := hi.toNat * 32 + lo.toNat
    if fields.length < 3 + len then .error (.err (.badField "tagged field overruns data"))
    else
      let body ← Slice.between fields 3 (3 + len)
      match _hrest : Slice.since fields (3 + len) with
      | .error e => .error e
      | .ok rest => do
        let found ← readFieldSliced K found tag len body
        readFieldsSliced found rest
termination_by fields.length
decreasing_by
  have hrest := Slice.since_eq_ok _hrest
  rw [hrest.2, List.length_drop]
  omega

end

/-- The network, after `ln`. -/
def splitHrpSliced (hrp : List Char) : Except (Fault InvoiceError) (Network × List Char) := do
  Fault.require (['l', 'n'].isPrefixOf hrp) .badPrefix
  let afterLn ← Str.since hrp 2
  Fault.okOr ([Network.regtest, .signet, .testnet, .bitcoin].findSome? fun network =>
    (network.invoiceHrp.isPrefixOf? afterLn).map (network, ·)) .badPrefix

def readSignatureSliced (R : Recovery) (groups : List UInt8) :
    Except (Fault InvoiceError) RecoverableSignature := do
  let bytes ← convertSliced .bech32 groups false
  -- The debug assertion.
  let bytes ← Slice.array 65 bytes
  let recovery ← Slice.index bytes 64
  if h : recovery.toNat < 4 then
    let compact ← Slice.upTo bytes 64
    let compact ← Fault.expect (firstBytes 64 compact)
    Fault.okOr (R.fromCompact compact ⟨recovery.toNat, h⟩) .badSignature
  else .error (.err .badSignature)

end Invoice

open Invoice

def Bolt11Invoice.parseSliced (C : Crypto) (K : KeyParsers) (R : Recovery) (s : String) :
    Except (Fault InvoiceError) Bolt11Invoice := do
  let (hrp, data) ← (decodeSliced s.toList).mapError (Fault.wrap .bech32)
  let (network, amountStr) ← splitHrpSliced hrp
  let amountMsat ← parseAmountSliced amountStr
  Fault.require (7 + 104 ≤ data.length) .tooShort
  let mid ← Slice.minus data.length 104
  let head ← Slice.upTo data mid
  let sigPart ← Slice.since data mid
  let timestamp ← Slice.upTo head 7
  let rsig ← readSignatureSliced R sigPart
  let packed ← convertSliced .bech32 head true
  let msg := C.sha256 (utf8 hrp ++ packed)
  let recovered ← Fault.okOr (R.recoverEcdsa msg rsig) .badSignature
  let tagged ← Slice.since head 7
  let fields ← readFieldsSliced K {} tagged
  let payee ← match fields.explicitPayee with
    | some pk => do
      Fault.require (C.verifyEcdsa msg (R.toStandard rsig) pk) .badSignature
      pure pk
    | none => pure recovered
  return { network, amountMsat, payee
           timestamp := groupsVal 64 timestamp
           paymentHash := ← Fault.okOr fields.paymentHash (.missingField "payment_hash")
           paymentSecret := ← Fault.okOr fields.paymentSecret (.missingField "payment_secret")
           description := ← Fault.okOr fields.description (.missingField "description")
           expirySecs := fields.expiry
           minFinalCltvExpiryDelta := fields.minFinalCltv
           features := fields.features
           routeHints := fields.routeHints }
