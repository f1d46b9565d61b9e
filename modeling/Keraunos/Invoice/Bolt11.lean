import Keraunos.Invoice.Bech32
import Keraunos.Lib.Digits
import Keraunos.Wire.Msgs

/-!
# BOLT 11 invoices (`invoice/mod.rs`)

`Bolt11Invoice.parse` and `InvoiceBuilder.encodeSigned`. Recoverable signatures are their serialised
form; `Recovery` is what the `secp256k1` crate does with them. A panic of the encoder is `none`.
-/

open Bech32 Bytes

inductive InvoiceError where
  | bech32 (e : Bech32Error)
  | badPrefix
  | badAmount
  | tooShort
  | missingField (field : String)
  | badField (field : String)
  | badSignature
  deriving DecidableEq, Repr

inductive Description where
  | direct (text : String)
  /-- SHA256 of a longer description transmitted out of band. -/
  | hash (digest : Bytes32)
  deriving DecidableEq

structure RouteHintHop where
  srcNodeId : PublicKey
  shortChannelId : ShortChannelId
  feeBaseMsat : Nat
  feeProportionalMillionths : Nat
  cltvExpiryDelta : Nat
  deriving DecidableEq, Repr

structure Bolt11Invoice where
  network : Network
  amountMsat : Option Msat
  timestamp : Nat
  paymentHash : PaymentHash
  paymentSecret : PaymentSecret
  description : Description
  expirySecs : Option Nat
  minFinalCltvExpiryDelta : Option Nat
  features : Features
  routeHints : List (List RouteHintHop)
  /-- Recovered (or explicit `n`-field) payee node id. -/
  payee : PublicKey
  deriving DecidableEq

def Bolt11Invoice.minFinalCltvOrDefault (i : Bolt11Invoice) : Nat :=
  i.minFinalCltvExpiryDelta.getD 18

/-- Everything needed to mint an invoice. -/
structure InvoiceBuilder where
  network : Network
  amountMsat : Option Msat
  timestamp : Nat
  paymentHash : PaymentHash
  paymentSecret : PaymentSecret
  description : Description
  expirySecs : Option Nat
  minFinalCltvExpiryDelta : Option Nat
  features : Features
  routeHints : List (List RouteHintHop)
  deriving DecidableEq

/-- Standard invoice features. -/
def InvoiceBuilder.defaultFeatures : Features := [8, 14, 17].foldl Features.setBit []

/-- `invoice_hrp`. -/
def Network.invoiceHrp : Network → List Char
  | .bitcoin => ['b', 'c']
  | .testnet => ['t', 'b']
  | .signet => ['t', 'b', 's']
  | .regtest => ['b', 'c', 'r', 't']

structure RecoverableSignature where
  recoveryId : Fin 4
  compact : Vector UInt8 64
  deriving DecidableEq

/-- Recoverable signatures in the `secp256k1` crate. -/
structure Recovery where
  /-- `RecoverableSignature::from_compact`. -/
  fromCompact : Vector UInt8 64 → Fin 4 → Option RecoverableSignature
  /-- `recover_ecdsa`. -/
  recoverEcdsa : Bytes32 → RecoverableSignature → Option PublicKey
  /-- `to_standard`. -/
  toStandard : RecoverableSignature → Signature

namespace Invoice

/-! ## Tags -/

def tagPaymentHash : UInt8 := 1
def tagRouteHint : UInt8 := 3
def tagFeatures : UInt8 := 5
def tagExpiry : UInt8 := 6
def tagDescription : UInt8 := 13
def tagPaymentSecret : UInt8 := 16
def tagPayeeNode : UInt8 := 19
def tagDescriptionHash : UInt8 := 23
def tagMinFinalCltv : UInt8 := 24

/-! ## Amounts -/

/-- `str::parse::<u64>` of a string of digits. -/
def parseU64 (digits : List Char) : Option Nat :=
  let value := Nat.ofDigitChars 10 digits 0
  if value < 2 ^ 64 then some value else none

/-- The digits of an amount and its multiplier; 0 stands for the unit of 0.1 msat. -/
def amountUnit (s : List Char) (last : Char) : Option (List Char × Nat) :=
  match last with
  | 'm' => some (s.dropLast, 100000000)
  | 'u' => some (s.dropLast, 100000)
  | 'n' => some (s.dropLast, 100)
  | 'p' => some (s.dropLast, 0)
  | c => if c.isDigit then some (s, 100000000000) else none

def parseAmount (s : List Char) : Except InvoiceError (Option Msat) :=
  match s.getLast? with
  | none => .ok none
  | some last =>
    match amountUnit s last with
    | none => .error .badAmount
    | some (digits, multiplier) =>
      if digits = [] ∨ ¬ digits.all Char.isDigit then .error .badAmount
      else
        match parseU64 digits with
        | none => .error .badAmount
        | some value =>
          if multiplier = 0 then
            if value % 10 ≠ 0 then .error .badAmount else .ok (some (value / 10))
          else if value * multiplier < 2 ^ 64 then .ok (some (value * multiplier))
          else .error .badAmount

/-- `encode_amount`; the product wraps. -/
def encodeAmount (m : Msat) : List Char :=
  if m % 100000000 = 0 then Nat.toDigits 10 (m / 100000000) ++ ['m']
  else if m % 100000 = 0 then Nat.toDigits 10 (m / 100000) ++ ['u']
  else if m % 100 = 0 then Nat.toDigits 10 (m / 100) ++ ['n']
  else Nat.toDigits 10 (m * 10 % 2 ^ 64) ++ ['p']

/-! ## Groups of bits -/

/-- Bit `bit` of a string of groups of `width` bits, counted from its end. -/
def bitOf (width : Nat) (groups : List UInt8) (bit : Nat) : Bool :=
  (groups.getD (groups.length - 1 - bit / width) 0).toNat.testBit (bit % width)

/-- Regroup a big integer from groups of `fromBits` bits to groups of `toBits`, leading zeros
stripped. -/
def regroup (fromBits toBits : Nat) (groups : List UInt8) : List UInt8 :=
  let totalBits := groups.length * fromBits
  let n := (totalBits + toBits - 1) / toBits
  Digits.strip ((List.range totalBits).foldl (fun out bit =>
    if bitOf fromBits groups bit then
      out.modify (n - 1 - bit / toBits) fun g => g ||| UInt8.ofNat (2 ^ (bit % toBits))
    else out) (List.replicate n 0))

/-- Feature vector to minimal big-endian 5-bit groups. -/
def bytesToFiveBitBe (bytes : List UInt8) : List UInt8 := regroup 8 5 bytes

/-- 5-bit groups to minimal big-endian bytes. -/
def fiveBitToBytesBe (groups : List UInt8) : List UInt8 := regroup 5 8 groups

/-- The loop of `minimal_base32_be`, least significant group first. -/
def base32Loop (v : Nat) : List UInt8 :=
  if v = 0 then [] else UInt8.ofNat (v &&& 31) :: base32Loop (v >>> 5)
termination_by v
decreasing_by
  rw [Nat.shiftRight_eq_div_pow]
  omega

def minimalBase32Be (v : Nat) : List UInt8 :=
  if v = 0 then [0] else (base32Loop v).reverse

/-- The big-endian value of 5-bit groups, in a `width`-bit integer. -/
def groupsVal (width : Nat) (groups : List UInt8) : Nat :=
  groups.foldl (fun acc v => (acc <<< 5 ||| v.toNat) % 2 ^ width) 0

/-! ## Parsing -/

/-- A failed conversion is the error `f`. -/
def orError {α : Type} (f : Bech32Error → InvoiceError) :
    Except Bech32Error α → Except (Fault InvoiceError) α
  | .ok a => .ok a
  | .error e => .error (.err (f e))

/-- `bytes[..n]` as an array. -/
def firstBytes (n : Nat) (bytes : List UInt8) : Option (Vector UInt8 n) :=
  if h : n ≤ bytes.length then some ⟨(bytes.take n).toArray, by simp [h]⟩ else none

/-- What the loop over the tagged fields has found so far. -/
structure TaggedFields where
  paymentHash : Option PaymentHash := none
  paymentSecret : Option PaymentSecret := none
  description : Option Description := none
  expiry : Option Nat := none
  minFinalCltv : Option Nat := none
  features : Features := []
  routeHints : List (List RouteHintHop) := []
  explicitPayee : Option PublicKey := none
  deriving DecidableEq

section
variable (K : KeyParsers)

/-- One hop of a route hint, from 51 bytes. -/
def readHop (chunk : List UInt8) : Except (Fault InvoiceError) RouteHintHop := do
  let srcNodeId ← Fault.okOr (K.fromSlice (chunk.take 33)) (.badField "route hint pubkey")
  return ⟨srcNodeId, beVal ((chunk.drop 33).take 8), beVal ((chunk.drop 41).take 4),
    beVal ((chunk.drop 45).take 4), beVal ((chunk.drop 49).take 2)⟩

/-- `chunks_exact`. -/
def chunksExact (n : Nat) (bytes : List UInt8) : List (List UInt8) :=
  (List.range (bytes.length / n)).map fun i => (bytes.drop (n * i)).take n

def readRouteHint (body : List UInt8) : Except (Fault InvoiceError) (List RouteHintHop) := do
  let bytes ← orError (fun _ => .badField "route hint") (convertBits body 5 8 false)
  Fault.require (bytes.length % 51 = 0) (.badField "route hint length")
  (chunksExact 51 bytes).mapM (readHop K)

/-- 32 bytes from 52 groups. -/
def readBytes32 (body : List UInt8) : Except (Fault InvoiceError) Bytes32 := do
  let bytes ← orError .bech32 (convertBits body 5 8 true)
  Fault.expect (firstBytes 32 bytes)

/-- The arm of the `match` on the tag. -/
def readField (found : TaggedFields) (tag : UInt8) (body : List UInt8) :
    Except (Fault InvoiceError) TaggedFields :=
  if tag = tagPaymentHash ∧ body.length = 52 then do
    return { found with paymentHash := some (← readBytes32 body) }
  else if tag = tagPaymentSecret ∧ body.length = 52 then do
    return { found with paymentSecret := some (← readBytes32 body) }
  else if tag = tagDescription then do
    let bytes ← orError (fun _ => .badField "description") (convertBits body 5 8 false)
    let text ← Fault.okOr (String.fromUTF8? ⟨bytes.toArray⟩) (.badField "description utf8")
    return { found with description := some (.direct text) }
  else if tag = tagDescriptionHash ∧ body.length = 52 then do
    return { found with description := some (.hash (← readBytes32 body)) }
  else if tag = tagExpiry then .ok { found with expiry := some (groupsVal 64 body) }
  else if tag = tagMinFinalCltv then .ok { found with minFinalCltv := some (groupsVal 32 body) }
  else if tag = tagFeatures then .ok { found with features := fiveBitToBytesBe body }
  else if tag = tagPayeeNode ∧ body.length = 53 then do
    let bytes ← orError .bech32 (convertBits body 5 8 true)
    return { found with explicitPayee := K.fromSlice (bytes.take 33) }
  else if tag = tagRouteHint then do
    return { found with routeHints := found.routeHints ++ [← readRouteHint K body] }
  -- Fallback addresses, metadata and unknown tags are skipped.
  else .ok found

/-- The loop over the tagged fields. -/
def readFields (found : TaggedFields) : List UInt8 → Except (Fault InvoiceError) TaggedFields
  | [] => .ok found
  | tag :: hi :: lo :: rest =>
    let len := hi.toNat * 32 + lo.toNat
    if rest.length < len then .error (.err (.badField "tagged field overruns data"))
    else
      match readField K found tag (rest.take len) with
      | .ok found => readFields found (rest.drop len)
      | .error e => .error e
  | _ => .error (.err (.badField "truncated tagged field"))
termination_by fields => fields.length
decreasing_by
  simp only [List.length_cons, List.length_drop]
  omega

end

/-- The network and the amount of the human-readable part: the longest prefix first. -/
def splitHrp (hrp : List Char) : Option (Network × List Char) := do
  let afterLn ← ['l', 'n'].isPrefixOf? hrp
  [Network.regtest, .signet, .testnet, .bitcoin].findSome? fun network =>
    (network.invoiceHrp.isPrefixOf? afterLn).map (network, ·)

/-- The message signed: the human-readable part and the data, packed into bytes. -/
def signedMessage (C : Crypto) (hrp : List Char) (data : List UInt8) :
    Except Bech32Error Bytes32 := do
  return C.sha256 (utf8 hrp ++ (← convertBits data 5 8 true))

/-- The signature of the last 104 groups. -/
def readSignature (R : Recovery) (groups : List UInt8) :
    Except (Fault InvoiceError) RecoverableSignature := do
  let bytes ← orError .bech32 (convertBits groups 5 8 false)
  let recovery ← Fault.expect bytes[64]?
  let compact ← Fault.expect (firstBytes 64 bytes)
  if h : recovery.toNat < 4 then
    Fault.okOr (R.fromCompact compact ⟨recovery.toNat, h⟩) .badSignature
  else .error (.err .badSignature)

end Invoice

open Invoice

/-- `Bolt11Invoice::parse`. -/
def Bolt11Invoice.parse (C : Crypto) (K : KeyParsers) (R : Recovery) (s : String) :
    Except (Fault InvoiceError) Bolt11Invoice := do
  let (hrp, data) ← orError .bech32 (decode s.toList)
  let (network, amountStr) ← Fault.okOr (splitHrp hrp) .badPrefix
  let amountMsat ← (parseAmount amountStr).mapError .err
  Fault.require (7 + 104 ≤ data.length) .tooShort
  let head := data.take (data.length - 104)
  let rsig ← readSignature R (data.drop (data.length - 104))
  let msg ← orError .bech32 (signedMessage C hrp head)
  let recovered ← Fault.okOr (R.recoverEcdsa msg rsig) .badSignature
  let fields ← readFields K {} (head.drop 7)
  -- The signature must verify against an explicit payee; otherwise the recovered key is the payee.
  let payee ← match fields.explicitPayee with
    | some pk => do
      Fault.require (C.verifyEcdsa msg (R.toStandard rsig) pk) .badSignature
      pure pk
    | none => pure recovered
  return { network, amountMsat, payee
           timestamp := groupsVal 64 (head.take 7)
           paymentHash := ← Fault.okOr fields.paymentHash (.missingField "payment_hash")
           paymentSecret := ← Fault.okOr fields.paymentSecret (.missingField "payment_secret")
           description := ← Fault.okOr fields.description (.missingField "description")
           expirySecs := fields.expiry
           minFinalCltvExpiryDelta := fields.minFinalCltv
           features := fields.features
           routeHints := fields.routeHints }

/-! ## Encoding -/

namespace Invoice

/-- `tagged`: the length is two groups of 5 bits, each cast to a byte. -/
def tagged (tag : UInt8) (body : List UInt8) : List UInt8 :=
  tag :: UInt8.ofNat (body.length / 32) :: UInt8.ofNat (body.length % 32) :: body

/-- Bytes as 5-bit groups. -/
def packed (bytes : List UInt8) : Option (List UInt8) := (convertBits bytes 8 5 true).toOption

def hopBytes (hop : RouteHintHop) : List UInt8 :=
  hop.srcNodeId.serialize ++ beBytes 8 hop.shortChannelId ++ beBytes 4 hop.feeBaseMsat ++
    beBytes 4 hop.feeProportionalMillionths ++ beBytes 2 hop.cltvExpiryDelta

end Invoice

namespace InvoiceBuilder

variable (b : InvoiceBuilder)

def hrp : List Char :=
  ['l', 'n'] ++ b.network.invoiceHrp ++ (b.amountMsat.map encodeAmount).getD []

def timestampGroups : List UInt8 :=
  [6, 5, 4, 3, 2, 1, 0].map fun i => UInt8.ofNat ((b.timestamp >>> (5 * i)) &&& 31)

def descriptionField : Option (List UInt8) :=
  match b.description with
  | .direct text => (packed text.toByteArray.data.toList).map (tagged tagDescription)
  | .hash digest => (packed digest.toList).map (tagged tagDescriptionHash)

def hintField (hint : List RouteHintHop) : Option (List UInt8) :=
  (packed (hint.flatMap hopBytes)).map (tagged tagRouteHint)

/-- The data part without the signature: s, p, d/h, x, c, r, 9. -/
def data : Option (List UInt8) := do
  let secret ← packed b.paymentSecret.toList
  let hash ← packed b.paymentHash.toList
  let description ← b.descriptionField
  let hints ← b.routeHints.mapM hintField
  return b.timestampGroups ++ tagged tagPaymentSecret secret ++ tagged tagPaymentHash hash ++
    description ++ (b.expirySecs.map fun x => tagged tagExpiry (minimalBase32Be x)).getD [] ++
    (b.minFinalCltvExpiryDelta.map fun c => tagged tagMinFinalCltv (minimalBase32Be c)).getD [] ++
    hints.flatten ++
    if b.features = [] then [] else tagged tagFeatures (bytesToFiveBitBe b.features)

/-- `encode_signed`. -/
def encodeSigned (C : Crypto) (sign : Bytes32 → RecoverableSignature) : Option String := do
  let data ← b.data
  let digest ← (signedMessage C b.hrp data).toOption
  let rsig := sign digest
  let sig ← packed (rsig.compact.toList ++ [UInt8.ofNat rsig.recoveryId])
  return String.ofList (← encode b.hrp (data ++ sig))

end InvoiceBuilder
