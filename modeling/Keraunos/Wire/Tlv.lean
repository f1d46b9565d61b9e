import Keraunos.Wire.Ser
import Keraunos.Lib.Digits

/-!
# TLV streams (`wire/tlv.rs`)

`bigsize type | bigsize length | value`, types strictly ascending. Unknown even types are an error,
unknown odd types are ignored.
-/

namespace Wire

open Bytes Parse

structure TlvRecord where
  typ : Nat
  value : List UInt8
  deriving DecidableEq, Repr

namespace Tlv

/-- One pass of the loop of `parse_stream`: the state is `last_type` and `records`. -/
def record (st : Option Nat × List TlvRecord) :
    Reader (ForInStep (Option Nat × List TlvRecord)) := do
  let typ ← BigSize.read
  if st.1.any (typ ≤ ·) then throw .tlvNotStrictlyAscending
  else
    let len ← BigSize.read
    if (← get).length < len then throw .tlvLengthMismatch
    else
      let value ← Reader.take len
      return .yield (some typ, st.2 ++ [⟨typ, value⟩])

/-- The records of a stream that occupies the whole of `data`. -/
def parseStream (data : List UInt8) : Except WireError (List TlvRecord) := do
  let (st, _) ← (whileMore record (none, [])).run data
  return st.2

/-- Reject any even type that is not in `known`. -/
def checkUnknownEven (records : List TlvRecord) (known : List Nat) : Except WireError Unit :=
  match records.find? fun r => r.typ % 2 = 0 ∧ r.typ ∉ known with
  | some r => .error (.unknownRequiredTlv r.typ)
  | none => .ok ()

def writeRecord (typ : Nat) (value : List UInt8) : List UInt8 :=
  BigSize.write typ ++ BigSize.write value.length ++ value

/-- An optional record. -/
def writeOption (typ : Nat) : Option (List UInt8) → List UInt8
  | some value => writeRecord typ value
  | none => []

/-! ## Truncated integers -/

/-- Big-endian, without the leading zero bytes. -/
def writeTu64 (value : Nat) : List UInt8 := Digits.strip (beBytes 8 value)

def readTu64 (value : List UInt8) : Except WireError Nat :=
  if 8 < value.length then .error (.badFormat "tu64 too long")
  else if value.head? = some 0 then .error (.badFormat "tu64 not minimal")
  else .ok (value.foldl (fun out b => (out <<< 8 ||| b.toNat) % 2 ^ 64) 0)

def writeTu32 (value : Nat) : List UInt8 := writeTu64 value

def readTu32 (value : List UInt8) : Except WireError Nat :=
  if 4 < value.length then .error (.badFormat "tu32 too long")
  else do return (← readTu64 value) % 2 ^ 32

end Tlv

end Wire
