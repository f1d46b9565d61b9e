import Keraunos.Lib.Act
import Mathlib.Algebra.Group.Nat.Defs
import Mathlib.Data.List.Basic

/-!
# Bech32 (`invoice/bech32.rs`)

The original bech32 with the checksum constant 1 and without the length cap. A string is the list of
its characters; its length is that of its UTF-8 encoding.
-/

namespace Bech32

def charset : List Char := "qpzry9x8gf2tvdw0s3jn54khce6mua7l".toList

inductive Bech32Error where
  | badChar (c : Char)
  | badChecksum
  | noSeparator
  | mixedCase
  | paddingError
  deriving DecidableEq, Repr

/-- `str::bytes`. -/
def utf8 (s : List Char) : List UInt8 := s.flatMap String.utf8EncodeChar

/-! ## The checksum -/

def gen : List (BitVec 32) := [0x3b6a57b2, 0x26508e6d, 0x1ea119fa, 0x3d4233dd, 0x2a1462b3]

/-- The body of the loop of `polymod`. -/
def polymodStep (chk : BitVec 32) (v : UInt8) : BitVec 32 :=
  let b := chk >>> 25
  gen.zipIdx.foldl (fun chk gi => if (b >>> gi.2) &&& 1#32 ≠ 0#32 then chk ^^^ gi.1 else chk)
    (((chk &&& 0x01ffffff) <<< 5) ^^^ BitVec.ofNat 32 v.toNat)

def polymod (values : List UInt8) : BitVec 32 := values.foldl polymodStep 1

def hrpExpand (hrp : List Char) : List UInt8 :=
  (utf8 hrp).map (fun c => c >>> (5 : UInt8)) ++ [0] ++ (utf8 hrp).map fun c => c &&& (31 : UInt8)

/-- The six 5-bit groups of a checksum. -/
def checksumGroups (plm : BitVec 32) : List Nat :=
  (List.range 6).map fun i => ((plm >>> (5 * (5 - i))) &&& 31).toNat

/-- Encode 5-bit values with checksum; a value of more than 5 bits is a panic. -/
def encode (hrp : List Char) (data : List UInt8) : Option (List Char) := do
  let plm := polymod (hrpExpand hrp ++ data ++ List.replicate 6 0) ^^^ 1
  let payload ← data.mapM fun d => charset[d.toNat]?
  let checksum ← (checksumGroups plm).mapM fun d => charset[d]?
  return hrp ++ ['1'] ++ payload ++ checksum

/-- The 5-bit value of a character. -/
def valueOf (c : Char) : Except Bech32Error UInt8 :=
  match charset.findIdx? (· = c) with
  | some i => .ok (UInt8.ofNat i)
  | none => .error (.badChar c)

/-- Decode to the human-readable part and the 5-bit values, checksum stripped and verified. -/
def decode (s : List Char) : Except Bech32Error (List Char × List UInt8) := do
  if s.any Char.isLower && s.any Char.isUpper then throw .mixedCase
  let s := s.map Char.toLower
  -- The last `1` separates the two parts.
  let payload := (s.reverse.takeWhile (· ≠ '1')).reverse
  match s.reverse.dropWhile (· ≠ '1') with
  | [] => throw .noSeparator
  | _ :: hrpReversed =>
    let hrp := hrpReversed.reverse
    if hrp = [] ∨ (utf8 payload).length < 6 then throw .noSeparator
    let data ← payload.mapM valueOf
    if polymod (hrpExpand hrp ++ data) ≠ 1 then throw .badChecksum
    return (hrp, data.take (data.length - 6))

/-! ## Base conversion -/

/-- The inner loop of `convert_bits`: move whole groups of `toBits` bits out of the accumulator. -/
def drain (toBits acc bits : Nat) (out : List UInt8) : Nat × List UInt8 :=
  -- A conversion to groups of no bits would not end; there is none.
  if toBits ≤ bits ∧ 0 < toBits then
    drain toBits acc (bits - toBits)
      (out ++ [UInt8.ofNat ((acc >>> (bits - toBits)) &&& (2 ^ toBits - 1))])
  else (bits, out)
termination_by bits
decreasing_by omega

/-- The state of `convert_bits`; `acc` is a `u32`. -/
structure Conversion where
  acc : Nat := 0
  bits : Nat := 0
  out : List UInt8 := []
  deriving DecidableEq, Repr

/-- The body of the loop of `convert_bits`. -/
def convertStep (fromBits toBits : Nat) (st : Conversion) (value : UInt8) :
    Except Bech32Error Conversion :=
  if value.toNat >>> fromBits ≠ 0 then .error .paddingError
  else
    let acc := (st.acc <<< fromBits ||| value.toNat) % 2 ^ 32
    let (bits, out) := drain toBits acc (st.bits + fromBits) st.out
    .ok ⟨acc, bits, out⟩

/-- General power-of-two base conversion. -/
def convertBits (data : List UInt8) (fromBits toBits : Nat) (pad : Bool) :
    Except Bech32Error (List UInt8) := do
  let st ← data.foldlM (convertStep fromBits toBits) {}
  let rest := (st.acc <<< (toBits - st.bits)) % 2 ^ 32 &&& (2 ^ toBits - 1)
  if pad then
    return if 0 < st.bits then st.out ++ [UInt8.ofNat rest] else st.out
  else if fromBits ≤ st.bits ∨ rest ≠ 0 then throw .paddingError
  else return st.out

end Bech32
