import Keraunos.Lib.Parse
import Keraunos.Bitcoin.Tx

/-!
# Consensus encoding (`bitcoin/encode.rs`, `bitcoin/tx.rs`)

The full serialisation of a transaction, with witnesses when it has any, and its parser. The
version is the 32-bit pattern of the source's `i32`.
-/

namespace Bitcoin

open Bytes Parse

inductive DecodeError where
  | unexpectedEnd
  | nonMinimal
  | oversized
  | badFormat (what : String)
  deriving DecidableEq, Repr

/-- `Reader`: the state is the unread rest. -/
abbrev Reader (α : Type) : Type := Parser UInt8 DecodeError α

namespace Reader

def take (n : Nat) : Reader (List UInt8) := Parse.take .unexpectedEnd n

def array (n : Nat) : Reader (Vector UInt8 n) := fun data =>
  if h : data.length < n then .error .unexpectedEnd
  else .ok (⟨(data.take n).toArray, Bytes.size_take h⟩, data.drop n)

def u8 : Reader Nat := do
  return beVal (← take 1)

/-- `uN::from_le_bytes` of the next `w` bytes. -/
def uintLe (w : Nat) : Reader Nat := do
  return beVal (← take w).reverse

/-- CompactSize; encodings longer than needed are rejected. -/
def compactSize : Reader Nat := do
  let first ← u8
  if first ≤ 0xfc then return first
  else if first = 0xfd then
    let v ← uintLe 2
    if v < 0xfd then throw .nonMinimal else return v
  else if first = 0xfe then
    let v ← uintLe 4
    if v ≤ 0xffff then throw .nonMinimal else return v
  else
    let v ← uintLe 8
    if v ≤ 0xffffffff then throw .nonMinimal else return v

/-- Bytes after their length, with a sanity cap. -/
def sizedBytes (cap : Nat) : Reader (List UInt8) := do
  let len ← compactSize
  if cap < len then throw .oversized else take len

end Reader

def OutPoint.read : Reader OutPoint := do
  let txid ← Reader.array 32
  let vout ← Reader.uintLe 4
  return { txid, vout }

def TxOut.read : Reader TxOut := do
  let value ← Reader.uintLe 8
  let scriptPubkey ← Reader.sizedBytes 10000
  return { value, scriptPubkey }

/-- An input without its witness. -/
def TxIn.read : Reader TxIn := do
  let previousOutput ← OutPoint.read
  let scriptSig ← Reader.sizedBytes 10000
  let sequence ← Reader.uintLe 4
  return { previousOutput, scriptSig, sequence, witness := [] }

/-- The witness of an input, after all outputs. -/
def TxIn.readWitness (i : TxIn) : Reader TxIn := do
  let items ← Reader.compactSize
  if 1000 < items then throw .oversized
  else
    let witness ← times (Reader.sizedBytes 4000000) items
    return { i with witness }

def TxIn.readWitnesses : List TxIn → Reader (List TxIn)
  | [] => pure []
  | i :: is => do
    let i ← i.readWitness
    let is ← readWitnesses is
    return i :: is

def TxIn.readWitnessesIf (segwit : Bool) (is : List TxIn) : Reader (List TxIn) :=
  if segwit then readWitnesses is else pure is

namespace Transaction

def hasWitness (tx : Transaction) : Bool := tx.input.any fun i => !i.witness.isEmpty

def writeWitness (i : TxIn) : List UInt8 :=
  compactSize i.witness.length ++ i.witness.flatMap Bitcoin.sizedBytes

/-- Full serialisation: the segwit format when any witness is present. -/
def serialize (tx : Transaction) : List UInt8 :=
  if tx.hasWitness then
    leBytes 4 tx.version ++ [0x00, 0x01] ++ tx.writeInputsOutputs ++
      tx.input.flatMap writeWitness ++ leBytes 4 tx.lockTime
  else tx.serializeLegacy

section
variable (C : Crypto)

def wtxid (tx : Transaction) : Txid := C.sha256d tx.serialize

end

/-- Weight: three times the base size and the total size. -/
def weight (tx : Transaction) : Nat := tx.serializeLegacy.length * 3 + tx.serialize.length

/-- The count of inputs, after the segwit marker and flag if they are there. -/
def readInputCount : Reader (Bool × Nat) := do
  let count ← Reader.compactSize
  if count = 0 then
    let flag ← Reader.u8
    if flag ≠ 0x01 then throw (.badFormat "bad segwit flag")
    else return (true, ← Reader.compactSize)
  else return (false, count)

/-- What follows the count of inputs. -/
def readBody (version : Nat) (segwit : Bool) (inputCount : Nat) : Reader Transaction :=
  if 100000 < inputCount then throw .oversized
  else do
    let input ← times TxIn.read inputCount
    let outputCount ← Reader.compactSize
    if 100000 < outputCount then throw .oversized
    else
      let output ← times TxOut.read outputCount
      let input ← TxIn.readWitnessesIf segwit input
      let lockTime ← Reader.uintLe 4
      return { version, lockTime, input, output }

def read : Reader Transaction := do
  let version ← Reader.uintLe 4
  let count ← readInputCount
  readBody version count.1 count.2

def deserialize (bytes : List UInt8) : Except DecodeError Transaction := do
  let (tx, rest) ← read.run bytes
  if rest.isEmpty then return tx else throw (.badFormat "trailing bytes after transaction")

end Transaction

end Bitcoin
