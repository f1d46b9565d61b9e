import Keraunos.Lib.Bytes
import Keraunos.Crypto

/-!
# Transactions and scripts (`bitcoin/`)

Scripts are byte strings. Only the serialisation without witnesses is used here: it is the
preimage of the transaction id. Signature hashes are those of `SIGHASH_ALL`, the only type the
node signs.
-/

namespace Bitcoin

open Bytes

/-- `to_le_bytes`. -/
def leBytes (w v : Nat) : List UInt8 := (beBytes w v).reverse

@[simp] theorem length_leBytes (w v : Nat) : (leBytes w v).length = w := by simp [leBytes]

def compactSize (n : Nat) : List UInt8 :=
  if n ≤ 0xfc then leBytes 1 n
  else if n ≤ 0xffff then 0xfd :: leBytes 2 n
  else if n ≤ 0xffffffff then 0xfe :: leBytes 4 n
  else 0xff :: leBytes 8 n

def sizedBytes (bytes : List UInt8) : List UInt8 := compactSize bytes.length ++ bytes

/-! ## Scripts -/

abbrev Script : Type := List UInt8

namespace Op
def op0 : UInt8 := 0x00
def op1 : UInt8 := 0x51
def op16 : UInt8 := 0x60
def opIf : UInt8 := 0x63
def opNotif : UInt8 := 0x64
def opElse : UInt8 := 0x67
def opEndif : UInt8 := 0x68
def opDrop : UInt8 := 0x75
def opDup : UInt8 := 0x76
def opSwap : UInt8 := 0x7c
def opSize : UInt8 := 0x82
def opEqual : UInt8 := 0x87
def opEqualverify : UInt8 := 0x88
def opHash160 : UInt8 := 0xa9
def opChecksig : UInt8 := 0xac
def opCheckmultisig : UInt8 := 0xae
def opChecklocktimeverify : UInt8 := 0xb1
def opChecksequenceverify : UInt8 := 0xb2
end Op

/-- `push_slice`: the minimal data push. -/
def pushSlice (data : List UInt8) : Script :=
  if data.length = 0 then [Op.op0]
  else if data.length ≤ 0x4b then leBytes 1 data.length ++ data
  else if data.length ≤ 0xff then 0x4c :: leBytes 1 data.length ++ data
  else if data.length ≤ 0xffff then 0x4d :: leBytes 2 data.length ++ data
  else 0x4e :: leBytes 4 data.length ++ data

/-- The little-endian magnitude of `scriptnum_encode`. -/
def magnitude : Nat → Nat → List UInt8
  | 0, _ => []
  | fuel + 1, n => if n = 0 then [] else UInt8.ofNat (n % 256) :: magnitude fuel (n / 256)

/-- `scriptnum_encode` of a number that is not negative. -/
def scriptnumEncode (n : Nat) : List UInt8 :=
  let out := magnitude 8 n
  if (out.getLastD 0) &&& 0x80 ≠ 0 then out ++ [0x00] else out

/-- `push_int` of a number that is not negative (no caller pushes another). -/
def pushInt (n : Nat) : Script :=
  if n = 0 then [Op.op0]
  else if n ≤ 16 then [Op.op1 + UInt8.ofNat n - 1]
  else pushSlice (scriptnumEncode n)

section
variable (C : Crypto)

def newP2wsh (witnessScript : Script) : Script := Op.op0 :: 32 :: (C.sha256 witnessScript).toList

def newP2wpkhFromPubkey (pubkey : List UInt8) : Script := Op.op0 :: 20 :: (C.hash160 pubkey).toList

end

/-- Any segwit program. -/
def isWitnessProgram (s : Script) : Bool :=
  if s.length < 4 ∨ 42 < s.length then false
  else
    let version := s.getD 0 0
    let pushLen := (s.getD 1 0).toNat
    (version = Op.op0 ∨ (Op.op1 ≤ version ∧ version ≤ Op.op16)) ∧ 2 ≤ pushLen ∧ pushLen ≤ 40 ∧
      s.length = pushLen + 2

/-! ## Transactions -/

abbrev Txid : Type := Bytes32

structure OutPoint where
  txid : Txid
  vout : Nat
  deriving DecidableEq, Repr

def OutPoint.write (o : OutPoint) : List UInt8 := o.txid.toList ++ leBytes 4 o.vout

structure TxIn where
  previousOutput : OutPoint
  scriptSig : List UInt8
  sequence : Nat
  witness : List (List UInt8)
  deriving DecidableEq, Repr

structure TxOut where
  value : Nat
  scriptPubkey : Script
  deriving DecidableEq, Repr

def TxOut.write (o : TxOut) : List UInt8 := leBytes 8 o.value ++ sizedBytes o.scriptPubkey

structure Transaction where
  version : Nat
  lockTime : Nat
  input : List TxIn
  output : List TxOut
  deriving DecidableEq, Repr

namespace Transaction

def writeInputsOutputs (tx : Transaction) : List UInt8 :=
  compactSize tx.input.length ++
    tx.input.flatMap (fun i => i.previousOutput.write ++ sizedBytes i.scriptSig ++ leBytes 4 i.sequence) ++
    compactSize tx.output.length ++ tx.output.flatMap TxOut.write

/-- Serialisation without witness data. -/
def serializeLegacy (tx : Transaction) : List UInt8 :=
  leBytes 4 tx.version ++ tx.writeInputsOutputs ++ leBytes 4 tx.lockTime

section
variable (C : Crypto)

def txid (tx : Transaction) : Txid := C.sha256d tx.serializeLegacy

/-- The preimage of the BIP 143 digest of input 0 for `SIGHASH_ALL`. -/
def sighashPreimage (tx : Transaction) (i : TxIn) (scriptCode : Script) (value : Nat) : List UInt8 :=
  leBytes 4 tx.version ++ (C.sha256d (tx.input.flatMap fun i => i.previousOutput.write)).toList ++
    (C.sha256d (tx.input.flatMap fun i => leBytes 4 i.sequence)).toList ++
    i.previousOutput.write ++ sizedBytes scriptCode ++ leBytes 8 value ++ leBytes 4 i.sequence ++
    (C.sha256d (tx.output.flatMap TxOut.write)).toList ++ leBytes 4 tx.lockTime ++ leBytes 4 0x01

/-- `segwit_v0_sighash(0, ..)`: every transaction the node signs has an input 0. -/
def segwitV0Sighash (tx : Transaction) (scriptCode : Script) (value : Nat) : Bytes32 :=
  match tx.input with
  | [] => C.sha256d []
  | i :: _ => C.sha256d (tx.sighashPreimage C i scriptCode value)

end

end Transaction

end Bitcoin
