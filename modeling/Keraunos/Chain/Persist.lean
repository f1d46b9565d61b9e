import Keraunos.Bitcoin.Codec
import Keraunos.Chain.Monitor

/-!
# Monitor persistence (`chain/persist.rs`)

One version byte, then the monitor's fields in a fixed order: big-endian integers, a tag byte in
front of an option, a 16-bit count or length in front of a list or byte string. The parsers of keys
and signatures are parameters.
-/

open Bytes Parse Bitcoin Commitment

namespace Persist

def version : Nat := 1

/-! ## The writer `W` -/

namespace W

def u8 (v : Nat) : List UInt8 := beBytes 1 v
def u16 (v : Nat) : List UInt8 := beBytes 2 v
def u32 (v : Nat) : List UInt8 := beBytes 4 v
def u64 (v : Nat) : List UInt8 := beBytes 8 v
def pubkey (pk : PublicKey) : List UInt8 := pk.serialize
def sig (s : Signature) : List UInt8 := s.serializeCompact

def opt {α : Type} (f : α → List UInt8) : Option α → List UInt8
  | none => u8 0
  | some x => u8 1 ++ f x

def varBytes (b : List UInt8) : List UInt8 := u16 b.length ++ b

/-- A list after its 16-bit length. -/
def list {α : Type} (f : α → List UInt8) (xs : List α) : List UInt8 := u16 xs.length ++ xs.flatMap f

end W

def writePubkeys (pk : ChannelPublicKeys) : List UInt8 :=
  W.pubkey pk.fundingPubkey ++ W.pubkey pk.revocationBasepoint ++ W.pubkey pk.paymentBasepoint ++
    W.pubkey pk.delayedPaymentBasepoint ++ W.pubkey pk.htlcBasepoint

def writeHtlc (h : HtlcOutputInCommitment) : List UInt8 :=
  W.u8 (if h.offered then 1 else 0) ++ W.u64 h.amountMsat ++ W.u32 h.cltvExpiry ++
    h.paymentHash.toList

def writeSecret (e : Nat × Bytes32) : List UInt8 := W.u64 e.1 ++ e.2.toList

def writeCounterparty (cp : CounterpartyCommitmentData) : List UInt8 :=
  W.u64 cp.number ++ cp.txid.toList ++ W.pubkey cp.perCommitmentPoint ++
    W.list (fun (htlc, vout) => writeHtlc htlc ++ W.opt W.u32 vout) cp.htlcs

def writeKeys (keys : TxCreationKeys) : List UInt8 :=
  W.pubkey keys.perCommitmentPoint ++ W.pubkey keys.revocationKey ++
    W.pubkey keys.broadcasterHtlcKey ++ W.pubkey keys.countersignatoryHtlcKey ++
    W.pubkey keys.broadcasterDelayedPaymentKey

def writeBuilt (built : BuiltCommitmentTx) : List UInt8 :=
  W.varBytes built.tx.serialize ++ W.u64 built.feeSat ++
    W.list (W.opt W.u32) built.htlcOutputIndices ++
    W.list (fun (htlcIdx, script) => W.u16 htlcIdx ++ W.varBytes script) built.htlcsInOutputOrder ++
    W.opt W.u32 built.toBroadcasterIndex ++ W.opt W.u32 built.toCountersignatoryIndex

def writeHolder (hc : HolderCommitment) : List UInt8 :=
  W.u64 hc.number ++ writeBuilt hc.built ++ W.sig hc.counterpartySig ++
    W.list W.sig hc.counterpartyHtlcSigs ++ W.list writeHtlc hc.htlcs ++ writeKeys hc.keys ++
    W.u32 hc.feerate

/-! ## The reader `R` -/

namespace R

def u8 : Reader Nat := Reader.u8

def uint (w : Nat) : Reader Nat := do
  return beVal (← Reader.take w)

def u16 : Reader Nat := uint 2
def u32 : Reader Nat := uint 4
def u64 : Reader Nat := uint 8

def opt {α : Type} (f : Reader α) : Reader (Option α) := do
  let tag ← u8
  if tag = 0 then return none
  else if tag = 1 then return some (← f)
  else throw (.badFormat "invalid option tag")

def varBytes : Reader (List UInt8) := do
  let len ← u16
  Reader.take len

/-- `for _ in 0..n` after a 16-bit length. -/
def list {α : Type} (f : Reader α) : Reader (List α) := do
  let n ← u16
  times f n

section
variable (K : KeyParsers)

def pubkey : Reader PublicKey := do
  match K.fromSlice (← Reader.array 33).toList with
  | some pk => return pk
  | none => throw (.badFormat "invalid public key")

def sig : Reader Signature := do
  match K.fromCompact (← Reader.array 64).toList with
  | some s => return s
  | none => throw (.badFormat "invalid signature")

end

end R

section
variable (K : KeyParsers)

def readPubkeys : Reader ChannelPublicKeys := do
  return {
    fundingPubkey := ← R.pubkey K
    revocationBasepoint := ← R.pubkey K
    paymentBasepoint := ← R.pubkey K
    delayedPaymentBasepoint := ← R.pubkey K
    htlcBasepoint := ← R.pubkey K }

def readHtlc : Reader HtlcOutputInCommitment := do
  let offered ← R.u8
  let amountMsat ← R.u64
  let cltvExpiry ← R.u32
  let paymentHash ← Reader.array 32
  return { offered := offered = 1, amountMsat, cltvExpiry, paymentHash }

def readSecret : Reader (Nat × Bytes32) := do
  let index ← R.u64
  let secret ← Reader.array 32
  return (index, secret)

/-- An HTLC and its output. -/
def readHtlcVout : Reader (HtlcOutputInCommitment × Option Nat) := do
  let h ← readHtlc
  let vout ← R.opt R.u32
  return (h, vout)

def readCounterparty : Reader CounterpartyCommitmentData := do
  let number ← R.u64
  let txid ← Reader.array 32
  let perCommitmentPoint ← R.pubkey K
  let htlcs ← R.list readHtlcVout
  return { number, txid, perCommitmentPoint, htlcs }

def readOutputOrder : Reader (Nat × Script) := do
  let idx ← R.u16
  let script ← R.varBytes
  return (idx, script)

def readTx : Reader Transaction := do
  let bytes ← R.varBytes
  match Transaction.deserialize bytes with
  | .ok tx => return tx
  | .error _ => throw (.badFormat "invalid holder commitment tx")

def readBuilt (C : Crypto) : Reader BuiltCommitmentTx := do
  let tx ← readTx
  let feeSat ← R.u64
  let htlcOutputIndices ← R.list (R.opt R.u32)
  let htlcsInOutputOrder ← R.list readOutputOrder
  let toBroadcasterIndex ← R.opt R.u32
  let toCountersignatoryIndex ← R.opt R.u32
  return {
    tx, txid := tx.txid C, feeSat, htlcOutputIndices, htlcsInOutputOrder, toBroadcasterIndex,
    toCountersignatoryIndex }

def readKeys : Reader TxCreationKeys := do
  return {
    perCommitmentPoint := ← R.pubkey K
    revocationKey := ← R.pubkey K
    broadcasterHtlcKey := ← R.pubkey K
    countersignatoryHtlcKey := ← R.pubkey K
    broadcasterDelayedPaymentKey := ← R.pubkey K }

def readHolder (C : Crypto) : Reader HolderCommitment := do
  let number ← R.u64
  let built ← readBuilt C
  let counterpartySig ← R.sig K
  let counterpartyHtlcSigs ← R.list (R.sig K)
  let htlcs ← R.list readHtlc
  let keys ← readKeys K
  let feerate ← R.u32
  return { number, built, counterpartySig, counterpartyHtlcSigs, htlcs, keys, feerate }

end

end Persist

namespace ChannelMonitor

open Persist

/-- The outpoint is written big-endian here, not as in a transaction. -/
def serialize (m : ChannelMonitor) : List UInt8 :=
  W.u8 version ++ m.fundingOutpoint.txid.toList ++ W.u32 m.fundingOutpoint.vout ++
    W.u64 m.capacitySat ++ W.u64 m.obscureFactor ++ writePubkeys m.holderPubkeys ++
    writePubkeys m.counterpartyPubkeys ++ W.u16 m.holderSelectedDelay ++
    W.u16 m.counterpartySelectedDelay ++ W.list writeSecret m.counterpartySecrets.entries ++
    W.opt writeCounterparty m.counterpartyCurrent ++ W.opt writeHolder m.holderCommitment ++
    W.u32 m.holderCommitmentFeerate ++ W.list Vector.toList m.preimages.values

section
variable (C : Crypto) (K : KeyParsers)

def read : Reader ChannelMonitor := do
  let tag ← R.u8
  if tag ≠ version then throw (.badFormat "unknown monitor version")
  else
    let txid ← Reader.array 32
    let vout ← R.u32
    let capacitySat ← R.u64
    let obscureFactor ← R.u64
    let holderPubkeys ← readPubkeys K
    let counterpartyPubkeys ← readPubkeys K
    let holderSelectedDelay ← R.u16
    let counterpartySelectedDelay ← R.u16
    let entries ← R.list readSecret
    let counterpartyCurrent ← R.opt (readCounterparty K)
    let holderCommitment ← R.opt (readHolder K C)
    let holderCommitmentFeerate ← R.u32
    let preimages ← R.list (Reader.array 32)
    return {
      fundingOutpoint := ⟨txid, vout⟩
      capacitySat, obscureFactor, holderPubkeys, counterpartyPubkeys, holderSelectedDelay,
      counterpartySelectedDelay
      counterpartySecrets := Shachain.SecretStore.fromEntries entries
      counterpartyCurrent, holderCommitment, holderCommitmentFeerate
      preimages := preimages.foldl (fun m p => m.insert (paymentHash C p) p) .empty }

def deserialize (data : List UInt8) : Except DecodeError ChannelMonitor := do
  let (m, rest) ← (read C K).run data
  if rest.isEmpty then return m else throw (.badFormat "trailing bytes in monitor")

end

end ChannelMonitor
