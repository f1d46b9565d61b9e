import Keraunos.Keys
import Keraunos.Wire.Msgs
import Mathlib.Data.List.Sort

/-!
# Transaction construction (`commitment/mod.rs`)

Commitment transactions with their trimming, fee and output ordering rules, second-stage HTLC
transactions, the funding spend witness and the cooperative closing transaction.
-/

namespace Commitment

open Bitcoin Bytes

def commitmentTxBaseWeight : Nat := 724
def commitmentTxWeightPerHtlc : Nat := 172
def htlcTimeoutTxWeight : Nat := 663
def htlcSuccessTxWeight : Nat := 703
def closingTxWeightBound : Nat := 714

/-- An HTLC as it appears in a commitment; `offered` is the broadcaster's view. -/
structure HtlcOutputInCommitment where
  offered : Bool
  amountMsat : Msat
  cltvExpiry : Nat
  paymentHash : PaymentHash
  deriving DecidableEq, Repr

def htlcTimeoutFee (feerate : FeeRatePerKw) : Nat := FeeRatePerKw.feeForWeight feerate htlcTimeoutTxWeight
def htlcSuccessFee (feerate : FeeRatePerKw) : Nat := FeeRatePerKw.feeForWeight feerate htlcSuccessTxWeight

def secondStageFee (h : HtlcOutputInCommitment) (feerate : FeeRatePerKw) : Nat :=
  if h.offered then htlcTimeoutFee feerate else htlcSuccessFee feerate

/-- Is this HTLC trimmed to fees? -/
def htlcIsTrimmed (h : HtlcOutputInCommitment) (feerate : FeeRatePerKw) (dust : Nat) : Bool :=
  Msat.toSatFloor h.amountMsat < dust + secondStageFee h feerate

/-! ## Scripts -/

/-- `memcmp` order of byte strings, a proper prefix first. -/
def bytesLe : List UInt8 → List UInt8 → Bool
  | [], _ => true
  | _ :: _, [] => false
  | a :: as, b :: bs => a < b || (a == b && bytesLe as bs)

/-- `2 <key1> <key2> 2 OP_CHECKMULTISIG`, keys sorted. -/
def fundingRedeemscript (a b : PublicKey) : Script :=
  let (first, second) := if bytesLe a.serialize b.serialize then (a, b) else (b, a)
  pushInt 2 ++ pushSlice first.serialize ++ pushSlice second.serialize ++ pushInt 2 ++
    [Op.opCheckmultisig]

/-- The revocable, delayed output script. -/
def revocableDelayed (revocationKey : PublicKey) (toSelfDelay : Nat) (delayedKey : PublicKey) :
    Script :=
  [Op.opIf] ++ pushSlice revocationKey.serialize ++ [Op.opElse] ++ pushInt toSelfDelay ++
    [Op.opChecksequenceverify, Op.opDrop] ++ pushSlice delayedKey.serialize ++
    [Op.opEndif, Op.opChecksig]

section
variable (C : Crypto)

def toRemote (paymentBasepoint : PublicKey) : Script :=
  newP2wpkhFromPubkey C paymentBasepoint.serialize

/-- The part the two HTLC scripts share: the revocation branch and the countersignatory's key. -/
def htlcScriptHead (keys : TxCreationKeys) : Script :=
  [Op.opDup, Op.opHash160] ++ pushSlice (C.hash160 keys.revocationKey.serialize).toList ++
    [Op.opEqual, Op.opIf, Op.opChecksig, Op.opElse] ++
    pushSlice keys.countersignatoryHtlcKey.serialize ++ [Op.opSwap, Op.opSize] ++ pushInt 32 ++
    [Op.opEqual]

def offeredHtlc (keys : TxCreationKeys) (hash : PaymentHash) : Script :=
  htlcScriptHead C keys ++ [Op.opNotif, Op.opDrop] ++ pushInt 2 ++ [Op.opSwap] ++
    pushSlice keys.broadcasterHtlcKey.serialize ++ pushInt 2 ++
    [Op.opCheckmultisig, Op.opElse, Op.opHash160] ++ pushSlice (C.ripemd160 hash.toList).toList ++
    [Op.opEqualverify, Op.opChecksig, Op.opEndif, Op.opEndif]

def receivedHtlc (keys : TxCreationKeys) (hash : PaymentHash) (cltvExpiry : Nat) : Script :=
  htlcScriptHead C keys ++ [Op.opIf, Op.opHash160] ++ pushSlice (C.ripemd160 hash.toList).toList ++
    [Op.opEqualverify] ++ pushInt 2 ++ [Op.opSwap] ++ pushSlice keys.broadcasterHtlcKey.serialize ++
    pushInt 2 ++ [Op.opCheckmultisig, Op.opElse, Op.opDrop] ++ pushInt cltvExpiry ++
    [Op.opChecklocktimeverify, Op.opDrop, Op.opChecksig, Op.opEndif, Op.opEndif]

def htlcWitnessScript (keys : TxCreationKeys) (h : HtlcOutputInCommitment) : Script :=
  if h.offered then offeredHtlc C keys h.paymentHash
  else receivedHtlc C keys h.paymentHash h.cltvExpiry

/-- The low 48 bits of the hash of the two payment basepoints. -/
def commitNumberObscureFactor (opener accepter : PublicKey) : Nat :=
  beVal ((C.sha256 (opener.serialize ++ accepter.serialize)).toList.drop 26)

end

/-! ## Commitment transactions -/

structure CommitmentTxParams where
  fundingOutpoint : OutPoint
  commitmentNumber : Nat
  obscureFactor : Nat
  broadcasterPaysFee : Bool
  feerate : FeeRatePerKw
  broadcasterDustLimitSat : Nat
  toSelfDelay : Nat
  keys : TxCreationKeys
  countersignatoryPaymentBasepoint : PublicKey
  toBroadcasterMsat : Msat
  toCountersignatoryMsat : Msat
  htlcs : List HtlcOutputInCommitment

structure BuiltCommitmentTx where
  tx : Transaction
  txid : Txid
  feeSat : Nat
  /-- Parallel to the HTLCs: the output index, or `none` if trimmed. -/
  htlcOutputIndices : List (Option Nat)
  /-- Untrimmed HTLCs (index into the HTLCs, witness script) in output order. -/
  htlcsInOutputOrder : List (Nat × Script)
  toBroadcasterIndex : Option Nat
  toCountersignatoryIndex : Option Nat
  deriving DecidableEq

/-- What a staged output is for. -/
inductive Origin where
  | broadcaster
  | countersignatory
  | htlc (index : Nat) (script : Script)
  deriving DecidableEq

structure Staged where
  out : TxOut
  cltv : Nat
  origin : Origin
  deriving DecidableEq

namespace Staged

/-- Output order: value, then script, then expiry. -/
def le (a b : Staged) : Bool :=
  a.out.value < b.out.value ||
    (a.out.value == b.out.value &&
      (if a.out.scriptPubkey = b.out.scriptPubkey then a.cltv ≤ b.cltv
        else bytesLe a.out.scriptPubkey b.out.scriptPubkey))

def isHtlc (i : Nat) (s : Staged) : Bool :=
  match s.origin with
  | .htlc j _ => i == j
  | _ => false

def htlcEntry (s : Staged) : Option (Nat × Script) :=
  match s.origin with
  | .htlc i script => some (i, script)
  | _ => none

end Staged

namespace CommitmentTxParams

variable (p : CommitmentTxParams)

def trimmed (h : HtlcOutputInCommitment) : Bool :=
  htlcIsTrimmed h p.feerate p.broadcasterDustLimitSat

def numUntrimmed : Nat := (p.htlcs.filter fun h => !p.trimmed h).length

def baseFee : Nat :=
  FeeRatePerKw.feeForWeight p.feerate
    (commitmentTxBaseWeight + commitmentTxWeightPerHtlc * p.numUntrimmed)

/-- Satoshi to the broadcaster, after the fee if it pays it. -/
def toBroadcasterSat : Nat :=
  Msat.toSatFloor p.toBroadcasterMsat - if p.broadcasterPaysFee then p.baseFee else 0

def toCountersignatorySat : Nat :=
  Msat.toSatFloor p.toCountersignatoryMsat - if p.broadcasterPaysFee then 0 else p.baseFee

def obscured : Nat := p.commitmentNumber ^^^ p.obscureFactor

section
variable (C : Crypto)

/-- The staged output of HTLC `i`. -/
def stageHtlc (h : HtlcOutputInCommitment) (i : Nat) : Staged :=
  let script := htlcWitnessScript C p.keys h
  ⟨⟨Msat.toSatFloor h.amountMsat, newP2wsh C script⟩, h.cltvExpiry, .htlc i script⟩

/-- The outputs of the two balances, where they reach the dust limit. -/
def stageBalances : List Staged :=
  (if p.broadcasterDustLimitSat ≤ p.toBroadcasterSat then
    [⟨⟨p.toBroadcasterSat, newP2wsh C (revocableDelayed p.keys.revocationKey p.toSelfDelay
      p.keys.broadcasterDelayedPaymentKey)⟩, 0, .broadcaster⟩]
  else []) ++
  (if p.broadcasterDustLimitSat ≤ p.toCountersignatorySat then
    [⟨⟨p.toCountersignatorySat, toRemote C p.countersignatoryPaymentBasepoint⟩, 0,
      .countersignatory⟩]
  else [])

/-- All outputs, before sorting. -/
def staged : List Staged :=
  p.stageBalances C ++
    (p.htlcs.zipIdx.filter fun hi => !p.trimmed hi.1).map fun hi => p.stageHtlc C hi.1 hi.2

def sortedStaged : List Staged := (p.staged C).insertionSort fun a b => a.le b

def tx : Transaction where
  version := 2
  lockTime := 0x20000000 ||| (p.obscured &&& 0xffffff)
  input := [⟨p.fundingOutpoint, [], 0x80000000 ||| ((p.obscured >>> 24) &&& 0xffffff), []⟩]
  output := (p.sortedStaged C).map (·.out)

/-- `build_commitment_tx`, its assertion on the commitment number apart. -/
def assemble : BuiltCommitmentTx where
  tx := p.tx C
  txid := (p.tx C).txid C
  feeSat := p.baseFee
  htlcOutputIndices := (List.range p.htlcs.length).map fun i =>
    (p.sortedStaged C).findIdx? (Staged.isHtlc i)
  htlcsInOutputOrder := (p.sortedStaged C).filterMap Staged.htlcEntry
  toBroadcasterIndex := (p.sortedStaged C).findIdx? fun s => s.origin = .broadcaster
  toCountersignatoryIndex := (p.sortedStaged C).findIdx? fun s => s.origin = .countersignatory

end

end CommitmentTxParams

/-- `build_commitment_tx`: panics on a commitment number of more than 48 bits. -/
def buildCommitmentTx (C : Crypto) (p : CommitmentTxParams) : Option BuiltCommitmentTx :=
  if p.commitmentNumber < 2 ^ 48 then some (p.assemble C) else none

/-! ## Second-stage and closing transactions -/

section
variable (C : Crypto)

/-- `build_htlc_tx`. -/
def buildHtlcTx (commitmentTxid : Txid) (htlcOutputIndex : Nat) (h : HtlcOutputInCommitment)
    (keys : TxCreationKeys) (toSelfDelay : Nat) (feerate : FeeRatePerKw) : Transaction where
  version := 2
  lockTime := if h.offered then h.cltvExpiry else 0
  input := [⟨⟨commitmentTxid, htlcOutputIndex⟩, [], 0, []⟩]
  output := [⟨Msat.toSatFloor h.amountMsat - secondStageFee h feerate,
    newP2wsh C (revocableDelayed keys.revocationKey toSelfDelay keys.broadcasterDelayedPaymentKey)⟩]

def sigWithSighashAll (sig : Signature) : List UInt8 := C.serializeDer sig ++ [0x01]

/-- `0 <sig1> <sig2> <redeemscript>`, signatures in key order. -/
def fundingSpendWitness (holderKey counterpartyKey : PublicKey)
    (holderSig counterpartySig : Signature) : List (List UInt8) :=
  let (first, second) := if bytesLe holderKey.serialize counterpartyKey.serialize then
    (holderSig, counterpartySig) else (counterpartySig, holderSig)
  [[], sigWithSighashAll C first, sigWithSighashAll C second,
    fundingRedeemscript holderKey counterpartyKey]

/-- `0 <remotehtlcsig> <localhtlcsig> <payment_preimage|<>> <witness_script>`. -/
def htlcTxWitness (countersignatorySig holderSig : Signature) (preimage : Option PaymentPreimage)
    (witnessScript : Script) : List (List UInt8) :=
  [[], sigWithSighashAll C countersignatorySig, sigWithSighashAll C holderSig,
    (preimage.map Vector.toList).getD [], witnessScript]

end

/-- Closing outputs order: value, then script. -/
def closingLe (a b : TxOut) : Bool :=
  a.value < b.value || (a.value == b.value && bytesLe a.scriptPubkey b.scriptPubkey)

/-- The cooperative close; outputs below the dust limit are dropped. -/
def buildClosingTx (fundingOutpoint : OutPoint) (toHolderSat toCounterpartySat : Nat)
    (holderScript counterpartyScript : Script) (dustLimitSat : Nat) : Transaction where
  version := 2
  lockTime := 0
  input := [⟨fundingOutpoint, [], 0xffffffff, []⟩]
  output :=
    ((if dustLimitSat ≤ toHolderSat then [⟨toHolderSat, holderScript⟩] else []) ++
      (if dustLimitSat ≤ toCounterpartySat then [⟨toCounterpartySat, counterpartyScript⟩] else []) :
      List TxOut).insertionSort fun a b => closingLe a b

end Commitment
