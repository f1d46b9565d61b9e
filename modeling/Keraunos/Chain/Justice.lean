import Keraunos.Chain.Claim

/-!
# Justice (`chain/monitor.rs`)

What the monitor broadcasts once a revoked counterparty commitment confirms: one transaction that
spends every output whose script it can rebuild. Of the HTLCs it only has those of the current
commitment. The values of a confirmed transaction are far below the range of the sums.
-/

open Bitcoin Commitment

/-- `HtlcOutputInCommitment { offered: !htlc.offered, ..*htlc }`. -/
def Commitment.HtlcOutputInCommitment.flipped (h : HtlcOutputInCommitment) :
    HtlcOutputInCommitment :=
  { h with offered := !h.offered }

namespace ChannelMonitor

/-- An output of the revoked commitment to spend. -/
structure RevokedInput where
  vout : Nat
  value : Nat
  witnessScript : Script
  /-- Second witness item: the branch of `to_local`, the revocation key of an HTLC. -/
  control : List UInt8
  deriving DecidableEq

section
variable (C : Crypto) (m : ChannelMonitor)

/-- The keys of the revoked commitment with this secret. -/
def revokedKeys (secret : Bytes32) : Option TxCreationKeys := do
  let perCommitmentPoint ← Keys.perCommitmentPoint C secret
  TxCreationKeys.derive C perCommitmentPoint m.counterpartyPubkeys m.holderPubkeys

def toLocalScript (keys : TxCreationKeys) : Script :=
  revocableDelayed keys.revocationKey m.holderSelectedDelay keys.broadcasterDelayedPaymentKey

/-- The scripts of the HTLCs in the current commitment, each in both directions. -/
def htlcScripts (keys : TxCreationKeys) : List Script :=
  match m.counterpartyCurrent with
  | none => []
  | some cp => cp.htlcs.flatMap fun h =>
    [htlcWitnessScript C keys h.1, htlcWitnessScript C keys h.1.flipped]

/-- The outputs that pay to a script. -/
def outputsPaying (tx : Transaction) (script : Script) (control : List UInt8) :
    List RevokedInput :=
  (tx.output.zipIdx.filter fun ov => ov.1.scriptPubkey = newP2wsh C script).map fun ov =>
    ⟨ov.2, ov.1.value, script, control⟩

/-- The outputs to spend, script by script. -/
def justiceInputs (revokedTx : Transaction) (keys : TxCreationKeys) : List RevokedInput :=
  outputsPaying C revokedTx (m.toLocalScript keys) [0x01] ++
    (m.htlcScripts C keys).flatMap fun script =>
      outputsPaying C revokedTx script keys.revocationKey.serialize

/-- The unsigned transaction, paying `value`. -/
def justiceTx (revokedTxid : Txid) (inputs : List RevokedInput) (destination : Script)
    (value : Nat) : Transaction where
  version := 2
  lockTime := 0
  input := inputs.map fun i => ⟨⟨revokedTxid, i.vout⟩, [], 0xfffffffd, []⟩
  output := [⟨value, destination⟩]

/-- The input that spends `i`, signed with the revocation key of the secret. -/
def justiceTxIn (signRevocation : Bytes32 → Bytes32 → Signature) (secret : Bytes32)
    (justice : Transaction) (txin : TxIn) (i : RevokedInput) : TxIn :=
  let sighash := C.sha256d (justice.sighashPreimage C txin i.witnessScript i.value)
  { txin with
    witness := [sigWithSighashAll C (signRevocation sighash secret), i.control, i.witnessScript] }

/-- `punish_revoked`. The signer's `sign_revocation` is a parameter. -/
def punishRevoked (signRevocation : Bytes32 → Bytes32 → Signature) (revokedTx : Transaction)
    (commitmentNumber : Nat) (destination : Script) (feerate : FeeRatePerKw) :
    Option (List Claim) :=
  match m.counterpartySecrets.secretFor C.sha256Bytes32
      (Shachain.indexForCommitment commitmentNumber) with
  | none => some []
  | some secret => do
    let keys ← m.revokedKeys C secret
    let inputs := m.justiceInputs C revokedTx keys
    if inputs.isEmpty then return []
    let total := (inputs.map (·.value)).sum
    let txid := revokedTx.txid C
    let estWeight := (justiceTx txid inputs destination total).weight +
      (inputs.map fun i => 80 + i.witnessScript.length + i.control.length).sum
    let fee := FeeRatePerKw.feeForWeight feerate estWeight + 1
    let justice := justiceTx txid inputs destination (total - fee)
    return [{
      tx := { justice with
        input := List.zipWith (justiceTxIn C signRevocation secret justice) justice.input inputs }
      validAfterHeight := none
      what := "justice (revoked commitment punished)" }]

end

end ChannelMonitor
