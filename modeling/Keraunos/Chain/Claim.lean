import Keraunos.Bitcoin.Codec
import Keraunos.Chain.Monitor

/-!
# Claims on our own commitment (`chain/monitor.rs`)

What the monitor broadcasts once our commitment confirms: the sweep of our balance after the delay,
and the second-stage transaction of every HTLC output we can spend, signed by the counterparty in
advance. `none` is a panic.
-/

open Bitcoin Commitment

/-- `MonitorResponse::Claim`. -/
structure Claim where
  tx : Transaction
  validAfterHeight : Option Nat
  what : String
  deriving DecidableEq

/-- `tx.input[0].witness = witness`. -/
def Bitcoin.Transaction.setWitness (tx : Transaction) (witness : List (List UInt8)) : Transaction :=
  match tx.input with
  | [] => tx
  | i :: is => { tx with input := { i with witness } :: is }

namespace ChannelMonitor

section
variable (C : Crypto) (m : ChannelMonitor) (signer : ChannelSigner) (hc : HolderCommitment)

/-- The unsigned sweep of our delayed balance, paying `value`. -/
def sweepTx (txid : Txid) (vout : Nat) (destination : Script) (value : Nat) : Transaction where
  version := 2
  lockTime := 0
  input := [⟨⟨txid, vout⟩, [], m.counterpartySelectedDelay, []⟩]
  output := [⟨value, destination⟩]

/-- Our `to_local`: spendable after their chosen delay. -/
def claimToLocal (commitmentTx : Transaction) (destination : Script) (feerate : FeeRatePerKw)
    (currentHeight : Nat) : Option (List Claim) :=
  match hc.built.toBroadcasterIndex with
  | none => some []
  | some vout => do
    let script := revocableDelayed hc.keys.revocationKey m.counterpartySelectedDelay
      hc.keys.broadcasterDelayedPaymentKey
    let value := (← commitmentTx.output[vout]?).value
    let txid := commitmentTx.txid C
    let unsized := m.sweepTx txid vout destination value
    let fee := FeeRatePerKw.feeForWeight feerate (unsized.weight + 120 + script.length) + 1
    let sweep := m.sweepTx txid vout destination (value - fee)
    let sig := signer.signDelayedPayment (sweep.segwitV0Sighash C script value)
      hc.keys.perCommitmentPoint
    return [{
      tx := sweep.setWitness [sigWithSighashAll C sig, [], script]
      validAfterHeight := some (currentHeight + m.counterpartySelectedDelay)
      what := "to_local sweep after CSV (our force close)" }]

/-- The second-stage transaction of the HTLC output `o`, whose signature is number `sigIdx`. A
received HTLC cannot be claimed blind. -/
def claimHtlc (txid : Txid) (o : Nat × Script) (sigIdx : Nat) : Option (Option Claim) := do
  let htlc ← hc.htlcs[o.1]?
  let vout ← (hc.built.htlcOutputIndices[o.1]?).join
  let preimage := if htlc.offered then none else m.preimages.get htlc.paymentHash
  if htlc.offered ∨ preimage.isSome then
    let htlcTx := buildHtlcTx C txid vout htlc hc.keys m.counterpartySelectedDelay hc.feerate
    let sighash := htlcTx.segwitV0Sighash C o.2 (Msat.toSatFloor htlc.amountMsat)
    let ourSig := signer.signHtlc sighash hc.keys.perCommitmentPoint
    return hc.counterpartyHtlcSigs[sigIdx]?.map fun theirSig => {
      tx := htlcTx.setWitness (htlcTxWitness C theirSig ourSig preimage o.2)
      validAfterHeight := if htlc.offered then some htlc.cltvExpiry else none
      what := if htlc.offered then "HTLC-timeout (our force close)"
        else "HTLC-success (our force close)" }
  else return none

/-- The second-stage transactions, in output order. -/
def claimHtlcs (txid : Txid) : Option (List Claim) :=
  (hc.built.htlcsInOutputOrder.zipIdx.mapM fun oi => m.claimHtlc C signer hc txid oi.1 oi.2).map
    List.reduceOption

/-- `claim_holder_outputs`. -/
def claimHolderOutputs (commitmentTx : Transaction) (destination : Script)
    (feerate : FeeRatePerKw) (currentHeight : Nat) : Option (List Claim) :=
  match m.holderCommitment with
  | none => some []
  | some hc => do
    let sweep ← m.claimToLocal C signer hc commitmentTx destination feerate currentHeight
    let htlcs ← m.claimHtlcs C signer hc (commitmentTx.txid C)
    return sweep ++ htlcs

end

end ChannelMonitor
