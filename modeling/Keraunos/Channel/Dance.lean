import Keraunos.Channel.Open
import Keraunos.Lib.FirstMatch

/-!
# The commitment dance (`channel/dance.rs`)

Sending and receiving updates, `commitment_signed`, `revoke_and_ack` and the flush of the holding
cell. The three ways to resolve an HTLC share one definition per direction (`sendRemoval`,
`onRemoval`).
-/

open Bitcoin Commitment

/-- An inbound HTLC that is irrevocably committed on both commitments. -/
structure CommittedInboundHtlc where
  id : HtlcId
  amountMsat : Msat
  paymentHash : PaymentHash
  cltvExpiry : Nat
  onion : List UInt8
  deriving DecidableEq, Repr

/-- Everything a `revoke_and_ack` triggered. -/
structure RaaOutcome where
  messages : List Wire.Message := []
  commitmentSigned : Option Wire.CommitmentSigned := none
  forwardable : List CommittedInboundHtlc := []
  failedAdds : List (HtlcSource × String) := []
  deriving DecidableEq

/-- Direction and id: what identifies an HTLC of a channel. -/
def Htlc.key (h : Htlc) : Bool × HtlcId := (h.outbound, h.id)

instance : LawfulBEq (Bool × HtlcId) := inferInstance

namespace Channel

/-- Mutate the HTLC with this direction and id. -/
def htlcMut (key : Bool × HtlcId) (f : Htlc → Htlc) (hs : List Htlc) : List Htlc :=
  hs.mutFirst (fun h => h.key = key) f

def findHtlc (ch : Channel) (key : Bool × HtlcId) : Option Htlc :=
  ch.htlcs.find? fun h => h.key = key

/-- The unresolved HTLCs of one direction. -/
def live (ch : Channel) (outbound : Bool) : List Htlc :=
  ch.htlcs.filter fun h => h.outbound = outbound ∧ h.resolution.isNone

/-- How many HTLCs one side's next commitment includes. -/
def includedCount (ch : Channel) (holderSide : Bool) : Nat :=
  (ch.htlcs.filter fun h => (h.phase holderSide).included).length

/-- The fee of a commitment with `n` HTLCs, in msat. -/
def commitmentFee (feerate : FeeRatePerKw) (n : Nat) : Msat :=
  Msat.fromSat (FeeRatePerKw.feeForWeight feerate
    (commitmentTxBaseWeight + commitmentTxWeightPerHtlc * n))

/-! ## Sending updates -/

/-- `validate_outbound_add`. The count of live HTLCs is taken as a `u16`. -/
def validateOutboundAdd (ch : Channel) (amountMsat : Msat) (cltvExpiry : Nat) :
    ChannelResult Unit := do
  Fault.require (amountMsat ≠ 0) (.ignore "zero-amount HTLC")
  Fault.require (ch.params.counterpartyHtlcMinimumMsat ≤ amountMsat)
    (.ignore "below counterparty htlc_minimum")
  Fault.require (cltvExpiry < 500000000) (.ignore "cltv_expiry too large")
  Fault.require ((ch.live true).length % 2 ^ 16 < ch.params.counterpartyMaxAcceptedHtlcs)
    (.ignore "counterparty max_accepted_htlcs reached")
  Fault.require (((ch.live true).map (·.amountMsat)).sum + amountMsat ≤
      ch.params.counterpartyMaxHtlcValueInFlightMsat)
    (.ignore "counterparty max_htlc_value_in_flight exceeded")
  -- Affordability on their commitment, where the add lands first. The opener keeps headroom for
  -- one more HTLC.
  let fee := if ch.role = .opener then
    commitmentFee ch.feerateCounterparty (ch.includedCount false + 2) else 0
  Fault.require
    (amountMsat + Msat.fromSat ch.params.counterpartySelectedReserveSat + fee ≤
      (ch.balancesFor false).1)
    (.ignore "insufficient balance for HTLC")

/-- Offer an HTLC; `none` if parked in the holding cell. -/
def sendAddHtlc (amountMsat : Msat) (paymentHash : PaymentHash) (cltvExpiry : Nat)
    (onion : List UInt8) (source : HtlcSource) : ChannelAct (Option Wire.UpdateAddHtlc) := do
  let ch ← get
  Act.lift (Fault.require (ch.state = .normal) (.ignore "channel not in normal state"))
  Act.lift (Fault.require (¬ (ch.shutdownSent ∨ ch.shutdownReceived))
    (.ignore "channel is shutting down"))
  if ch.awaitingRaa then
    set { ch with
      holdingCell := ch.holdingCell ++
        [HoldingCellOp.add amountMsat paymentHash cltvExpiry onion source] }
    return none
  else
    Act.lift (ch.validateOutboundAdd amountMsat cltvExpiry)
    let id := ch.nextHolderHtlcId
    set { ch with
      nextHolderHtlcId := id + 1
      htlcs := ch.htlcs ++
        [Htlc.mk true id amountMsat paymentHash cltvExpiry onion (some source) none .notYet
          .pending false]
      counterpartyDirty := true }
    return some ⟨ch.channelId, id, amountMsat, paymentHash, cltvExpiry, onion⟩

/-- `inbound_committed_mut`: the inbound HTLC that may be resolved. -/
def inboundCommitted (ch : Channel) (id : HtlcId) : ChannelResult Htlc := do
  let htlc ← Fault.okOr (ch.findHtlc (false, id)) (.invalidState "unknown inbound HTLC id")
  Fault.require htlc.resolution.isNone (.invalidState "HTLC already resolved")
  Fault.require (htlc.phaseHolder = .committed ∧ htlc.phaseCounterparty = .committed)
    (.invalidState "HTLC not irrevocably committed")
  return htlc

/-- Resolve an inbound HTLC, or park `op` in the holding cell. -/
def sendRemoval {M : Type} (op : HoldingCellOp) (id : HtlcId) (resolution : HtlcResolution)
    (check : Htlc → ChannelResult Unit) (msg : ChannelId → M) : ChannelAct (Option M) := do
  let ch ← get
  if ch.awaitingRaa then
    set { ch with holdingCell := ch.holdingCell ++ [op] }
    return none
  else
    let htlc ← Act.lift (ch.inboundCommitted id)
    Act.lift (check htlc)
    set { ch with
      htlcs := htlcMut (false, id)
        ({ · with resolution := some resolution, phaseCounterparty := .removing }) ch.htlcs
      counterpartyDirty := true }
    return some (msg ch.channelId)

/-- Fulfill an inbound HTLC. -/
def sendFulfillHtlc (C : Crypto) (id : HtlcId) (preimage : PaymentPreimage) :
    ChannelAct (Option Wire.UpdateFulfillHtlc) :=
  sendRemoval (.fulfill id preimage) id (.fulfill preimage)
    (fun htlc => Fault.require (paymentHash C preimage = htlc.paymentHash)
      (.invalidState "preimage does not match payment hash"))
    fun channelId => ⟨channelId, id, preimage⟩

/-- Fail an inbound HTLC with an encrypted error onion. -/
def sendFailHtlc (id : HtlcId) (reason : List UInt8) : ChannelAct (Option Wire.UpdateFailHtlc) :=
  sendRemoval (.fail id reason) id (.fail reason) (fun _ => .ok ()) fun channelId =>
    ⟨channelId, id, reason⟩

/-- Fail an inbound HTLC whose onion we could not decrypt. -/
def sendFailMalformedHtlc (id : HtlcId) (sha256OfOnion : Bytes32) (failureCode : Nat) :
    ChannelAct (Option Wire.UpdateFailMalformedHtlc) :=
  sendRemoval (.failMalformed id sha256OfOnion failureCode) id
    (.failMalformed sha256OfOnion failureCode) (fun _ => .ok ()) fun channelId =>
    ⟨channelId, id, sha256OfOnion, failureCode⟩

/-- Opener only: change the commitment feerate. -/
def sendUpdateFee (feerate : FeeRatePerKw) : ChannelAct (Option Wire.UpdateFee) := do
  let ch ← get
  Act.lift (Fault.require (ch.role = .opener) (.invalidState "only the opener sends update_fee"))
  Act.lift (Fault.require (ch.state = .normal) (.ignore "channel not in normal state"))
  Act.lift (Fault.require (!ch.awaitingRaa) (.ignore "commitment in flight; retry after RAA"))
  Act.lift (Fault.require (253 ≤ feerate) (.ignore "feerate below floor"))
  set { ch with feerateCounterparty := feerate, counterpartyDirty := true }
  return some ⟨ch.channelId, feerate⟩

/-! ## Receiving updates -/

/-- The checks of `on_update_add_htlc`. The count of live HTLCs is taken as a `u16`. -/
def checkUpdateAddHtlc (ch : Channel) (msg : Wire.UpdateAddHtlc) : ChannelResult Unit := do
  Fault.require (ch.state = .normal) (.close "update_add_htlc outside normal operation")
  Fault.require (¬ (ch.shutdownSent ∨ ch.shutdownReceived))
    (.close "update_add_htlc during shutdown")
  Fault.require (msg.id = ch.nextCounterpartyHtlcId)
    (.close ("non-sequential htlc id " ++ toString msg.id ++ " (expected " ++
      toString ch.nextCounterpartyHtlcId ++ ")"))
  Fault.require (msg.amountMsat ≠ 0) (.close "zero-amount HTLC")
  Fault.require (ch.params.holderHtlcMinimumMsat ≤ msg.amountMsat)
    (.close "HTLC below our htlc_minimum")
  Fault.require (msg.cltvExpiry < 500000000) (.close "cltv_expiry too large")
  Fault.require ((ch.live false).length % 2 ^ 16 < ch.params.holderMaxAcceptedHtlcs)
    (.close "our max_accepted_htlcs exceeded")
  Fault.require (((ch.live false).map (·.amountMsat)).sum + msg.amountMsat ≤
      ch.params.holderMaxHtlcValueInFlightMsat)
    (.close "our max_htlc_value_in_flight exceeded")
  -- Affordability on our commitment, where their add lands first.
  let fee := if ch.role = .accepter then
    commitmentFee ch.feerateHolder (ch.includedCount true + 1) else 0
  Fault.require
    (msg.amountMsat + Msat.fromSat ch.params.holderSelectedReserveSat + fee ≤
      (ch.balancesFor true).2)
    (.close "peer cannot afford HTLC")

def onUpdateAddHtlc (msg : Wire.UpdateAddHtlc) : ChannelAct Unit := do
  let ch ← get
  Act.lift (ch.checkUpdateAddHtlc msg)
  set { ch with
    nextCounterpartyHtlcId := ch.nextCounterpartyHtlcId + 1
    htlcs := ch.htlcs ++
      [Htlc.mk false msg.id msg.amountMsat msg.paymentHash msg.cltvExpiry msg.onionRoutingPacket
        none none .pending .notYet false] }

/-- `outbound_committed_mut`: the outbound HTLC the peer may resolve. -/
def outboundCommitted (ch : Channel) (id : HtlcId) : ChannelResult Htlc := do
  let htlc ← Fault.okOr (ch.findHtlc (true, id))
    (.close ("unknown outbound HTLC id " ++ toString id))
  Fault.require htlc.resolution.isNone (.close ("HTLC " ++ toString id ++ " resolved twice"))
  Fault.require (htlc.phaseHolder = .committed ∧ htlc.phaseCounterparty = .committed)
    (.close ("HTLC " ++ toString id ++ " resolved before being irrevocably committed"))
  return htlc

/-- The peer resolves an outbound HTLC; its source and amount are returned. -/
def onRemoval (id : HtlcId) (resolution : HtlcResolution) (check : Htlc → ChannelResult Unit) :
    ChannelAct (HtlcSource × Msat) := do
  let ch ← get
  let htlc ← Act.lift (ch.outboundCommitted id)
  Act.lift (check htlc)
  set { ch with
    htlcs := htlcMut (true, id)
      ({ · with resolution := some resolution, phaseHolder := .removing }) ch.htlcs }
  let source ← Act.expect htlc.source
  return (source, htlc.amountMsat)

def onUpdateFulfillHtlc (C : Crypto) (msg : Wire.UpdateFulfillHtlc) :
    ChannelAct (HtlcSource × Msat) :=
  onRemoval msg.id (.fulfill msg.paymentPreimage) fun htlc =>
    Fault.require (paymentHash C msg.paymentPreimage = htlc.paymentHash)
      (.close "fulfill preimage does not match payment hash")

def onUpdateFailHtlc (msg : Wire.UpdateFailHtlc) : ChannelAct (HtlcSource × Msat) :=
  onRemoval msg.id (.fail msg.reason) fun _ => .ok ()

def onUpdateFailMalformedHtlc (msg : Wire.UpdateFailMalformedHtlc) :
    ChannelAct (HtlcSource × Msat) := do
  Act.lift (Fault.require (msg.failureCode &&& 0x8000 ≠ 0)
    (.close "update_fail_malformed_htlc without BADONION bit"))
  onRemoval msg.id (.failMalformed msg.sha256OfOnion msg.failureCode) fun _ => .ok ()

/-- The opener changed the feerate: applied to our commitment now, to theirs when we
acknowledge. -/
def onUpdateFee (msg : Wire.UpdateFee) : ChannelAct Unit := do
  let ch ← get
  Act.lift (Fault.require (ch.role ≠ .opener) (.close "non-opener sent update_fee"))
  Act.lift (Fault.require (253 ≤ msg.feeratePerKw) (.close "update_fee below floor"))
  Act.lift (Fault.require (msg.feeratePerKw ≤ 10000000) (.close "update_fee absurdly high"))
  set { ch with feerateHolder := msg.feeratePerKw, pendingFeeAck := some msg.feeratePerKw }

/-! ## `commitment_signed` -/

def canSendCommitment (ch : Channel) : Bool :=
  ch.counterpartyDirty && !ch.awaitingRaa && ch.counterpartyNextPoint.isSome &&
    (ch.state = .normal || ch.state = .shuttingDown)

section
variable (C : Crypto)

/-- The digest of the second-stage transaction of one HTLC output. -/
def htlcSighash (b : Built) (delay : Nat) (feerate : FeeRatePerKw) (o : Nat × Script) :
    Option Bytes32 := do
  let htlc ← b.htlcs[o.1]?
  let vout ← (b.built.htlcOutputIndices[o.1]?).join
  let tx := buildHtlcTx C b.built.txid vout htlc b.keys delay feerate
  return tx.segwitV0Sighash C o.2 (Msat.toSatFloor htlc.amountMsat)

/-- Our HTLC signatures for their commitment, in output order. -/
def signHtlcs (ch : Channel) (b : Built) (point : PublicKey) : Option (List Signature) :=
  b.built.htlcsInOutputOrder.mapM fun o =>
    (htlcSighash C b ch.params.holderSelectedDelay ch.feerateCounterparty o).map
      (ch.signer.signHtlc · point)

/-- The keys of the HTLCs in phase `phase` of their commitment. -/
def keysInPhase (ch : Channel) (phase : HtlcPhase) : List (Bool × HtlcId) :=
  (ch.htlcs.filter fun h => h.phaseCounterparty = phase).map Htlc.key

/-- The `update_fee` a commitment signed now covers. -/
def feeUpdate (ch : Channel) : Option FeeRatePerKw :=
  if ch.feerateHolder ≠ ch.feerateCounterparty ∧ ch.role = .opener then
    some ch.feerateCounterparty
  else none

/-- Sign the counterparty's next commitment. -/
def sendCommitmentSigned : ChannelAct Wire.CommitmentSigned := do
  let ch ← get
  Act.lift (Fault.require (!ch.awaitingRaa) (.invalidState "commitment already in flight"))
  Act.lift (Fault.require ch.counterpartyDirty (.invalidState "no changes to sign"))
  let number := ch.counterpartyCommitmentNumber + 1
  let point ← Act.okOr ch.counterpartyNextPoint (.invalidState "next per-commitment point unknown")
  let b ← Act.lift (ch.buildCounterpartyCommitmentAt C number point)
  let signature ← Act.lift (ch.signCounterpartyCommitmentTx C b.built)
  let htlcSignatures ← Act.expect (ch.signHtlcs C b point)
  set { ch with
    pendingCounterpartyCommitment := some (PendingCounterpartyCommitment.mk
      (ch.counterpartyInfoFromBuilt number point b.built b.htlcs) (ch.keysInPhase .pending)
      (ch.keysInPhase .removing) ch.feeUpdate)
    awaitingRaa := true
    counterpartyDirty := false
    signed := ch.signed ++ [SignedCommitment.mk number point b.built b.htlcs ch.commitmentSources] }
  return ⟨ch.channelId, signature, htlcSignatures⟩

/-- Verify the peer's HTLC signatures over our next commitment. -/
def verifyHtlcSigs (ch : Channel) (b : Built) (sigs : List Signature) : ChannelResult Unit := do
  Fault.require (sigs.length = b.built.htlcsInOutputOrder.length)
    (.close ("expected " ++ toString b.built.htlcsInOutputOrder.length ++
      " htlc signatures, got " ++ toString sigs.length))
  (sigs.zip b.built.htlcsInOutputOrder).forM fun so => do
    let sighash ← Fault.expect
      (htlcSighash C b ch.params.counterpartySelectedDelay ch.feerateHolder so.2)
    Fault.require (C.verifyEcdsa sighash so.1 b.keys.countersignatoryHtlcKey)
      (.close "invalid htlc signature")

end

end Channel

namespace Htlc

/-- Lock in the transitions of our commitment. -/
def lockHolder (h : Htlc) : Htlc :=
  match h.phaseHolder with
  | .pending => { h with phaseHolder := .committed }
  | .removing => { h with phaseHolder := .gone }
  | _ => h

/-- Their add, now in our commitment: allowed into theirs. -/
def acksAdd (h : Htlc) : Bool :=
  !h.outbound && h.phaseCounterparty = .notYet && h.phaseHolder = .committed

/-- Their removal of our HTLC: acknowledged. -/
def acksRemoval (h : Htlc) : Bool :=
  h.outbound && h.resolution.isSome && h.phaseHolder = .gone && h.phaseCounterparty = .committed

/-- Acknowledge the peer's add or removal. -/
def acknowledge (h : Htlc) : Htlc :=
  if h.acksAdd then { h with phaseCounterparty := .pending }
  else if h.acksRemoval then { h with phaseCounterparty := .removing }
  else h

/-- Their commitment includes it now; our add enters our own next one. -/
def lockIncluded (h : Htlc) : Htlc :=
  let h := if h.phaseCounterparty = .pending then { h with phaseCounterparty := .committed } else h
  if h.outbound ∧ h.phaseHolder = .notYet then { h with phaseHolder := .pending } else h

/-- Their commitment excludes it now; our removal leaves our own next one. -/
def lockRemoved (h : Htlc) : Htlc :=
  let h := if h.phaseCounterparty = .removing then { h with phaseCounterparty := .gone } else h
  if !h.outbound ∧ h.phaseHolder = .committed then { h with phaseHolder := .removing } else h

/-- Safe to hand to the node layer. -/
def forwardable (h : Htlc) : Bool :=
  !h.outbound && !h.processed && h.resolution.isNone && h.phaseHolder = .committed &&
    h.phaseCounterparty = .committed

/-- Hand a forwardable HTLC over once. -/
def process (h : Htlc) : Htlc := if h.forwardable then { h with processed := true } else h

end Htlc

namespace Channel

/-- What `on_commitment_signed` does once the signatures are verified, garbage collection
apart. -/
def acceptCommitment (ch : Channel) (number : Nat) (b : Built) (msg : Wire.CommitmentSigned) :
    Channel :=
  let locked := ch.htlcs.map Htlc.lockHolder
  let dirty := (locked.any fun h => h.acksAdd || h.acksRemoval) || ch.pendingFeeAck.isSome
  { ch with
    currentHolderCommitment := some ⟨number, b.built, msg.signature, msg.htlcSignatures, b.htlcs,
      b.keys, ch.feerateHolder⟩
    holderCommitmentNumber := number
    htlcs := locked.map Htlc.acknowledge
    feerateCounterparty := ch.pendingFeeAck.getD ch.feerateCounterparty
    pendingFeeAck := none
    counterpartyDirty := ch.counterpartyDirty || dirty }

section
variable (C : Crypto)

/-- Verify the peer's signatures over our next commitment and release the previous one. -/
def onCommitmentSigned (msg : Wire.CommitmentSigned) : ChannelAct Wire.RevokeAndAck := do
  let ch ← get
  Act.lift (Fault.require (ch.state = .normal ∨ ch.state = .shuttingDown)
    (.close "commitment_signed outside normal operation"))
  let number := ch.holderCommitmentNumber + 1
  let b ← Act.lift (ch.buildHolderCommitmentAt C number)
  Act.lift (ch.verifyCounterpartyFundingSig C b.built msg.signature)
  Act.lift (ch.verifyHtlcSigs C b msg.htlcSignatures)
  set (ch.acceptCommitment number b msg).gcHtlcs
  let revoked := number - 1
  return ⟨ch.channelId, ch.signer.releaseCommitmentSecret revoked,
    ch.signer.perCommitmentPoint (number + 1)⟩

/-! ## `revoke_and_ack` -/

/-- The store with the revealed secret. -/
def insertSecret (ch : Channel) (secret : Bytes32) : ChannelResult Shachain.SecretStore :=
  match ch.counterpartySecrets.insert C.sha256Bytes32
      (Shachain.indexForCommitment ch.counterpartyCommitmentNumber) secret with
  | .ok st => .ok st
  | .error (.err _) => .error (.err (.close "per-commitment secret inconsistent with chain"))
  | .error .panic => .error .panic

/-- What `on_revoke_and_ack` does once the secret is stored, garbage collection apart. -/
def acceptRevocation (ch : Channel) (pending : PendingCounterpartyCommitment)
    (secrets : Shachain.SecretStore) (nextPoint : PublicKey) : Channel :=
  let htlcs := pending.included.foldl (fun hs k => htlcMut k Htlc.lockIncluded hs) ch.htlcs
  { ch with
    pendingCounterpartyCommitment := none
    counterpartySecrets := secrets
    counterpartyCommitmentNumber := ch.counterpartyCommitmentNumber + 1
    counterpartyCurrentPoint := ch.counterpartyNextPoint
    counterpartyNextPoint := some nextPoint
    currentCounterpartyCommitment := some pending.info
    awaitingRaa := false
    htlcs := pending.removed.foldl (fun hs k => htlcMut k Htlc.lockRemoved hs) htlcs
    feerateHolder := pending.feeUpdate.getD ch.feerateHolder }

/-- `collect_forwardable`. -/
def collectForwardable : ChannelAct (List CommittedInboundHtlc) := do
  let ch ← get
  set { ch with htlcs := ch.htlcs.map Htlc.process }
  return (ch.htlcs.filter Htlc.forwardable).map fun h =>
    ⟨h.id, h.amountMsat, h.paymentHash, h.cltvExpiry, h.onion⟩

/-- Re-issue a parked removal; one that no longer applies is dropped. -/
def flushRemoval {M : Type} (wrap : M → Wire.Message) (x : ChannelAct (Option M)) :
    ChannelAct RaaOutcome := do
  match ← Act.attempt x with
  | .ok (some m) => return { messages := [wrap m] }
  | .ok none => Act.panic
  | .error (.close e) => Act.fail (.close e)
  | .error _ => return {}

/-- Re-issue one operation of the holding cell. -/
def flushOp : HoldingCellOp → ChannelAct RaaOutcome
  | .add amountMsat paymentHash cltvExpiry onion source => do
    match ← Act.attempt (sendAddHtlc amountMsat paymentHash cltvExpiry onion source) with
    | .ok (some m) => return { messages := [.updateAddHtlc m] }
    | .ok none => Act.panic
    | .error (.ignore _) => return { failedAdds := [(source, "no longer routable on flush")] }
    | .error e => Act.fail e
  | .fulfill id preimage => flushRemoval .updateFulfillHtlc (sendFulfillHtlc C id preimage)
  | .fail id reason => flushRemoval .updateFailHtlc (sendFailHtlc id reason)
  | .failMalformed id sha256OfOnion failureCode =>
    flushRemoval .updateFailMalformedHtlc (sendFailMalformedHtlc id sha256OfOnion failureCode)

/-- Re-issue the operations in order, collecting their messages and failures. -/
def flushOps : List HoldingCellOp → ChannelAct RaaOutcome
  | [] => return {}
  | op :: ops => do
    let a ← flushOp C op
    let b ← flushOps ops
    return { messages := a.messages ++ b.messages, failedAdds := a.failedAdds ++ b.failedAdds }

/-- Sign a new commitment if there is something to sign. -/
def maybeSendCommitmentSigned : ChannelAct (Option Wire.CommitmentSigned) := do
  let ch ← get
  if ch.canSendCommitment then some <$> sendCommitmentSigned C else return none

/-- Process the peer's `revoke_and_ack`, then flush the holding cell. -/
def onRevokeAndAck (msg : Wire.RevokeAndAck) : ChannelAct RaaOutcome := do
  let ch ← get
  Act.lift (Fault.require ch.awaitingRaa (.close "unexpected revoke_and_ack"))
  let pending ← Act.expect ch.pendingCounterpartyCommitment
  let expectedPoint ← Act.expect ch.counterpartyCurrentPoint
  let revealed ← Act.expect (Keys.perCommitmentPoint C msg.perCommitmentSecret)
  Act.lift (Fault.require (revealed = expectedPoint)
    (.close "revoked secret does not match per-commitment point"))
  let secrets ← Act.lift (ch.insertSecret C msg.perCommitmentSecret)
  set (ch.acceptRevocation pending secrets msg.nextPerCommitmentPoint).gcHtlcs
  let forwardable ← collectForwardable
  let ops := (← get).holdingCell
  modify ({ · with holdingCell := [] })
  let flushed ← flushOps C ops
  let commitmentSigned ← maybeSendCommitmentSigned C
  return { flushed with commitmentSigned, forwardable }

end

end Channel
