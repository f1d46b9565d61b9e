import Keraunos.Channel.Dance

/-!
# Reconnection (`channel/reestablish.rs`)

Rollback of unsigned updates at a disconnect, and the retransmissions a `channel_reestablish`
asks for. `on_channel_reestablish` changes nothing in the channel, so it is a function of it.
-/

open Bitcoin Commitment

/-- What to do after processing the peer's `channel_reestablish`. -/
structure ReestablishActions where
  messages : List Wire.Message := []
  dataLossDetected : Bool := false
  deriving DecidableEq

/-- What the rollback of one HTLC leaves. -/
structure Rollback where
  keep : Option Htlc
  requeue : List HoldingCellOp := []
  /-- The id of an inbound HTLC that is forgotten. -/
  forgotten : Option HtlcId := none
  deriving DecidableEq

namespace Channel

/-! ## Disconnect -/

def snapshotIncluded (ch : Channel) : List (Bool × HtlcId) :=
  (ch.pendingCounterpartyCommitment.map (·.included)).getD []

def snapshotRemoved (ch : Channel) : List (Bool × HtlcId) :=
  (ch.pendingCounterpartyCommitment.map (·.removed)).getD []

/-- An inbound HTLC of the same hash, amount and expiry is in our current commitment. -/
def inOurCurrent (ch : Channel) (h : Htlc) : Bool :=
  (ch.currentHolderCommitment.map fun hc => hc.htlcs.any fun x =>
    !x.offered && x.paymentHash = h.paymentHash && x.amountMsat = h.amountMsat &&
      x.cltvExpiry = h.cltvExpiry).getD false

/-- Roll an unsigned removal back; ours is queued again unless it is a malformed one. -/
def rollbackRemoval (ch : Channel) (h : Htlc) : Htlc × List HoldingCellOp :=
  if h.phaseCounterparty = .removing ∧ h.key ∉ ch.snapshotRemoved then
    if h.outbound then
      ({ h with resolution := none, phaseCounterparty := .committed, phaseHolder := .committed },
        [])
    else
      ({ h with resolution := none, phaseCounterparty := .committed },
        match h.resolution with
        | some (.fulfill p) => [.fulfill h.id p]
        | some (.fail r) => [.fail h.id r]
        | _ => [])
  else (h, [])

/-- The body of the loop of `on_disconnect`; `none` when an outbound HTLC has no source. -/
def rollback (ch : Channel) (h : Htlc) : Option Rollback :=
  let unsigned := h.phaseCounterparty = .pending ∧ h.key ∉ ch.snapshotIncluded
  if unsigned ∧ h.outbound then do
    let source ← h.source
    return { keep := none, requeue := [.add h.amountMsat h.paymentHash h.cltvExpiry h.onion source] }
  else
    let h := if unsigned then { h with phaseCounterparty := .notYet } else h
    let (h, requeue) := ch.rollbackRemoval h
    if !h.outbound ∧ h.phaseHolder = .pending ∧ !ch.inOurCurrent h then
      some { keep := none, requeue, forgotten := some h.id }
    else if h.outbound ∧ h.phaseHolder = .removing then
      some { keep := some { h with resolution := none, phaseHolder := .committed }, requeue }
    else some { keep := some h, requeue }

/-- The channel after the loop: what is queued again goes in front of the holding cell. -/
def rolledBack (ch : Channel) (rs : List Rollback) : Channel :=
  { ch with
    htlcs := rs.filterMap (·.keep)
    holdingCell := rs.flatMap (·.requeue) ++ ch.holdingCell
    nextCounterpartyHtlcId := (rs.filterMap (·.forgotten)).foldl min ch.nextCounterpartyHtlcId
    pendingFeeAck := none
    feerateHolder := if ch.pendingFeeAck.isSome then ch.feerateCounterparty else ch.feerateHolder }

/-- Call when the transport drops. -/
def onDisconnect : ChannelAct Unit := do
  let ch ← get
  let rs ← Act.expect (ch.htlcs.mapM ch.rollback)
  set (ch.rolledBack rs)

/-! ## `channel_reestablish` -/

section
variable (C : Crypto)

def zeroBytes32 : Bytes32 := Vector.replicate 32 0

def makeChannelReestablish (ch : Channel) : Wire.ChannelReestablish where
  channelId := ch.channelId
  nextCommitmentNumber := ch.holderCommitmentNumber + 1
  nextRevocationNumber := ch.counterpartyCommitmentNumber
  yourLastPerCommitmentSecret :=
    if ch.counterpartyCommitmentNumber = 0 then zeroBytes32
    else (ch.counterpartySecrets.secretFor C.sha256Bytes32
      (Shachain.indexForCommitment (ch.counterpartyCommitmentNumber - 1))).getD zeroBytes32
  myCurrentPerCommitmentPoint := ch.signer.perCommitmentPoint ch.holderCommitmentNumber

/-- Our last `revoke_and_ack`, again. -/
def lastRevokeAndAck (ch : Channel) : Wire.RevokeAndAck :=
  ⟨ch.channelId, ch.signer.releaseCommitmentSecret (ch.holderCommitmentNumber - 1),
    ch.signer.perCommitmentPoint (ch.holderCommitmentNumber + 1)⟩

/-- The message of a removal. -/
def removalMessage (ch : Channel) (h : Htlc) : Option Wire.Message :=
  match h.resolution with
  | some (.fulfill p) => some (.updateFulfillHtlc ⟨ch.channelId, h.id, p⟩)
  | some (.fail r) => some (.updateFailHtlc ⟨ch.channelId, h.id, r⟩)
  | some (.failMalformed sha code) => some (.updateFailMalformedHtlc ⟨ch.channelId, h.id, sha, code⟩)
  | none => none

/-- The updates of ours that the in-flight commitment covers: adds by id, removals, the fee. -/
def coveredUpdates (ch : Channel) (pending : PendingCounterpartyCommitment) : List Wire.Message :=
  let adds := (pending.included.filter (·.1)).filterMap ch.findHtlc
  let removals := (pending.removed.filter (!·.1)).filterMap ch.findHtlc
  (adds.insertionSort fun a b => a.id ≤ b.id).map (fun h => .updateAddHtlc
      ⟨ch.channelId, h.id, h.amountMsat, h.paymentHash, h.cltvExpiry, h.onion⟩) ++
    removals.filterMap ch.removalMessage ++
    (pending.feeUpdate.map fun fee => Wire.Message.updateFee ⟨ch.channelId, fee⟩).toList

/-- Retransmit the updates of the in-flight commitment, and sign it again. -/
def retransmitCommitment (ch : Channel) : ChannelResult (List Wire.Message) := do
  let pending ← Fault.expect ch.pendingCounterpartyCommitment
  let number := ch.counterpartyCommitmentNumber + 1
  let point ← Fault.okOr ch.counterpartyNextPoint
    (.invalidState "missing next point on reestablish")
  let b ← ch.buildCounterpartyCommitmentAt C number point
  let signature ← ch.signCounterpartyCommitmentTx C b.built
  let htlcSignatures ← Fault.expect (ch.signHtlcs C b point)
  return ch.coveredUpdates pending ++
    [.commitmentSigned ⟨ch.channelId, signature, htlcSignatures⟩]

/-- Their proof of our last released secret. -/
def checkLastSecret (ch : Channel) (msg : Wire.ChannelReestablish) : ChannelResult Unit :=
  if 0 < msg.nextRevocationNumber then
    Fault.require (msg.yourLastPerCommitmentSecret =
        ch.signer.releaseCommitmentSecret (msg.nextRevocationNumber - 1))
      (.close "peer presented incorrect last per-commitment secret")
  else
    Fault.require (msg.yourLastPerCommitmentSecret = zeroBytes32)
      (.close "peer presented a secret before any revocation")

/-- `channel_ready` again, first, for a channel without a commitment exchange. -/
def withChannelReady (ch : Channel) (msg : Wire.ChannelReestablish)
    (messages : List Wire.Message) : ReestablishActions :=
  if msg.nextCommitmentNumber = 1 ∧ ch.holderCommitmentNumber = 0 ∧ ch.channelReadySent then
    { messages := .channelReady ⟨ch.channelId, ch.signer.perCommitmentPoint 1, none⟩ :: messages }
  else { messages }

/-- The number of the last commitment we signed. -/
def ourLastSent (ch : Channel) : Nat :=
  ch.counterpartyCommitmentNumber + if ch.awaitingRaa then 1 else 0

/-- The part of `on_channel_reestablish` about their view of our `commitment_signed`. -/
def reestablishCommitment (ch : Channel) (msg : Wire.ChannelReestablish)
    (messages : List Wire.Message) : ChannelResult ReestablishActions := do
  ch.checkLastSecret msg
  if msg.nextCommitmentNumber = ch.ourLastSent ∧ ch.awaitingRaa then
    let resent ← ch.retransmitCommitment C
    return ch.withChannelReady msg (messages ++ resent)
  else if msg.nextCommitmentNumber = ch.ourLastSent + 1 then
    return ch.withChannelReady msg messages
  else if msg.nextCommitmentNumber > ch.ourLastSent + 1 then
    return { messages, dataLossDetected := true }
  else .error (.err (.close "peer expects an ancient commitment; unrecoverable"))

def onChannelReestablish (ch : Channel) (msg : Wire.ChannelReestablish) :
    ChannelResult ReestablishActions :=
  let ourNextRevocation := ch.holderCommitmentNumber
  if msg.nextRevocationNumber = ourNextRevocation - 1 ∧ 0 < ch.holderCommitmentNumber then
    ch.reestablishCommitment C msg [.revokeAndAck ch.lastRevokeAndAck]
  else if msg.nextRevocationNumber > ourNextRevocation then .ok { dataLossDetected := true }
  else if msg.nextRevocationNumber ≠ ourNextRevocation then
    .error (.err (.close "peer requests an ancient revocation; unrecoverable"))
  else ch.reestablishCommitment C msg []

end

end Channel
