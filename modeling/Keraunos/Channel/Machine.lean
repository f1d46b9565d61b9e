import Keraunos.Channel.Close
import Keraunos.Channel.Reestablish
import Keraunos.Lib.Run

/-!
# A channel as a machine

`Channel.step` gives every way a channel can be driven: local commands, peer messages, and the
loss of the connection. `perform` calls the method behind an input; the output of a step is the
messages its outcome asks the caller to send. Runs from `new_outbound` or `new_inbound` are the
lives of a channel (`Channel.Fresh`).
-/

open Bitcoin

/-- The messages of a flush, with the `commitment_signed` that covers them. -/
def RaaOutcome.toSend (o : RaaOutcome) : List Wire.Message :=
  o.messages ++ (o.commitmentSigned.map .commitmentSigned).toList

/-- The reply, if there is one. -/
def ClosingSignedOutcome.toSend : ClosingSignedOutcome → List Wire.Message
  | .reply msg _ => [.closingSigned msg]
  | .done _ => []

namespace Channel

inductive Input where
  | acceptChannel (msg : Wire.AcceptChannel)
  | createFunding (txid : Txid) (outputIndex : Nat)
  | fundingCreated (msg : Wire.FundingCreated)
  | fundingSigned (msg : Wire.FundingSigned)
  | confirmFunding (shortChannelId : ShortChannelId)
  | channelReady (msg : Wire.ChannelReady)
  | sendAddHtlc (amountMsat : Msat) (paymentHash : PaymentHash) (cltvExpiry : Nat)
      (onion : List UInt8) (source : HtlcSource)
  | sendFulfillHtlc (id : HtlcId) (preimage : PaymentPreimage)
  | sendFailHtlc (id : HtlcId) (reason : List UInt8)
  | sendFailMalformedHtlc (id : HtlcId) (sha256OfOnion : Bytes32) (failureCode : Nat)
  | sendUpdateFee (feerate : FeeRatePerKw)
  | sendCommitmentSigned
  | updateAddHtlc (msg : Wire.UpdateAddHtlc)
  | updateFulfillHtlc (msg : Wire.UpdateFulfillHtlc)
  | updateFailHtlc (msg : Wire.UpdateFailHtlc)
  | updateFailMalformedHtlc (msg : Wire.UpdateFailMalformedHtlc)
  | updateFee (msg : Wire.UpdateFee)
  | commitmentSigned (msg : Wire.CommitmentSigned)
  | revokeAndAck (msg : Wire.RevokeAndAck)
  | disconnect
  | channelReestablish (msg : Wire.ChannelReestablish)
  | sendShutdown (script : Script)
  | shutdown (msg : Wire.Shutdown) (ourScript : Script)
  | maybeSendClosingSigned (targetFeerate : FeeRatePerKw)
  | closingSigned (msg : Wire.ClosingSigned) (targetFeerate : FeeRatePerKw)

/-- What the method behind an input returns. -/
abbrev Input.Outcome : Input → Type
  | .createFunding .. => Wire.FundingCreated
  | .fundingCreated _ => Wire.FundingSigned
  | .confirmFunding _ => Option Wire.ChannelReady
  | .sendAddHtlc .. => Option Wire.UpdateAddHtlc
  | .sendFulfillHtlc .. => Option Wire.UpdateFulfillHtlc
  | .sendFailHtlc .. => Option Wire.UpdateFailHtlc
  | .sendFailMalformedHtlc .. => Option Wire.UpdateFailMalformedHtlc
  | .sendUpdateFee _ => Option Wire.UpdateFee
  | .sendCommitmentSigned => Wire.CommitmentSigned
  | .updateFulfillHtlc _ | .updateFailHtlc _ | .updateFailMalformedHtlc _ => HtlcSource × Msat
  | .commitmentSigned _ => Wire.RevokeAndAck
  | .revokeAndAck _ => RaaOutcome
  | .channelReestablish _ => ReestablishActions
  | .sendShutdown _ => Wire.Shutdown
  | .shutdown .. => Option Wire.Shutdown
  | .maybeSendClosingSigned _ => Option Wire.ClosingSigned
  | .closingSigned .. => ClosingSignedOutcome
  | .acceptChannel _ | .fundingSigned _ | .channelReady _ | .updateAddHtlc _ | .updateFee _
  | .disconnect => Unit

/-- Call the method behind an input. -/
def perform (C : Crypto) : (i : Input) → ChannelAct i.Outcome
  | .acceptChannel msg => onAcceptChannel C msg
  | .createFunding txid index => fundingCreated C txid index
  | .fundingCreated msg => onFundingCreated C msg
  | .fundingSigned msg => onFundingSigned C msg
  | .confirmFunding scid => confirmFunding scid
  | .channelReady msg => onChannelReady msg
  | .sendAddHtlc amount hash cltv onion source => sendAddHtlc amount hash cltv onion source
  | .sendFulfillHtlc id preimage => sendFulfillHtlc C id preimage
  | .sendFailHtlc id reason => sendFailHtlc id reason
  | .sendFailMalformedHtlc id sha code => sendFailMalformedHtlc id sha code
  | .sendUpdateFee feerate => sendUpdateFee feerate
  | .sendCommitmentSigned => sendCommitmentSigned C
  | .updateAddHtlc msg => onUpdateAddHtlc msg
  | .updateFulfillHtlc msg => onUpdateFulfillHtlc C msg
  | .updateFailHtlc msg => onUpdateFailHtlc msg
  | .updateFailMalformedHtlc msg => onUpdateFailMalformedHtlc msg
  | .updateFee msg => onUpdateFee msg
  | .commitmentSigned msg => onCommitmentSigned C msg
  | .revokeAndAck msg => onRevokeAndAck C msg
  | .disconnect => onDisconnect
  | .channelReestablish msg => do
    let ch ← get
    Act.lift (ch.onChannelReestablish C msg)
  | .sendShutdown script => sendShutdown script
  | .shutdown msg ourScript => onShutdown msg ourScript
  | .maybeSendClosingSigned feerate => maybeSendClosingSigned C feerate
  | .closingSigned msg feerate => onClosingSigned C msg feerate

/-- The messages an outcome asks the caller to send. -/
def Input.toSend : (i : Input) → i.Outcome → List Wire.Message
  | .createFunding .., m => [.fundingCreated m]
  | .fundingCreated _, m => [.fundingSigned m]
  | .confirmFunding _, m => (m.map .channelReady).toList
  | .sendAddHtlc .., m => (m.map .updateAddHtlc).toList
  | .sendFulfillHtlc .., m => (m.map .updateFulfillHtlc).toList
  | .sendFailHtlc .., m => (m.map .updateFailHtlc).toList
  | .sendFailMalformedHtlc .., m => (m.map .updateFailMalformedHtlc).toList
  | .sendUpdateFee _, m => (m.map .updateFee).toList
  | .sendCommitmentSigned, m => [.commitmentSigned m]
  | .commitmentSigned _, m => [.revokeAndAck m]
  | .revokeAndAck _, o => RaaOutcome.toSend o
  | .channelReestablish _, actions => actions.messages
  | .sendShutdown _, m => [.shutdown m]
  | .shutdown .., m => (m.map .shutdown).toList
  | .maybeSendClosingSigned _, m => (m.map .closingSigned).toList
  | .closingSigned .., o => ClosingSignedOutcome.toSend o
  | .acceptChannel _, _ | .fundingSigned _, _ | .channelReady _, _ | .updateAddHtlc _, _
  | .updateFulfillHtlc _, _ | .updateFailHtlc _, _ | .updateFailMalformedHtlc _, _
  | .updateFee _, _ | .disconnect, _ => []

/-- One step: the messages to send. -/
def step (C : Crypto) (i : Input) : ChannelAct (List Wire.Message) :=
  i.toSend <$> perform C i

/-- A channel as `new_outbound` or `new_inbound` returns it. -/
inductive Fresh (C : Crypto) : Channel → Prop
  | outbound {signer : ChannelSigner} {config : ChannelConfig} {network : Network}
      {temporaryChannelId : ChannelId} {fundingAmountSat : Nat} {pushMsat : Msat}
      {feerate : FeeRatePerKw} {ch : Channel} {msg : Wire.OpenChannel} :
      newOutbound signer config network temporaryChannelId fundingAmountSat pushMsat feerate =
        .ok (ch, msg) → Fresh C ch
  | inbound {signer : ChannelSigner} {config : ChannelConfig} {network : Network}
      {open_ : Wire.OpenChannel} {ch : Channel} {msg : Wire.AcceptChannel} :
      newInbound C signer config network open_ = .ok (ch, msg) → Fresh C ch

end Channel
