import Keraunos.Channel.Close
import Keraunos.Lib.Word

/-!
# Amounts as 64-bit words (`channel/mod.rs`, `channel/dance.rs`, `channel/close.rs`)

The opening, the admission of the peer's HTLCs and the fee negotiation with the arithmetic of the
source, where amounts are `u64`s and sums and products are unchecked operators. The other modules
compute the same values exactly. `new_outbound`, `new_inbound`, `on_update_add_htlc` and
`on_closing_signed` are the functions that take amounts of the peer's or the caller's choice before
anything bounds them.
-/

open Bitcoin Commitment

namespace Channel

section
variable (m : Overflow)

/-! ## Opening -/

/-- `reserve_for`. -/
def reserveFor64 (config : ChannelConfig) (fundingSat : Nat) : ChannelResult Nat := do
  let product ← m.mul fundingSat config.reservePpm
  return max (product / 1000000) config.dustLimitSat

/-- The in-flight limit of both constructors. -/
def maxInFlightFor64 (config : ChannelConfig) (fundingSat : Nat) : ChannelResult Msat := do
  let product ← m.mul (fundingSat / 1000000) config.maxHtlcValueInFlightPpm
  m.mul product 1000

def newOutbound64 (signer : ChannelSigner) (config : ChannelConfig) (network : Network)
    (temporaryChannelId : ChannelId) (fundingAmountSat : Nat) (pushMsat : Msat)
    (feerate : FeeRatePerKw) : ChannelResult (Channel × Wire.OpenChannel) := do
  let fundingMsat ← m.mul fundingAmountSat 1000
  Fault.require (pushMsat ≤ fundingMsat) (.invalidState "push exceeds funding")
  let reserve ← reserveFor64 m config fundingAmountSat
  let maxInFlight ← maxInFlightFor64 m config fundingAmountSat
  let openerMsat ← m.sub fundingMsat pushMsat
  return outboundChannel signer config network temporaryChannelId fundingAmountSat pushMsat feerate
    ⟨reserve, maxInFlight, openerMsat⟩

/-- The checks of `new_inbound` between its two products. -/
def checkOpenChannelFields (msg : Wire.OpenChannel) : ChannelResult Unit := do
  Fault.require (msg.dustLimitSatoshis ≤ msg.channelReserveSatoshis)
    (.close "dust limit above reserve")
  Fault.require (msg.toSelfDelay ≤ 2016) (.close "to_self_delay unreasonably large")
  Fault.require (msg.maxAcceptedHtlcs ≤ maxHtlcsPerSide) (.close "max_accepted_htlcs above 483")
  Fault.require (253 ≤ msg.feeratePerKw) (.close "feerate too low")
  Fault.require (∀ ct ∈ msg.channelType, ct = staticRemotekeyChannelType)
    (.close "unsupported channel_type")

def newInbound64 (C : Crypto) (signer : ChannelSigner) (config : ChannelConfig) (network : Network)
    (msg : Wire.OpenChannel) : ChannelResult (Channel × Wire.AcceptChannel) := do
  Fault.require (msg.chainHash = network.chainHash) (.close "unknown chain")
  let fundingMsat ← m.mul msg.fundingSatoshis 1000
  Fault.require (msg.pushMsat ≤ fundingMsat) (.close "push exceeds funding")
  checkOpenChannelFields msg
  let reserve ← reserveFor64 m config msg.fundingSatoshis
  Fault.require (msg.dustLimitSatoshis ≤ reserve) (.close "our reserve below their dust limit")
  let maxInFlight ← maxInFlightFor64 m config msg.fundingSatoshis
  let openerMsat ← m.sub fundingMsat msg.pushMsat
  return inboundChannel C signer config msg ⟨reserve, maxInFlight, openerMsat⟩

end

end Channel

/-! ## Admission -/

/-- `apply_balance`: subtraction saturates, addition does not. -/
def Htlc.applyBalance64 (m : Overflow) (h : Htlc) (phase : HtlcPhase) (bal : Msat × Msat) :
    ChannelResult (Msat × Msat) :=
  if phase.included then
    .ok (if h.outbound then (bal.1 - h.amountMsat, bal.2) else (bal.1, bal.2 - h.amountMsat))
  else if phase.credited then
    match h.resolution with
    | some (.fulfill _) =>
      if h.outbound then do
        return (bal.1 - h.amountMsat, ← m.add bal.2 h.amountMsat)
      else do
        return (← m.add bal.1 h.amountMsat, bal.2 - h.amountMsat)
    | _ => .ok bal
  else .ok bal

namespace Channel

section
variable (m : Overflow)

/-- `balances_for`. -/
def balancesFor64 (ch : Channel) (holderSide : Bool) : ChannelResult (Msat × Msat) :=
  ch.htlcs.foldlM (fun bal h => h.applyBalance64 m (h.phase holderSide) bal)
    (ch.toHolderMsat, ch.toCounterpartyMsat)

/-- The fee that is added for a peer that pays it: the product of feerate and weight, rounded down to
satoshis. -/
def peerFee64 (ch : Channel) : ChannelResult Msat := do
  if ch.role = .accepter then
    let product ← m.mul ch.feerateHolder
      (commitmentTxBaseWeight + commitmentTxWeightPerHtlc * (ch.includedCount true + 1))
    m.mul (product / 1000) 1000
  else return 0

/-- The checks of `on_update_add_htlc` before the amounts are added up. -/
def checkUpdateAddFields (ch : Channel) (msg : Wire.UpdateAddHtlc) : ChannelResult Unit := do
  Fault.require (ch.state = .normal) (.close "update_add_htlc outside normal operation")
  Fault.require (¬ (ch.shutdownSent ∨ ch.shutdownReceived))
    (.close "update_add_htlc during shutdown")
  Fault.require (msg.id = ch.nextCounterpartyHtlcId)
    (.close ("non-sequential htlc id " ++ toString msg.id ++ " (expected " ++
      toString ch.nextCounterpartyHtlcId ++ ")"))
  Fault.require (msg.amountMsat ≠ 0) (.close "zero-amount HTLC")
  Fault.require (ch.params.holderHtlcMinimumMsat ≤ msg.amountMsat)
    (.close "HTLC below our htlc_minimum")
  Fault.require (msg.cltvExpiry < 500000000) (.close "cltv_expiry too large")
  Fault.require ((ch.live false).length % 2 ^ 16 < ch.params.holderMaxAcceptedHtlcs)
    (.close "our max_accepted_htlcs exceeded")

/-- The checks of `on_update_add_htlc` and the HTLC id that follows. -/
def checkUpdateAddHtlc64 (ch : Channel) (msg : Wire.UpdateAddHtlc) : ChannelResult HtlcId := do
  ch.checkUpdateAddFields msg
  let live ← m.sum ((ch.live false).map (·.amountMsat))
  let inFlight ← m.add live msg.amountMsat
  Fault.require (inFlight ≤ ch.params.holderMaxHtlcValueInFlightMsat)
    (.close "our max_htlc_value_in_flight exceeded")
  let balances ← ch.balancesFor64 m true
  let reserve ← m.mul ch.params.holderSelectedReserveSat 1000
  let needed ← m.add msg.amountMsat reserve
  let fee ← ch.peerFee64 m
  let needed ← m.add needed fee
  Fault.require (needed ≤ balances.2) (.close "peer cannot afford HTLC")
  m.add ch.nextCounterpartyHtlcId 1

def onUpdateAddHtlc64 (msg : Wire.UpdateAddHtlc) : ChannelAct Unit := do
  let ch ← get
  let next ← Act.lift (ch.checkUpdateAddHtlc64 m msg)
  set { ch with
    nextCounterpartyHtlcId := next
    htlcs := ch.htlcs ++
      [Htlc.mk false msg.id msg.amountMsat msg.paymentHash msg.cltvExpiry msg.onionRoutingPacket
        none none .pending .notYet false] }

/-! ## Closing fees -/

/-- The fee a `closing_signed` without a range is answered with. -/
def legacyNext64 (last : Option Nat) (ourFee theirFee : Nat) : ChannelResult Nat :=
  match last with
  | none => .ok ourFee
  | some sent =>
    if (theirFee - sent) + (sent - theirFee) ≤ 1 then .ok theirFee
    else do
      let sum ← m.add theirFee sent
      return sum / 2

/-- `on_closing_signed` without a `fee_range`. -/
def negotiateLegacy64 (C : Crypto) (msg : Wire.ClosingSigned) (ourFee : Nat) :
    ChannelAct ClosingSignedOutcome := do
  let ch ← get
  let theirFee := msg.feeSatoshis
  let ourNext ← Act.lift (legacyNext64 m ch.lastClosingFeeProposal ourFee theirFee)
  set { ch with lastClosingFeeProposal := some ourNext }
  if ourNext = theirFee then acceptClosingFee C theirFee msg.signature none
  else proposeClosingFee C ourNext none

def onClosingSigned64 (C : Crypto) (msg : Wire.ClosingSigned) (targetFeerate : FeeRatePerKw) :
    ChannelAct ClosingSignedOutcome := do
  let ch ← get
  Act.lift (Fault.require ch.readyToNegotiateClose
    (.close "closing_signed before channel is quiescent"))
  set { ch with state := .negotiatingClose }
  Act.lift (ch.verifyTheirClosingSig C msg.feeSatoshis msg.signature)
  if some msg.feeSatoshis = ch.lastClosingFeeProposal then
    return .done (← finalizeClosing C msg.feeSatoshis msg.signature)
  else
    let bounds ← Act.expect (ch.closingFeeBounds targetFeerate)
    match msg.feeRange with
    | some range => negotiateInRange C msg bounds range
    | none => negotiateLegacy64 m C msg bounds.1

end

end Channel
