import Keraunos.Channel.Dance

/-!
# Cooperative close (`channel/close.rs`)

`shutdown` and the `closing_signed` fee negotiation.
-/

open Bitcoin Commitment

/-- What `on_closing_signed` decided. -/
inductive ClosingSignedOutcome where
  /-- Send this reply; with a transaction, negotiation is over. -/
  | reply (msg : Wire.ClosingSigned) (tx : Option Transaction)
  /-- Their message completed negotiation. -/
  | done (tx : Transaction)
  deriving DecidableEq

/-- `Ord::clamp`: panics when the bounds are out of order. -/
def clamp (x lo hi : Nat) : Option Nat := if lo ≤ hi then some (max lo (min x hi)) else none

namespace Channel

/-! ## Shutdown -/

/-- Begin (or reciprocate) shutdown. -/
def sendShutdown (script : Script) : ChannelAct Wire.Shutdown := do
  let ch ← get
  Act.lift (Fault.require
    (ch.state = .normal ∨ ch.state = .awaitingChannelReady ∨ ch.state = .shuttingDown)
    (.invalidState "shutdown in wrong state"))
  Act.lift (Fault.require (!ch.shutdownSent) (.invalidState "shutdown already sent"))
  Act.lift (Fault.require (isWitnessProgram script)
    (.invalidState "shutdown script must be a witness program"))
  set { ch with
    holderShutdownScript := some script
    shutdownSent := true
    state := if ch.state = ChannelState.normal then ChannelState.shuttingDown else ch.state }
  return ⟨ch.channelId, script⟩

/-- Peer wants to close: our reciprocal `shutdown`, if we had not sent one. -/
def onShutdown (msg : Wire.Shutdown) (ourScript : Script) : ChannelAct (Option Wire.Shutdown) := do
  let ch ← get
  Act.lift (Fault.require
    (ch.state = .normal ∨ ch.state = .awaitingChannelReady ∨ ch.state = .shuttingDown)
    (.close "shutdown in wrong state"))
  Act.lift (Fault.require (isWitnessProgram msg.scriptpubkey)
    (.close "shutdown script is not a witness program"))
  set { ch with
    counterpartyShutdownScript := some msg.scriptpubkey
    shutdownReceived := true
    state := .shuttingDown }
  if ch.shutdownSent then return none else some <$> sendShutdown ourScript

/-! ## Negotiation -/

/-- Both `shutdown`s exchanged, all HTLCs resolved, nothing in flight. -/
def readyToNegotiateClose (ch : Channel) : Bool :=
  (ch.state = .shuttingDown || ch.state = .negotiatingClose) && ch.shutdownSent &&
    ch.shutdownReceived && ch.htlcs.isEmpty && !ch.awaitingRaa && !ch.counterpartyDirty &&
    ch.holdingCell.isEmpty

/-- `closing_fee_bounds`: the fee we propose with the range we accept. -/
def closingFeeBounds (ch : Channel) (targetFeerate : FeeRatePerKw) : Option (Nat × Nat × Nat) := do
  let fee := FeeRatePerKw.feeForWeight targetFeerate closingTxWeightBound
  let lo := FeeRatePerKw.feeForWeight 253 closingTxWeightBound
  let funderBalance := if ch.role = .opener then Msat.toSatFloor (ch.balancesFor true).1
    else 2 ^ 64 - 1
  let hi := min (fee * 2) funderBalance
  return (← clamp fee lo hi, lo, hi)

section
variable (C : Crypto)

/-- `build_and_sign_closing`. -/
def buildAndSignClosing (ch : Channel) (feeSat : Nat) : ChannelResult (Transaction × Signature) := do
  let holderScript ← Fault.okOr ch.holderShutdownScript (.invalidState "no holder shutdown script")
  let counterpartyScript ← Fault.okOr ch.counterpartyShutdownScript
    (.invalidState "no counterparty shutdown script")
  let funding ← Fault.okOr ch.fundingOutpoint (.invalidState "no funding outpoint")
  let holderSat := Msat.toSatFloor (ch.balancesFor true).1
  let counterpartySat := Msat.toSatFloor (ch.balancesFor true).2
  let tx := buildClosingTx funding
    (if ch.role = .opener then holderSat - feeSat else holderSat)
    (if ch.role = .opener then counterpartySat else counterpartySat - feeSat)
    holderScript counterpartyScript (max ch.params.holderDustLimitSat 546)
  Fault.require (tx.output ≠ []) (.invalidState "closing tx would have no outputs")
  let sighash ← ch.fundingSighash C tx
  return (tx, ch.signer.signWithFundingKey sighash)

/-- `verify_their_closing_sig`. -/
def verifyTheirClosingSig (ch : Channel) (feeSat : Nat) (sig : Signature) : ChannelResult Unit := do
  let signed ← ch.buildAndSignClosing C feeSat
  let cp ← ch.counterparty
  let sighash ← ch.fundingSighash C signed.1
  Fault.require (C.verifyEcdsa sighash sig cp.fundingPubkey) (.close "invalid closing signature")

/-- `finalize_closing`. -/
def finalizeClosing (feeSat : Nat) (theirSig : Signature) : ChannelAct Transaction := do
  let ch ← get
  let signed ← Act.lift (ch.buildAndSignClosing C feeSat)
  let cp ← Act.lift ch.counterparty
  let witness := fundingSpendWitness C ch.holderPubkeys.fundingPubkey cp.fundingPubkey signed.2
    theirSig
  let tx := { signed.1 with input := signed.1.input.modifyHead ({ · with witness }) }
  set { ch with closingTx := some tx, state := .closed }
  return tx

/-- The `closing_signed` at fee `fee`. -/
def closingSigned (ch : Channel) (fee : Nat) (range : Option (Nat × Nat)) :
    ChannelResult Wire.ClosingSigned := do
  let signed ← ch.buildAndSignClosing C fee
  return ⟨ch.channelId, fee, signed.2, range.map fun r => ⟨r.1, r.2⟩⟩

/-- The funder starts negotiation once the channel is quiescent. -/
def maybeSendClosingSigned (targetFeerate : FeeRatePerKw) :
    ChannelAct (Option Wire.ClosingSigned) := do
  let ch ← get
  if !ch.readyToNegotiateClose ∨ ch.role ≠ .opener ∨ ch.lastClosingFeeProposal.isSome then
    return none
  else
    let bounds ← Act.expect (ch.closingFeeBounds targetFeerate)
    let msg ← Act.lift (ch.closingSigned C bounds.1 (some bounds.2))
    set { ch with state := .negotiatingClose, lastClosingFeeProposal := some bounds.1 }
    return some msg

/-- Finish at fee `fee` and answer with our own signature for it. -/
def acceptClosingFee (fee : Nat) (sig : Signature) (range : Option (Nat × Nat)) :
    ChannelAct ClosingSignedOutcome := do
  let tx ← finalizeClosing C fee sig
  let ch ← get
  let msg ← Act.lift (ch.closingSigned C fee range)
  return .reply msg (some tx)

/-- Propose fee `fee`. -/
def proposeClosingFee (fee : Nat) (range : Option (Nat × Nat)) : ChannelAct ClosingSignedOutcome := do
  let ch ← get
  let msg ← Act.lift (ch.closingSigned C fee range)
  return .reply msg none

/-- `on_closing_signed` with a `fee_range`: pick inside the overlap. -/
def negotiateInRange (msg : Wire.ClosingSigned) (bounds : Nat × Nat × Nat)
    (range : Wire.ClosingSignedFeeRange) : ChannelAct ClosingSignedOutcome := do
  let ch ← get
  let lo := max bounds.2.1 range.minFeeSatoshis
  let hi := min bounds.2.2 range.maxFeeSatoshis
  let theirFee := msg.feeSatoshis
  Act.lift (Fault.require (lo ≤ hi) (.ignore "no overlap between closing fee ranges"))
  if ch.role = .opener then
    -- The funder accepts the other side's choice if it is in range.
    Act.lift (Fault.require (lo ≤ theirFee ∧ theirFee ≤ hi)
      (.close "closing fee outside negotiated range"))
    let outcome ← acceptClosingFee C theirFee msg.signature (some bounds.2)
    modify ({ · with lastClosingFeeProposal := some theirFee })
    return outcome
  else
    match ch.lastClosingFeeProposal with
    | some sent =>
      Act.lift (Fault.require (theirFee = sent) (.close "funder moved fee after our range proposal"))
      return .done (← finalizeClosing C theirFee msg.signature)
    | none =>
      let fee ← Act.expect (clamp bounds.1 lo hi)
      modify ({ · with lastClosingFeeProposal := some fee })
      if fee = theirFee then acceptClosingFee C fee msg.signature (some bounds.2)
      else proposeClosingFee C fee (some bounds.2)

/-- `on_closing_signed` without a `fee_range`: converge by strictly-between proposals. -/
def negotiateLegacy (msg : Wire.ClosingSigned) (ourFee : Nat) : ChannelAct ClosingSignedOutcome := do
  let ch ← get
  let theirFee := msg.feeSatoshis
  let ourNext := match ch.lastClosingFeeProposal with
    | none => ourFee
    | some sent => if (theirFee - sent) + (sent - theirFee) ≤ 1 then theirFee
      else (theirFee + sent) / 2
  set { ch with lastClosingFeeProposal := some ourNext }
  if ourNext = theirFee then acceptClosingFee C theirFee msg.signature none
  else proposeClosingFee C ourNext none

def onClosingSigned (msg : Wire.ClosingSigned) (targetFeerate : FeeRatePerKw) :
    ChannelAct ClosingSignedOutcome := do
  let ch ← get
  Act.lift (Fault.require ch.readyToNegotiateClose
    (.close "closing_signed before channel is quiescent"))
  set { ch with state := .negotiatingClose }
  Act.lift (ch.verifyTheirClosingSig C msg.feeSatoshis msg.signature)
  if some msg.feeSatoshis = ch.lastClosingFeeProposal then
    return .done (← finalizeClosing C msg.feeSatoshis msg.signature)
  else
    let bounds ← Act.expect (ch.closingFeeBounds targetFeerate)
    match msg.feeRange with
    | some range => negotiateInRange C msg bounds range
    | none => negotiateLegacy C msg bounds.1

end

end Channel
