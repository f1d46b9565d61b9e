import Keraunos.Channel.State

/-!
# Channels: commitments and opening (`channel/mod.rs`)

Per-side balances and garbage collection of resolved HTLCs, the two sides' commitments, the
opening handshake, and the broadcastable local commitment.
-/

open Bitcoin Commitment

namespace Channel

/-! ## Balances -/

/-- `balances_for`: the base balances with one side's live HTLCs applied, in order. -/
def balancesFor (ch : Channel) (holderSide : Bool) : Msat × Msat :=
  ch.htlcs.foldl (fun bal h => h.applyBalance (h.phase holderSide) bal)
    (ch.toHolderMsat, ch.toCounterpartyMsat)

/-- `gc_htlcs`: drop the HTLCs gone from both commitments and bake their effect into the base. -/
def gcHtlcs (ch : Channel) : Channel :=
  let bal := (ch.htlcs.filter Htlc.isGone).foldl (fun bal h => h.applyBalance .gone bal)
    (ch.toHolderMsat, ch.toCounterpartyMsat)
  { ch with
    htlcs := ch.htlcs.filter fun h => !h.isGone
    toHolderMsat := bal.1
    toCounterpartyMsat := bal.2 }

/-- The HTLCs of one side's next commitment, seen by that side. -/
def commitmentHtlcs (ch : Channel) (holderSide : Bool) : List HtlcOutputInCommitment :=
  (ch.htlcs.filter fun h => (h.phase holderSide).included).map (·.inCommitment holderSide)

/-- The sources of our HTLCs in the counterparty's next commitment. -/
def commitmentSources (ch : Channel) : List HtlcSource :=
  (ch.htlcs.filter fun h => h.phaseCounterparty.included).filterMap (·.source)

/-! ## Building commitments -/

def counterparty (ch : Channel) : ChannelResult ChannelPublicKeys :=
  Fault.okOr ch.counterpartyPubkeys (.invalidState "counterparty keys not yet known")

/-- What the builders return. -/
structure Built where
  built : BuiltCommitmentTx
  keys : TxCreationKeys
  htlcs : List HtlcOutputInCommitment

/-- The parameters of the holder's commitment. -/
def holderParams (ch : Channel) (cp : ChannelPublicKeys) (keys : TxCreationKeys)
    (funding : OutPoint) (number : Nat) : CommitmentTxParams where
  fundingOutpoint := funding
  commitmentNumber := number
  obscureFactor := ch.obscureFactor
  broadcasterPaysFee := ch.role = .opener
  feerate := ch.feerateHolder
  broadcasterDustLimitSat := ch.params.holderDustLimitSat
  toSelfDelay := ch.params.counterpartySelectedDelay
  keys := keys
  countersignatoryPaymentBasepoint := cp.paymentBasepoint
  toBroadcasterMsat := (ch.balancesFor true).1
  toCountersignatoryMsat := (ch.balancesFor true).2
  htlcs := ch.commitmentHtlcs true

/-- The parameters of the counterparty's commitment. -/
def counterpartyParams (ch : Channel) (keys : TxCreationKeys) (funding : OutPoint) (number : Nat) :
    CommitmentTxParams where
  fundingOutpoint := funding
  commitmentNumber := number
  obscureFactor := ch.obscureFactor
  broadcasterPaysFee := ch.role = .accepter
  feerate := ch.feerateCounterparty
  broadcasterDustLimitSat := ch.params.counterpartyDustLimitSat
  toSelfDelay := ch.params.holderSelectedDelay
  keys := keys
  countersignatoryPaymentBasepoint := ch.holderPubkeys.paymentBasepoint
  toBroadcasterMsat := (ch.balancesFor false).2
  toCountersignatoryMsat := (ch.balancesFor false).1
  htlcs := ch.commitmentHtlcs false

section
variable (C : Crypto)

/-- `build_holder_commitment_at`. -/
def buildHolderCommitmentAt (ch : Channel) (number : Nat) : ChannelResult Built := do
  let cp ← ch.counterparty
  let keys ← Fault.expect
    (TxCreationKeys.derive C (ch.signer.perCommitmentPoint number) ch.holderPubkeys cp)
  let funding ← Fault.okOr ch.fundingOutpoint (.invalidState "no funding outpoint")
  let built ← Fault.expect (buildCommitmentTx C (ch.holderParams cp keys funding number))
  return ⟨built, keys, ch.commitmentHtlcs true⟩

/-- `build_counterparty_commitment_at`. -/
def buildCounterpartyCommitmentAt (ch : Channel) (number : Nat) (point : PublicKey) :
    ChannelResult Built := do
  let cp ← ch.counterparty
  let keys ← Fault.expect (TxCreationKeys.derive C point cp ch.holderPubkeys)
  let funding ← Fault.okOr ch.fundingOutpoint (.invalidState "no funding outpoint")
  let built ← Fault.expect (buildCommitmentTx C (ch.counterpartyParams keys funding number))
  return ⟨built, keys, ch.commitmentHtlcs false⟩

/-- `counterparty_info_from_built`. -/
def counterpartyInfoFromBuilt (ch : Channel) (number : Nat) (point : PublicKey)
    (built : BuiltCommitmentTx) (htlcs : List HtlcOutputInCommitment) :
    CounterpartyCommitmentInfo where
  number := number
  txid := built.txid
  perCommitmentPoint := point
  htlcs := htlcs.zipIdx.map fun hi => (hi.1, (built.htlcOutputIndices[hi.2]?).join)
  toHolderMsat := (ch.balancesFor false).1
  toCounterpartyMsat := (ch.balancesFor false).2
  feerate := ch.feerateCounterparty

/-- The digest the funding key signs. -/
def fundingSighash (ch : Channel) (tx : Transaction) : ChannelResult Bytes32 := do
  let cp ← ch.counterparty
  return tx.segwitV0Sighash C (fundingRedeemscript ch.holderPubkeys.fundingPubkey cp.fundingPubkey)
    ch.fundingAmountSat

def signCounterpartyCommitmentTx (ch : Channel) (built : BuiltCommitmentTx) :
    ChannelResult Signature := do
  let sighash ← ch.fundingSighash C built.tx
  return ch.signer.signWithFundingKey sighash

def verifyCounterpartyFundingSig (ch : Channel) (built : BuiltCommitmentTx) (sig : Signature) :
    ChannelResult Unit := do
  let cp ← ch.counterparty
  let sighash ← ch.fundingSighash C built.tx
  Fault.require (C.verifyEcdsa sighash sig cp.fundingPubkey)
    (.close "invalid commitment signature")

/-- Our current local commitment, fully signed, ready to broadcast. -/
def signedHolderCommitmentTx (ch : Channel) : ChannelResult Transaction := do
  let hc ← Fault.okOr ch.currentHolderCommitment (.invalidState "no holder commitment yet")
  let cp ← ch.counterparty
  let sighash ← ch.fundingSighash C hc.built.tx
  let ourSig := ch.signer.signWithFundingKey sighash
  let witness := fundingSpendWitness C ch.holderPubkeys.fundingPubkey cp.fundingPubkey ourSig
    hc.counterpartySig
  return { hc.built.tx with input := hc.built.tx.input.modifyHead ({ · with witness }) }

/-! ## Opening -/

/-- Max in flight, in whole millions of satoshi of capacity. -/
def maxInFlightFor (config : ChannelConfig) (fundingSat : Nat) : Msat :=
  fundingSat / 1000000 * config.maxHtlcValueInFlightPpm * 1000

/-- What the opening computes from the funding amount. -/
structure OpeningTerms where
  reserve : Nat
  maxInFlight : Msat
  /-- What the push leaves to the opener. -/
  openerMsat : Msat
  deriving DecidableEq, Repr

def openingTerms (config : ChannelConfig) (fundingSat : Nat) (pushMsat : Msat) : OpeningTerms :=
  ⟨reserveFor config fundingSat, maxInFlightFor config fundingSat, fundingSat * 1000 - pushMsat⟩

/-- The channel and the message of `new_outbound`. -/
def outboundChannel (signer : ChannelSigner) (config : ChannelConfig) (network : Network)
    (temporaryChannelId : ChannelId) (fundingAmountSat : Nat) (pushMsat : Msat)
    (feerate : FeeRatePerKw) (terms : OpeningTerms) : Channel × Wire.OpenChannel :=
  ({ signer, config, temporaryChannelId, fundingAmountSat, pushMsat
     role := .opener
     state := .openSent
     params :=
      { holderDustLimitSat := config.dustLimitSat
        counterpartyDustLimitSat := 0
        holderSelectedReserveSat := terms.reserve
        counterpartySelectedReserveSat := 0
        counterpartyMaxHtlcValueInFlightMsat := 0
        holderMaxHtlcValueInFlightMsat := terms.maxInFlight
        counterpartyHtlcMinimumMsat := 0
        holderHtlcMinimumMsat := config.htlcMinimumMsat
        counterpartyMaxAcceptedHtlcs := 0
        holderMaxAcceptedHtlcs := config.maxAcceptedHtlcs
        holderSelectedDelay := config.toSelfDelay
        counterpartySelectedDelay := 0 }
     channelId := temporaryChannelId
     fundingOutpoint := none
     holderPubkeys := signer.pubkeys
     counterpartyPubkeys := none
     obscureFactor := 0
     feerateHolder := feerate
     feerateCounterparty := feerate
     announce := config.announce
     toHolderMsat := terms.openerMsat
     toCounterpartyMsat := pushMsat
     counterpartyCurrentPoint := none },
   { chainHash := network.chainHash
     temporaryChannelId := temporaryChannelId
     fundingSatoshis := fundingAmountSat
     pushMsat := pushMsat
     dustLimitSatoshis := config.dustLimitSat
     maxHtlcValueInFlightMsat := terms.maxInFlight
     channelReserveSatoshis := terms.reserve
     htlcMinimumMsat := config.htlcMinimumMsat
     feeratePerKw := feerate
     toSelfDelay := config.toSelfDelay
     maxAcceptedHtlcs := config.maxAcceptedHtlcs
     basepoints := basepointsMsg signer.pubkeys
     firstPerCommitmentPoint := signer.perCommitmentPoint 0
     channelFlags := if config.announce then 1 else 0
     upfrontShutdownScript := none
     channelType := some staticRemotekeyChannelType })

/-- `new_outbound`: the channel and the `open_channel` to send. -/
def newOutbound (signer : ChannelSigner) (config : ChannelConfig) (network : Network)
    (temporaryChannelId : ChannelId) (fundingAmountSat : Nat) (pushMsat : Msat)
    (feerate : FeeRatePerKw) : ChannelResult (Channel × Wire.OpenChannel) :=
  if pushMsat > fundingAmountSat * 1000 then .error (.err (.invalidState "push exceeds funding"))
  else .ok (outboundChannel signer config network temporaryChannelId fundingAmountSat pushMsat feerate
    (openingTerms config fundingAmountSat pushMsat))

/-- The checks of `new_inbound` on the peer's `open_channel`. -/
def checkOpenChannel (config : ChannelConfig) (network : Network) (msg : Wire.OpenChannel) :
    ChannelResult Unit := do
  Fault.require (msg.chainHash = network.chainHash) (.close "unknown chain")
  Fault.require (msg.pushMsat ≤ msg.fundingSatoshis * 1000) (.close "push exceeds funding")
  Fault.require (msg.dustLimitSatoshis ≤ msg.channelReserveSatoshis)
    (.close "dust limit above reserve")
  Fault.require (msg.toSelfDelay ≤ 2016) (.close "to_self_delay unreasonably large")
  Fault.require (msg.maxAcceptedHtlcs ≤ maxHtlcsPerSide) (.close "max_accepted_htlcs above 483")
  Fault.require (253 ≤ msg.feeratePerKw) (.close "feerate too low")
  Fault.require (∀ ct ∈ msg.channelType, ct = staticRemotekeyChannelType)
    (.close "unsupported channel_type")
  Fault.require (msg.dustLimitSatoshis ≤ reserveFor config msg.fundingSatoshis)
    (.close "our reserve below their dust limit")

/-- The channel and the message of `new_inbound`. -/
def inboundChannel (signer : ChannelSigner) (config : ChannelConfig) (msg : Wire.OpenChannel)
    (terms : OpeningTerms) : Channel × Wire.AcceptChannel :=
  ({ signer, config
     role := .accepter
     state := .acceptSent
     params :=
      { holderDustLimitSat := config.dustLimitSat
        counterpartyDustLimitSat := msg.dustLimitSatoshis
        holderSelectedReserveSat := terms.reserve
        counterpartySelectedReserveSat := msg.channelReserveSatoshis
        counterpartyMaxHtlcValueInFlightMsat := msg.maxHtlcValueInFlightMsat
        holderMaxHtlcValueInFlightMsat := terms.maxInFlight
        counterpartyHtlcMinimumMsat := msg.htlcMinimumMsat
        holderHtlcMinimumMsat := config.htlcMinimumMsat
        counterpartyMaxAcceptedHtlcs := msg.maxAcceptedHtlcs
        holderMaxAcceptedHtlcs := config.maxAcceptedHtlcs
        holderSelectedDelay := config.toSelfDelay
        counterpartySelectedDelay := msg.toSelfDelay }
     temporaryChannelId := msg.temporaryChannelId
     channelId := msg.temporaryChannelId
     fundingOutpoint := none
     fundingAmountSat := msg.fundingSatoshis
     pushMsat := msg.pushMsat
     holderPubkeys := signer.pubkeys
     counterpartyPubkeys := some (pubkeysFromMsg msg.basepoints)
     obscureFactor := commitNumberObscureFactor C msg.basepoints.payment
      signer.pubkeys.paymentBasepoint
     feerateHolder := msg.feeratePerKw
     feerateCounterparty := msg.feeratePerKw
     announce := msg.channelFlags &&& 1 ≠ 0 && config.announce
     toHolderMsat := msg.pushMsat
     toCounterpartyMsat := terms.openerMsat
     counterpartyCurrentPoint := some msg.firstPerCommitmentPoint },
   { temporaryChannelId := msg.temporaryChannelId
     dustLimitSatoshis := config.dustLimitSat
     maxHtlcValueInFlightMsat := terms.maxInFlight
     channelReserveSatoshis := terms.reserve
     htlcMinimumMsat := config.htlcMinimumMsat
     minimumDepth := config.minimumDepth
     toSelfDelay := config.toSelfDelay
     maxAcceptedHtlcs := config.maxAcceptedHtlcs
     basepoints := basepointsMsg signer.pubkeys
     firstPerCommitmentPoint := signer.perCommitmentPoint 0
     upfrontShutdownScript := none
     channelType := msg.channelType })

/-- `new_inbound`: the channel and the `accept_channel` to send. -/
def newInbound (signer : ChannelSigner) (config : ChannelConfig) (network : Network)
    (msg : Wire.OpenChannel) : ChannelResult (Channel × Wire.AcceptChannel) := do
  checkOpenChannel config network msg
  pure (inboundChannel C signer config msg
    (openingTerms config msg.fundingSatoshis msg.pushMsat))

/-- The checks of `on_accept_channel`. -/
def checkAcceptChannel (ch : Channel) (msg : Wire.AcceptChannel) : ChannelResult Unit := do
  Fault.require (ch.state = .openSent) (.close "accept_channel in wrong state")
  Fault.require (msg.temporaryChannelId = ch.temporaryChannelId)
    (.close "accept_channel for unknown channel")
  Fault.require (msg.dustLimitSatoshis ≤ ch.params.holderSelectedReserveSat)
    (.close "their dust limit above our selected reserve")
  Fault.require (ch.params.holderDustLimitSat ≤ msg.channelReserveSatoshis)
    (.close "their reserve below our dust limit")
  Fault.require (msg.toSelfDelay ≤ 2016) (.close "to_self_delay unreasonably large")
  Fault.require (msg.minimumDepth ≤ 144) (.close "minimum_depth unreasonably large")
  Fault.require (msg.maxAcceptedHtlcs ≤ maxHtlcsPerSide) (.close "max_accepted_htlcs above 483")

/-- `on_accept_channel` (opener). -/
def onAcceptChannel (msg : Wire.AcceptChannel) : ChannelAct Unit := do
  let ch ← get
  Act.lift (ch.checkAcceptChannel msg)
  let cp := pubkeysFromMsg msg.basepoints
  set { ch with
    obscureFactor := commitNumberObscureFactor C ch.holderPubkeys.paymentBasepoint
      cp.paymentBasepoint
    counterpartyPubkeys := some cp
    counterpartyCurrentPoint := some msg.firstPerCommitmentPoint
    params := { ch.params with
      counterpartyDustLimitSat := msg.dustLimitSatoshis
      counterpartySelectedReserveSat := msg.channelReserveSatoshis
      counterpartyMaxHtlcValueInFlightMsat := msg.maxHtlcValueInFlightMsat
      counterpartyHtlcMinimumMsat := msg.htlcMinimumMsat
      counterpartyMaxAcceptedHtlcs := msg.maxAcceptedHtlcs
      counterpartySelectedDelay := msg.toSelfDelay } }

/-- The P2WSH script the funding transaction must pay to. -/
def fundingScriptPubkey (ch : Channel) : ChannelResult Script := do
  let cp ← ch.counterparty
  return newP2wsh C (fundingRedeemscript ch.holderPubkeys.fundingPubkey cp.fundingPubkey)

/-- Sign the counterparty's commitment 0 and record it as its current one. -/
def signInitialCounterpartyCommitment : ChannelAct Signature := do
  let ch ← get
  let point ← Act.expect ch.counterpartyCurrentPoint
  let b ← Act.lift (ch.buildCounterpartyCommitmentAt C 0 point)
  let sig ← Act.lift (ch.signCounterpartyCommitmentTx C b.built)
  set { ch with
    currentCounterpartyCommitment := some (ch.counterpartyInfoFromBuilt 0 point b.built b.htlcs)
    signed := ch.signed ++ [SignedCommitment.mk 0 point b.built b.htlcs ch.commitmentSources] }
  return sig

/-- Check the peer's signature over our commitment 0 and store it. -/
def storeInitialHolderCommitment (sig : Signature) : ChannelAct Unit := do
  let ch ← get
  let b ← Act.lift (ch.buildHolderCommitmentAt C 0)
  Act.lift (ch.verifyCounterpartyFundingSig C b.built sig)
  set { ch with
    currentHolderCommitment := some (HolderCommitment.mk 0 b.built sig [] b.htlcs b.keys
      ch.feerateHolder) }

/-- `funding_created` (opener): bind the funding outpoint and sign commitment 0. -/
def fundingCreated (fundingTxid : Txid) (fundingOutputIndex : Nat) :
    ChannelAct Wire.FundingCreated := do
  let ch ← get
  Act.lift (Fault.require (ch.state = .openSent ∧ ch.role = .opener)
    (.invalidState "funding_created in wrong state"))
  Act.lift (Fault.require (ch.counterpartyPubkeys.isSome)
    (.invalidState "accept_channel not processed"))
  set { ch with
    fundingOutpoint := some (OutPoint.mk fundingTxid fundingOutputIndex)
    channelId := channelIdFromFunding fundingTxid fundingOutputIndex }
  let signature ← signInitialCounterpartyCommitment C
  modify ({ · with state := .fundingCreatedSent })
  return { temporaryChannelId := ch.temporaryChannelId, fundingTxid, fundingOutputIndex, signature }

/-- `on_funding_created` (accepter). -/
def onFundingCreated (msg : Wire.FundingCreated) : ChannelAct Wire.FundingSigned := do
  let ch ← get
  Act.lift (Fault.require (ch.state = .acceptSent) (.close "funding_created in wrong state"))
  let channelId := channelIdFromFunding msg.fundingTxid msg.fundingOutputIndex
  set { ch with
    fundingOutpoint := some (OutPoint.mk msg.fundingTxid msg.fundingOutputIndex)
    channelId }
  storeInitialHolderCommitment C msg.signature
  let signature ← signInitialCounterpartyCommitment C
  modify ({ · with state := .awaitingChannelReady })
  return { channelId, signature }

/-- `on_funding_signed` (opener). -/
def onFundingSigned (msg : Wire.FundingSigned) : ChannelAct Unit := do
  let ch ← get
  Act.lift (Fault.require (ch.state = .fundingCreatedSent)
    (.close "funding_signed in wrong state"))
  Act.lift (Fault.require (msg.channelId = ch.channelId)
    (.close "funding_signed wrong channel id"))
  storeInitialHolderCommitment C msg.signature
  modify ({ · with state := .awaitingChannelReady })

end

def maybeBecomeNormal (ch : Channel) : Channel :=
  if ch.state = .awaitingChannelReady ∧ ch.channelReadySent ∧ ch.channelReadyReceived then
    { ch with state := .normal }
  else ch

/-- `funding_confirmed`: the `channel_ready` to send, once. -/
def confirmFunding (shortChannelId : ShortChannelId) : ChannelAct (Option Wire.ChannelReady) := do
  let ch ← get
  Act.lift (Fault.require (ch.state = .awaitingChannelReady ∨ ch.state = .normal)
    (.invalidState "funding_confirmed in wrong state"))
  let ch := { ch with shortChannelId := some shortChannelId, fundingConfirmed := true }
  if ch.channelReadySent then
    set ch
    return none
  else
    set ({ ch with channelReadySent := true }).maybeBecomeNormal
    return some ⟨ch.channelId, ch.signer.perCommitmentPoint 1, none⟩

def onChannelReady (msg : Wire.ChannelReady) : ChannelAct Unit := do
  let ch ← get
  Act.lift (Fault.require (ch.state = .awaitingChannelReady ∨ ch.state = .normal)
    (.close "channel_ready in wrong state"))
  if ch.counterpartyCommitmentNumber > 0 ∨ ch.awaitingRaa then
    return
  else
    set ({ ch with
      counterpartyNextPoint := some msg.secondPerCommitmentPoint
      channelReadyReceived := true }).maybeBecomeNormal

/-! ## Accessors -/

def isUsable (ch : Channel) : Bool := ch.state = .normal

/-- Conservative spendable estimate: the reserve and, for the opener, the fee are kept back. -/
def availableToSendMsat (ch : Channel) : Msat :=
  let reserve := Msat.fromSat ch.params.counterpartySelectedReserveSat
  let avail := (ch.balancesFor false).1 - reserve
  if ch.role = .opener then
    avail - Msat.fromSat (FeeRatePerKw.feeForWeight ch.feerateCounterparty
      (commitmentTxBaseWeight + commitmentTxWeightPerHtlc * (ch.htlcs.length + 1)))
  else avail

end Channel
