import Keraunos.Commitment.Build
import Keraunos.Lib.Act

/-!
# Channels: state and opening (`channel/mod.rs`)

The record of a channel, its opening handshake and the construction of both sides' commitments.
Methods with a `&mut self` receiver are actions on `Channel`; the others are functions of it. The
signer is part of the state, the primitives are a parameter.

`Channel.signed` is a history variable: the counterparty commitments signed by `funding_created`,
`on_funding_created` and `send_commitment_signed`, in order. No function reads it.
-/

open Bitcoin Commitment

def maxHtlcsPerSide : Nat := 483

inductive ChannelError where
  /-- Peer violated the protocol. -/
  | close (msg : String)
  /-- Request can't be satisfied right now. -/
  | ignore (msg : String)
  /-- API misuse by the embedder. -/
  | invalidState (msg : String)
  deriving DecidableEq, Repr

/-- Local policy for new channels. -/
structure ChannelConfig where
  announce : Bool := true
  dustLimitSat : Nat := 546
  reservePpm : Nat := 10000
  htlcMinimumMsat : Msat := 1
  toSelfDelay : Nat := 144
  maxAcceptedHtlcs : Nat := 50
  maxHtlcValueInFlightPpm : Nat := 1000000
  minimumDepth : Nat := 3
  deriving DecidableEq, Repr

/-- Negotiated parameters, named by who chose the value. -/
structure ChannelParams where
  holderDustLimitSat : Nat
  counterpartyDustLimitSat : Nat
  holderSelectedReserveSat : Nat
  counterpartySelectedReserveSat : Nat
  counterpartyMaxHtlcValueInFlightMsat : Msat
  holderMaxHtlcValueInFlightMsat : Msat
  counterpartyHtlcMinimumMsat : Msat
  holderHtlcMinimumMsat : Msat
  counterpartyMaxAcceptedHtlcs : Nat
  holderMaxAcceptedHtlcs : Nat
  holderSelectedDelay : Nat
  counterpartySelectedDelay : Nat
  deriving DecidableEq, Repr

inductive ChannelRole where
  | opener
  | accepter
  deriving DecidableEq, Repr

inductive ChannelState where
  | openSent
  | acceptSent
  | fundingCreatedSent
  | awaitingChannelReady
  | normal
  | shuttingDown
  | negotiatingClose
  | closed
  deriving DecidableEq, Repr

/-- Where an outbound HTLC came from. The `tag` is a history variable: it tells the HTLCs offered
by a node apart. -/
inductive HtlcSource where
  | outbound (paymentId : Bytes32) (tag : Nat := 0)
  | forwarded (inboundChannel : ChannelId) (inboundHtlc : HtlcId) (tag : Nat := 0)
  deriving DecidableEq, Repr

/-- Lifecycle of an HTLC on one side's commitment transaction. -/
inductive HtlcPhase where
  | notYet
  | pending
  | committed
  | removing
  | gone
  deriving DecidableEq, Repr

namespace HtlcPhase

def included : HtlcPhase → Bool
  | .pending | .committed => true
  | _ => false

def credited : HtlcPhase → Bool
  | .removing | .gone => true
  | _ => false

end HtlcPhase

/-- How an HTLC was resolved. -/
inductive HtlcResolution where
  | fulfill (preimage : PaymentPreimage)
  | fail (reason : List UInt8)
  | failMalformed (sha256OfOnion : Bytes32) (failureCode : Nat)
  deriving DecidableEq, Repr

def HtlcResolution.isFulfill : HtlcResolution → Bool
  | .fulfill _ => true
  | _ => false

structure Htlc where
  outbound : Bool
  id : HtlcId
  amountMsat : Msat
  paymentHash : PaymentHash
  cltvExpiry : Nat
  onion : List UInt8
  source : Option HtlcSource
  resolution : Option HtlcResolution
  phaseHolder : HtlcPhase
  phaseCounterparty : HtlcPhase
  processed : Bool
  deriving DecidableEq, Repr

namespace Htlc

/-- Phase on one side's commitment. -/
def phase (h : Htlc) (holderSide : Bool) : HtlcPhase :=
  if holderSide then h.phaseHolder else h.phaseCounterparty

/-- Gone from both commitments. -/
def isGone (h : Htlc) : Bool := h.phaseHolder = .gone && h.phaseCounterparty = .gone

/-- `apply_balance` on `(to_holder, to_counterparty)`; subtraction saturates. -/
def applyBalance (h : Htlc) (phase : HtlcPhase) (bal : Msat × Msat) : Msat × Msat :=
  if phase.included then
    if h.outbound then (bal.1 - h.amountMsat, bal.2) else (bal.1, bal.2 - h.amountMsat)
  else if phase.credited then
    match h.resolution with
    | some (.fulfill _) =>
      if h.outbound then (bal.1 - h.amountMsat, bal.2 + h.amountMsat)
      else (bal.1 + h.amountMsat, bal.2 - h.amountMsat)
    | _ => bal
  else bal

/-- `htlc_in_commitment`. -/
def inCommitment (h : Htlc) (holderView : Bool) : HtlcOutputInCommitment :=
  ⟨if holderView then h.outbound else !h.outbound, h.amountMsat, h.cltvExpiry, h.paymentHash⟩

end Htlc

/-- What the chain monitor needs about one counterparty commitment. -/
structure CounterpartyCommitmentInfo where
  number : Nat
  txid : Txid
  perCommitmentPoint : PublicKey
  htlcs : List (HtlcOutputInCommitment × Option Nat)
  toHolderMsat : Msat
  toCounterpartyMsat : Msat
  feerate : FeeRatePerKw
  deriving DecidableEq

/-- Our current local commitment with everything needed to broadcast it. -/
structure HolderCommitment where
  number : Nat
  built : BuiltCommitmentTx
  counterpartySig : Signature
  counterpartyHtlcSigs : List Signature
  htlcs : List HtlcOutputInCommitment
  keys : TxCreationKeys
  feerate : FeeRatePerKw
  deriving DecidableEq

inductive HoldingCellOp where
  | add (amountMsat : Msat) (paymentHash : PaymentHash) (cltvExpiry : Nat) (onion : List UInt8)
      (source : HtlcSource)
  | fulfill (id : HtlcId) (preimage : PaymentPreimage)
  | fail (id : HtlcId) (reason : List UInt8)
  | failMalformed (id : HtlcId) (sha256OfOnion : Bytes32) (failureCode : Nat)
  deriving DecidableEq, Repr

/-- Snapshot of an in-flight `commitment_signed`. -/
structure PendingCounterpartyCommitment where
  info : CounterpartyCommitmentInfo
  included : List (Bool × HtlcId)
  removed : List (Bool × HtlcId)
  feeUpdate : Option FeeRatePerKw
  deriving DecidableEq

/-- A counterparty commitment this channel signed, with the sources of our HTLCs in it. -/
structure SignedCommitment where
  number : Nat
  point : PublicKey
  built : BuiltCommitmentTx
  htlcs : List HtlcOutputInCommitment
  sources : List HtlcSource
  deriving DecidableEq

structure Channel where
  signer : ChannelSigner
  role : ChannelRole
  state : ChannelState
  config : ChannelConfig
  params : ChannelParams
  temporaryChannelId : ChannelId
  channelId : ChannelId
  fundingOutpoint : Option OutPoint
  fundingAmountSat : Nat
  pushMsat : Msat
  holderPubkeys : ChannelPublicKeys
  counterpartyPubkeys : Option ChannelPublicKeys
  obscureFactor : Nat
  feerateHolder : FeeRatePerKw
  feerateCounterparty : FeeRatePerKw
  pendingFeeAck : Option FeeRatePerKw := none
  announce : Bool
  /-- Base balances: settled HTLCs baked in, live ones not deducted. -/
  toHolderMsat : Msat
  toCounterpartyMsat : Msat
  counterpartyDirty : Bool := false
  htlcs : List Htlc := []
  nextHolderHtlcId : Nat := 0
  nextCounterpartyHtlcId : Nat := 0
  holderCommitmentNumber : Nat := 0
  counterpartyCommitmentNumber : Nat := 0
  counterpartyCurrentPoint : Option PublicKey
  counterpartyNextPoint : Option PublicKey := none
  counterpartySecrets : Shachain.SecretStore := .new
  currentHolderCommitment : Option HolderCommitment := none
  currentCounterpartyCommitment : Option CounterpartyCommitmentInfo := none
  pendingCounterpartyCommitment : Option PendingCounterpartyCommitment := none
  awaitingRaa : Bool := false
  holdingCell : List HoldingCellOp := []
  shortChannelId : Option ShortChannelId := none
  fundingConfirmed : Bool := false
  channelReadySent : Bool := false
  channelReadyReceived : Bool := false
  holderShutdownScript : Option Script := none
  counterpartyShutdownScript : Option Script := none
  shutdownSent : Bool := false
  shutdownReceived : Bool := false
  lastClosingFeeProposal : Option Nat := none
  closingTx : Option Transaction := none
  /-- History: the counterparty commitments signed so far. -/
  signed : List SignedCommitment := []

/-- An action on a channel. -/
abbrev ChannelAct (α : Type) : Type := Act ChannelError Channel α

/-- A function of a channel that can fail. -/
abbrev ChannelResult (α : Type) : Type := Except (Fault ChannelError) α

/-- BOLT 2: funding txid XOR output index, applied to the last two bytes. -/
def channelIdFromFunding (txid : Txid) (outputIndex : Nat) : ChannelId :=
  (txid.set 30 (txid.get 30 ^^^ UInt8.ofNat (outputIndex >>> 8))).set 31
    (txid.get 31 ^^^ UInt8.ofNat (outputIndex &&& 0xff))

def reserveFor (config : ChannelConfig) (fundingSat : Nat) : Nat :=
  max (fundingSat * config.reservePpm / 1000000) config.dustLimitSat

/-- Bit 12, `option_static_remotekey`. -/
def staticRemotekeyChannelType : Features := Features.setBit [] 12

def basepointsMsg (pk : ChannelPublicKeys) : Wire.ChannelBasepoints :=
  ⟨pk.fundingPubkey, pk.revocationBasepoint, pk.paymentBasepoint, pk.delayedPaymentBasepoint,
    pk.htlcBasepoint⟩

def pubkeysFromMsg (bp : Wire.ChannelBasepoints) : ChannelPublicKeys :=
  ⟨bp.fundingPubkey, bp.revocation, bp.payment, bp.delayedPayment, bp.htlc⟩
