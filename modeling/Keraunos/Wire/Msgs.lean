import Keraunos.Bitcoin.Tx

/-!
# Protocol types and messages (`types.rs`, `wire/features.rs`, `wire/msgs.rs`)

Amounts, ids and counters are natural numbers; where a machine word's width matters it is written
out at the operation. Message structures have the source's fields.
-/

/-- Millisatoshi. -/
abbrev Msat : Type := Nat

namespace Msat
def fromSat (sat : Nat) : Msat := sat * 1000
def toSatFloor (m : Msat) : Nat := m / 1000
end Msat

/-- Satoshi per 1000 weight units. -/
abbrev FeeRatePerKw : Type := Nat

def FeeRatePerKw.feeForWeight (rate : FeeRatePerKw) (weight : Nat) : Nat := rate * weight / 1000

abbrev ChannelId : Type := Bytes32
abbrev PaymentHash : Type := Bytes32
abbrev PaymentPreimage : Type := Bytes32
abbrev PaymentSecret : Type := Bytes32
abbrev HtlcId : Type := Nat
abbrev ShortChannelId : Type := Nat

/-- `PaymentPreimage::payment_hash`. -/
def paymentHash (C : Crypto) (preimage : PaymentPreimage) : PaymentHash := C.sha256 preimage.toList

inductive Network where
  | bitcoin
  | testnet
  | signet
  | regtest
  deriving DecidableEq, Repr

/-- Genesis hashes in internal byte order. -/
def Network.chainHash : Network → Bytes32
  | .bitcoin => Crypto.Transparent.ofNat 32 0x6fe28c0ab6f1b372c1a6a246ae63f74f931e8365e15a089c68d6190000000000
  | .testnet => Crypto.Transparent.ofNat 32 0x43497fd7f826957108f4a30fd9cec3aeba79972084e90ead01ea330900000000
  | .signet => Crypto.Transparent.ofNat 32 0xf61eee3b63a380a477a063af32b2bbc97c9ff9f01f2c4225e973988108000000
  | .regtest => Crypto.Transparent.ofNat 32 0x06226e46111a0b59caaf126043eb5bbf28c34f3a5e332a1fc7b2b73cf188910f

/-- A feature vector, big-endian as a whole. -/
abbrev Features : Type := List UInt8

namespace Features

/-- `set`: bit `bit`, counted from the last byte. -/
def setBit (f : Features) (bit : Nat) : Features :=
  let f := List.replicate (bit / 8 + 1 - f.length) 0 ++ f
  let i := f.length - 1 - bit / 8
  f.set i (f.getD i 0 ||| ((1 : UInt8) <<< UInt8.ofNat (bit % 8)))

/-- What this implementation speaks. -/
def keraunosDefault : Features := [1, 8, 12, 14, 27, 45].foldl setBit []

/-- The first even bit that is set and not known. Positions are `u16`s. -/
def unknownRequiredBits (f : Features) (knownEvenBits : List Nat) : Option Nat :=
  (List.range f.length).findSome? fun byteFromEnd =>
    let byte := f.getD (f.length - 1 - byteFromEnd) 0
    (List.range 8).findSome? fun bitInByte =>
      let bit := (byteFromEnd * 8 + bitInByte) % 2 ^ 16
      if bit % 2 = 0 ∧ byte &&& ((1 : UInt8) <<< UInt8.ofNat bitInByte) ≠ 0 ∧
          bit ∉ knownEvenBits then some bit
      else none

/-- The even bits this implementation understands. -/
def knownEvenBits : List Nat := [0, 4, 6, 8, 12, 14, 16, 22, 26, 44, 46, 48, 50]

/-- The bitwise or, aligned at the last byte. -/
def or (f g : Features) : Features :=
  let len := max f.length g.length
  List.zipWith (· ||| ·) (List.replicate (len - f.length) 0 ++ f)
    (List.replicate (len - g.length) 0 ++ g)

end Features

namespace Wire

structure Init where
  globalFeatures : Features
  features : Features
  networks : Option (List Bytes32)
  deriving DecidableEq, Repr

structure ErrorMsg where
  channelId : ChannelId
  data : List UInt8
  deriving DecidableEq, Repr

structure WarningMsg where
  channelId : ChannelId
  data : List UInt8
  deriving DecidableEq, Repr

structure Ping where
  numPongBytes : Nat
  ignored : List UInt8
  deriving DecidableEq, Repr

structure Pong where
  ignored : List UInt8
  deriving DecidableEq, Repr

structure ChannelBasepoints where
  fundingPubkey : PublicKey
  revocation : PublicKey
  payment : PublicKey
  delayedPayment : PublicKey
  htlc : PublicKey
  deriving DecidableEq, Repr

structure OpenChannel where
  chainHash : Bytes32
  temporaryChannelId : ChannelId
  fundingSatoshis : Nat
  pushMsat : Msat
  dustLimitSatoshis : Nat
  maxHtlcValueInFlightMsat : Msat
  channelReserveSatoshis : Nat
  htlcMinimumMsat : Msat
  feeratePerKw : Nat
  toSelfDelay : Nat
  maxAcceptedHtlcs : Nat
  basepoints : ChannelBasepoints
  firstPerCommitmentPoint : PublicKey
  channelFlags : Nat
  upfrontShutdownScript : Option (List UInt8)
  channelType : Option Features
  deriving DecidableEq, Repr

structure AcceptChannel where
  temporaryChannelId : ChannelId
  dustLimitSatoshis : Nat
  maxHtlcValueInFlightMsat : Msat
  channelReserveSatoshis : Nat
  htlcMinimumMsat : Msat
  minimumDepth : Nat
  toSelfDelay : Nat
  maxAcceptedHtlcs : Nat
  basepoints : ChannelBasepoints
  firstPerCommitmentPoint : PublicKey
  upfrontShutdownScript : Option (List UInt8)
  channelType : Option Features
  deriving DecidableEq, Repr

structure FundingCreated where
  temporaryChannelId : ChannelId
  fundingTxid : Bytes32
  fundingOutputIndex : Nat
  signature : Signature
  deriving DecidableEq, Repr

structure FundingSigned where
  channelId : ChannelId
  signature : Signature
  deriving DecidableEq, Repr

structure ChannelReady where
  channelId : ChannelId
  secondPerCommitmentPoint : PublicKey
  shortChannelIdAlias : Option ShortChannelId
  deriving DecidableEq, Repr

structure Shutdown where
  channelId : ChannelId
  scriptpubkey : List UInt8
  deriving DecidableEq, Repr

structure ClosingSignedFeeRange where
  minFeeSatoshis : Nat
  maxFeeSatoshis : Nat
  deriving DecidableEq, Repr

structure ClosingSigned where
  channelId : ChannelId
  feeSatoshis : Nat
  signature : Signature
  feeRange : Option ClosingSignedFeeRange
  deriving DecidableEq, Repr

structure UpdateAddHtlc where
  channelId : ChannelId
  id : Nat
  amountMsat : Msat
  paymentHash : PaymentHash
  cltvExpiry : Nat
  onionRoutingPacket : List UInt8
  deriving DecidableEq, Repr

structure UpdateFulfillHtlc where
  channelId : ChannelId
  id : Nat
  paymentPreimage : PaymentPreimage
  deriving DecidableEq, Repr

structure UpdateFailHtlc where
  channelId : ChannelId
  id : Nat
  reason : List UInt8
  deriving DecidableEq, Repr

structure UpdateFailMalformedHtlc where
  channelId : ChannelId
  id : Nat
  sha256OfOnion : Bytes32
  failureCode : Nat
  deriving DecidableEq, Repr

structure CommitmentSigned where
  channelId : ChannelId
  signature : Signature
  htlcSignatures : List Signature
  deriving DecidableEq, Repr

structure RevokeAndAck where
  channelId : ChannelId
  perCommitmentSecret : Bytes32
  nextPerCommitmentPoint : PublicKey
  deriving DecidableEq, Repr

structure UpdateFee where
  channelId : ChannelId
  feeratePerKw : Nat
  deriving DecidableEq, Repr

structure ChannelReestablish where
  channelId : ChannelId
  nextCommitmentNumber : Nat
  nextRevocationNumber : Nat
  yourLastPerCommitmentSecret : Bytes32
  myCurrentPerCommitmentPoint : PublicKey
  deriving DecidableEq, Repr

structure AnnouncementSignatures where
  channelId : ChannelId
  shortChannelId : ShortChannelId
  nodeSignature : Signature
  bitcoinSignature : Signature
  deriving DecidableEq, Repr

structure ChannelAnnouncement where
  nodeSignature1 : Signature
  nodeSignature2 : Signature
  bitcoinSignature1 : Signature
  bitcoinSignature2 : Signature
  features : Features
  chainHash : Bytes32
  shortChannelId : ShortChannelId
  nodeId1 : PublicKey
  nodeId2 : PublicKey
  bitcoinKey1 : PublicKey
  bitcoinKey2 : PublicKey
  deriving DecidableEq, Repr

inductive NetAddress where
  | v4 (addr : Vector UInt8 4) (port : Nat)
  | v6 (addr : Vector UInt8 16) (port : Nat)
  | torV3 (ed25519Pubkey : Bytes32) (checksum version port : Nat)
  | hostname (hostname : List UInt8) (port : Nat)
  deriving DecidableEq, Repr

structure NodeAnnouncement where
  signature : Signature
  features : Features
  timestamp : Nat
  nodeId : PublicKey
  rgbColor : Vector UInt8 3
  aliasBytes : Bytes32
  addresses : List NetAddress
  deriving DecidableEq, Repr

structure ChannelUpdate where
  signature : Signature
  chainHash : Bytes32
  shortChannelId : ShortChannelId
  timestamp : Nat
  messageFlags : Nat
  channelFlags : Nat
  cltvExpiryDelta : Nat
  htlcMinimumMsat : Msat
  feeBaseMsat : Nat
  feeProportionalMillionths : Nat
  htlcMaximumMsat : Msat
  deriving DecidableEq, Repr

structure GossipTimestampFilter where
  chainHash : Bytes32
  firstTimestamp : Nat
  timestampRange : Nat
  deriving DecidableEq, Repr

inductive Message where
  | warning (m : WarningMsg)
  | init (m : Init)
  | error (m : ErrorMsg)
  | ping (m : Ping)
  | pong (m : Pong)
  | openChannel (m : OpenChannel)
  | acceptChannel (m : AcceptChannel)
  | fundingCreated (m : FundingCreated)
  | fundingSigned (m : FundingSigned)
  | channelReady (m : ChannelReady)
  | shutdown (m : Shutdown)
  | closingSigned (m : ClosingSigned)
  | updateAddHtlc (m : UpdateAddHtlc)
  | updateFulfillHtlc (m : UpdateFulfillHtlc)
  | updateFailHtlc (m : UpdateFailHtlc)
  | updateFailMalformedHtlc (m : UpdateFailMalformedHtlc)
  | commitmentSigned (m : CommitmentSigned)
  | revokeAndAck (m : RevokeAndAck)
  | updateFee (m : UpdateFee)
  | channelReestablish (m : ChannelReestablish)
  | announcementSignatures (m : AnnouncementSignatures)
  | channelAnnouncement (m : ChannelAnnouncement)
  | nodeAnnouncement (m : NodeAnnouncement)
  | channelUpdate (m : ChannelUpdate)
  | gossipTimestampFilter (m : GossipTimestampFilter)
  | unknown (t : Nat) (data : List UInt8)
  deriving DecidableEq, Repr

end Wire
