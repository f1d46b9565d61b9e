import Keraunos.Wire.Tlv
import Keraunos.Wire.Msgs

/-!
# Message encoding (`wire/msgs.rs`)

Each message's writer and reader, field by field in the source's order. The readers of keys and
signatures are parameters.
-/

namespace Wire

open Bytes Parse

/-! ## Message types -/

namespace MsgType
def warning : Nat := 1
def init : Nat := 16
def error : Nat := 17
def ping : Nat := 18
def pong : Nat := 19
def openChannel : Nat := 32
def acceptChannel : Nat := 33
def fundingCreated : Nat := 34
def fundingSigned : Nat := 35
def channelReady : Nat := 36
def shutdown : Nat := 38
def closingSigned : Nat := 39
def updateAddHtlc : Nat := 128
def updateFulfillHtlc : Nat := 130
def updateFailHtlc : Nat := 131
def commitmentSigned : Nat := 132
def revokeAndAck : Nat := 133
def updateFee : Nat := 134
def updateFailMalformedHtlc : Nat := 135
def channelReestablish : Nat := 136
def channelAnnouncement : Nat := 256
def nodeAnnouncement : Nat := 257
def channelUpdate : Nat := 258
def announcementSignatures : Nat := 259
def gossipTimestampFilter : Nat := 265
end MsgType

def onionPacketLen : Nat := 1366

/-! ## Writers -/

def Init.write (m : Init) : List UInt8 :=
  Writer.bytesU16 m.globalFeatures ++ Writer.bytesU16 m.features ++
    Tlv.writeOption 1 (m.networks.map fun nets => nets.flatMap Vector.toList)

def ChannelBasepoints.write (b : ChannelBasepoints) : List UInt8 :=
  Writer.pubkey b.fundingPubkey ++ Writer.pubkey b.revocation ++ Writer.pubkey b.payment ++
    Writer.pubkey b.delayedPayment ++ Writer.pubkey b.htlc

def OpenChannel.write (m : OpenChannel) : List UInt8 :=
  m.chainHash.toList ++ m.temporaryChannelId.toList ++ Writer.u64 m.fundingSatoshis ++
    Writer.u64 m.pushMsat ++ Writer.u64 m.dustLimitSatoshis ++
    Writer.u64 m.maxHtlcValueInFlightMsat ++ Writer.u64 m.channelReserveSatoshis ++
    Writer.u64 m.htlcMinimumMsat ++ Writer.u32 m.feeratePerKw ++ Writer.u16 m.toSelfDelay ++
    Writer.u16 m.maxAcceptedHtlcs ++ m.basepoints.write ++
    Writer.pubkey m.firstPerCommitmentPoint ++ Writer.u8 m.channelFlags ++
    (Tlv.writeOption 0 m.upfrontShutdownScript ++ Tlv.writeOption 1 m.channelType)

def AcceptChannel.write (m : AcceptChannel) : List UInt8 :=
  m.temporaryChannelId.toList ++ Writer.u64 m.dustLimitSatoshis ++
    Writer.u64 m.maxHtlcValueInFlightMsat ++ Writer.u64 m.channelReserveSatoshis ++
    Writer.u64 m.htlcMinimumMsat ++ Writer.u32 m.minimumDepth ++ Writer.u16 m.toSelfDelay ++
    Writer.u16 m.maxAcceptedHtlcs ++ m.basepoints.write ++
    Writer.pubkey m.firstPerCommitmentPoint ++
    (Tlv.writeOption 0 m.upfrontShutdownScript ++ Tlv.writeOption 1 m.channelType)

def WarningMsg.write (m : WarningMsg) : List UInt8 :=
  m.channelId.toList ++ Writer.bytesU16 m.data

def ErrorMsg.write (m : ErrorMsg) : List UInt8 :=
  m.channelId.toList ++ Writer.bytesU16 m.data

def Ping.write (m : Ping) : List UInt8 :=
  Writer.u16 m.numPongBytes ++ Writer.bytesU16 m.ignored

def Pong.write (m : Pong) : List UInt8 :=
  Writer.bytesU16 m.ignored

def FundingCreated.write (m : FundingCreated) : List UInt8 :=
  m.temporaryChannelId.toList ++ m.fundingTxid.toList ++ Writer.u16 m.fundingOutputIndex ++
    Writer.signature m.signature

def FundingSigned.write (m : FundingSigned) : List UInt8 :=
  m.channelId.toList ++ Writer.signature m.signature

def ChannelReady.write (m : ChannelReady) : List UInt8 :=
  m.channelId.toList ++ Writer.pubkey m.secondPerCommitmentPoint ++
    Tlv.writeOption 1 (m.shortChannelIdAlias.map Writer.u64)

def Shutdown.write (m : Shutdown) : List UInt8 :=
  m.channelId.toList ++ Writer.bytesU16 m.scriptpubkey

def ClosingSigned.write (m : ClosingSigned) : List UInt8 :=
  m.channelId.toList ++ Writer.u64 m.feeSatoshis ++ Writer.signature m.signature ++
    Tlv.writeOption 1 (m.feeRange.map fun range =>
      Writer.u64 range.minFeeSatoshis ++ Writer.u64 range.maxFeeSatoshis)

def UpdateAddHtlc.write (m : UpdateAddHtlc) : List UInt8 :=
  m.channelId.toList ++ Writer.u64 m.id ++ Writer.u64 m.amountMsat ++ m.paymentHash.toList ++
    Writer.u32 m.cltvExpiry ++ m.onionRoutingPacket

def UpdateFulfillHtlc.write (m : UpdateFulfillHtlc) : List UInt8 :=
  m.channelId.toList ++ Writer.u64 m.id ++ m.paymentPreimage.toList

def UpdateFailHtlc.write (m : UpdateFailHtlc) : List UInt8 :=
  m.channelId.toList ++ Writer.u64 m.id ++ Writer.bytesU16 m.reason

def UpdateFailMalformedHtlc.write (m : UpdateFailMalformedHtlc) : List UInt8 :=
  m.channelId.toList ++ Writer.u64 m.id ++ m.sha256OfOnion.toList ++ Writer.u16 m.failureCode

def CommitmentSigned.write (m : CommitmentSigned) : List UInt8 :=
  m.channelId.toList ++ Writer.signature m.signature ++ Writer.u16 m.htlcSignatures.length ++
    m.htlcSignatures.flatMap Writer.signature

def RevokeAndAck.write (m : RevokeAndAck) : List UInt8 :=
  m.channelId.toList ++ m.perCommitmentSecret.toList ++ Writer.pubkey m.nextPerCommitmentPoint

def UpdateFee.write (m : UpdateFee) : List UInt8 :=
  m.channelId.toList ++ Writer.u32 m.feeratePerKw

def ChannelReestablish.write (m : ChannelReestablish) : List UInt8 :=
  m.channelId.toList ++ Writer.u64 m.nextCommitmentNumber ++ Writer.u64 m.nextRevocationNumber ++
    m.yourLastPerCommitmentSecret.toList ++ Writer.pubkey m.myCurrentPerCommitmentPoint

def AnnouncementSignatures.write (m : AnnouncementSignatures) : List UInt8 :=
  m.channelId.toList ++ Writer.u64 m.shortChannelId ++ Writer.signature m.nodeSignature ++
    Writer.signature m.bitcoinSignature

def GossipTimestampFilter.write (m : GossipTimestampFilter) : List UInt8 :=
  m.chainHash.toList ++ Writer.u32 m.firstTimestamp ++ Writer.u32 m.timestampRange

/-- The bytes covered by all four signatures (everything after them). -/
def ChannelAnnouncement.signedPayload (m : ChannelAnnouncement) : List UInt8 :=
  Writer.bytesU16 m.features ++ m.chainHash.toList ++ Writer.u64 m.shortChannelId ++
    Writer.pubkey m.nodeId1 ++ Writer.pubkey m.nodeId2 ++ Writer.pubkey m.bitcoinKey1 ++
    Writer.pubkey m.bitcoinKey2

def NetAddress.write : NetAddress → List UInt8
  | .v4 addr port => Writer.u8 1 ++ addr.toList ++ Writer.u16 port
  | .v6 addr port => Writer.u8 2 ++ addr.toList ++ Writer.u16 port
  | .torV3 ed25519Pubkey checksum version port =>
    Writer.u8 4 ++ ed25519Pubkey.toList ++ Writer.u16 checksum ++ Writer.u8 version ++
      Writer.u16 port
  | .hostname name port => Writer.u8 5 ++ Writer.u8 name.length ++ name ++ Writer.u16 port

def NodeAnnouncement.writeAfterSig (m : NodeAnnouncement) : List UInt8 :=
  Writer.bytesU16 m.features ++ Writer.u32 m.timestamp ++ Writer.pubkey m.nodeId ++
    m.rgbColor.toList ++ m.aliasBytes.toList ++
    Writer.bytesU16 (m.addresses.flatMap NetAddress.write)

def NodeAnnouncement.signedPayload (m : NodeAnnouncement) : List UInt8 := m.writeAfterSig

def ChannelUpdate.writeAfterSig (m : ChannelUpdate) : List UInt8 :=
  m.chainHash.toList ++ Writer.u64 m.shortChannelId ++ Writer.u32 m.timestamp ++
    Writer.u8 m.messageFlags ++ Writer.u8 m.channelFlags ++ Writer.u16 m.cltvExpiryDelta ++
    Writer.u64 m.htlcMinimumMsat ++ Writer.u32 m.feeBaseMsat ++
    Writer.u32 m.feeProportionalMillionths ++ Writer.u64 m.htlcMaximumMsat

def ChannelUpdate.signedPayload (m : ChannelUpdate) : List UInt8 := m.writeAfterSig

def ChannelAnnouncement.write (m : ChannelAnnouncement) : List UInt8 :=
  Writer.signature m.nodeSignature1 ++ Writer.signature m.nodeSignature2 ++
    Writer.signature m.bitcoinSignature1 ++ Writer.signature m.bitcoinSignature2 ++ m.signedPayload

def NodeAnnouncement.write (m : NodeAnnouncement) : List UInt8 :=
  Writer.signature m.signature ++ m.writeAfterSig

def ChannelUpdate.write (m : ChannelUpdate) : List UInt8 :=
  Writer.signature m.signature ++ m.writeAfterSig

/-! ## Readers -/

section
variable (K : KeyParsers)

/-- Consecutive 32-byte chunks (`chunks_exact(32)`). -/
def chunks32 : Nat → List UInt8 → List Bytes32
  | 0, _ => []
  | fuel + 1, data =>
    if h : data.length < 32 then []
    else ⟨(data.take 32).toArray, Bytes32.size_take h⟩ :: chunks32 fuel (data.drop 32)

/-- The TLVs of `init`: the last record of type 1 wins. -/
def Init.networksOf (records : List TlvRecord) : Except WireError (Option (List Bytes32)) :=
  records.foldlM (fun networks r =>
    if r.typ = 1 then
      if r.value.length % 32 ≠ 0 then .error (.badFormat "init networks length")
      else .ok (some (chunks32 r.value.length r.value))
    else .ok networks) none

def Init.read : Reader Init := do
  let globalFeatures ← Reader.bytesU16
  let features ← Reader.bytesU16
  let records ← lift (Tlv.parseStream (← Reader.rest))
  lift (Tlv.checkUnknownEven records [])
  let networks ← lift (networksOf records)
  return { globalFeatures, features, networks }

def ChannelBasepoints.read : Reader ChannelBasepoints := do
  return {
    fundingPubkey := ← Reader.pubkey K
    revocation := ← Reader.pubkey K
    payment := ← Reader.pubkey K
    delayedPayment := ← Reader.pubkey K
    htlc := ← Reader.pubkey K }

/-- `open_accept_tlvs`. -/
def openAcceptTlvs (records : List TlvRecord) : Option (List UInt8) × Option Features :=
  records.foldl (fun (shutdown, ctype) r =>
    if r.typ = 0 then (some r.value, ctype)
    else if r.typ = 1 then (shutdown, some r.value)
    else (shutdown, ctype)) (none, none)

def OpenChannel.read : Reader OpenChannel := do
  let chainHash ← Reader.array 32
  let temporaryChannelId ← Reader.array 32
  let fundingSatoshis ← Reader.u64
  let pushMsat ← Reader.u64
  let dustLimitSatoshis ← Reader.u64
  let maxHtlcValueInFlightMsat ← Reader.u64
  let channelReserveSatoshis ← Reader.u64
  let htlcMinimumMsat ← Reader.u64
  let feeratePerKw ← Reader.u32
  let toSelfDelay ← Reader.u16
  let maxAcceptedHtlcs ← Reader.u16
  let basepoints ← ChannelBasepoints.read K
  let firstPerCommitmentPoint ← Reader.pubkey K
  let channelFlags ← Reader.u8
  let records ← lift (Tlv.parseStream (← Reader.rest))
  lift (Tlv.checkUnknownEven records [0])
  return {
    chainHash, temporaryChannelId, fundingSatoshis, pushMsat, dustLimitSatoshis,
    maxHtlcValueInFlightMsat, channelReserveSatoshis, htlcMinimumMsat, feeratePerKw, toSelfDelay,
    maxAcceptedHtlcs, basepoints, firstPerCommitmentPoint, channelFlags
    upfrontShutdownScript := (openAcceptTlvs records).1
    channelType := (openAcceptTlvs records).2 }

def AcceptChannel.read : Reader AcceptChannel := do
  let temporaryChannelId ← Reader.array 32
  let dustLimitSatoshis ← Reader.u64
  let maxHtlcValueInFlightMsat ← Reader.u64
  let channelReserveSatoshis ← Reader.u64
  let htlcMinimumMsat ← Reader.u64
  let minimumDepth ← Reader.u32
  let toSelfDelay ← Reader.u16
  let maxAcceptedHtlcs ← Reader.u16
  let basepoints ← ChannelBasepoints.read K
  let firstPerCommitmentPoint ← Reader.pubkey K
  let records ← lift (Tlv.parseStream (← Reader.rest))
  lift (Tlv.checkUnknownEven records [0])
  return {
    temporaryChannelId, dustLimitSatoshis, maxHtlcValueInFlightMsat, channelReserveSatoshis,
    htlcMinimumMsat, minimumDepth, toSelfDelay, maxAcceptedHtlcs, basepoints,
    firstPerCommitmentPoint
    upfrontShutdownScript := (openAcceptTlvs records).1
    channelType := (openAcceptTlvs records).2 }

/-- The alias TLV of `channel_ready`: a record of type 1 and 8 bytes. -/
def ChannelReady.aliasOf (records : List TlvRecord) : Option ShortChannelId :=
  records.foldl (fun found r =>
    if r.typ = 1 ∧ r.value.length = 8 then some (beVal r.value) else found) none

/-- The fee range TLV of `closing_signed`: a record of type 1 and 16 bytes. -/
def ClosingSigned.feeRangeOf (records : List TlvRecord) : Option ClosingSignedFeeRange :=
  records.foldl (fun range r =>
    if r.typ = 1 ∧ r.value.length = 16 then
      some ⟨beVal (r.value.take 8), beVal (r.value.drop 8)⟩
    else range) none

/-- One pass of the loop of `read_addresses`. -/
def NodeAnnouncement.readAddress (out : List NetAddress) : Reader (ForInStep (List NetAddress)) := do
  let typ ← Reader.u8
  if typ = 1 then
    let addr ← Reader.array 4
    let port ← Reader.u16
    return .yield (out ++ [.v4 addr port])
  else if typ = 2 then
    let addr ← Reader.array 16
    let port ← Reader.u16
    return .yield (out ++ [.v6 addr port])
  else if typ = 3 then
    -- Deprecated Tor v2: its 12 body bytes are skipped.
    let _ ← Reader.take 12
    return .yield out
  else if typ = 4 then
    let ed25519Pubkey ← Reader.array 32
    let checksum ← Reader.u16
    let version ← Reader.u8
    let port ← Reader.u16
    return .yield (out ++ [.torV3 ed25519Pubkey checksum version port])
  else if typ = 5 then
    let len ← Reader.u8
    let hostname ← Reader.take len
    let port ← Reader.u16
    return .yield (out ++ [.hostname hostname port])
  else
    -- Parsing stops at the first unknown descriptor.
    return .done out

def NodeAnnouncement.readAddresses (bytes : List UInt8) : Except WireError (List NetAddress) := do
  let (out, _) ← (whileMore readAddress []).run bytes
  return out

def WarningMsg.read : Reader WarningMsg := do
  let channelId ← Reader.array 32
  let data ← Reader.bytesU16
  return { channelId, data }

def ErrorMsg.read : Reader ErrorMsg := do
  let channelId ← Reader.array 32
  let data ← Reader.bytesU16
  return { channelId, data }

def Ping.read : Reader Ping := do
  let numPongBytes ← Reader.u16
  let ignored ← Reader.bytesU16
  return { numPongBytes, ignored }

def Pong.read : Reader Pong := do
  let ignored ← Reader.bytesU16
  return { ignored }

def FundingCreated.read : Reader FundingCreated := do
  let temporaryChannelId ← Reader.array 32
  let fundingTxid ← Reader.array 32
  let fundingOutputIndex ← Reader.u16
  let signature ← Reader.signature K
  return { temporaryChannelId, fundingTxid, fundingOutputIndex, signature }

def FundingSigned.read : Reader FundingSigned := do
  let channelId ← Reader.array 32
  let signature ← Reader.signature K
  return { channelId, signature }

def ChannelReady.read : Reader ChannelReady := do
  let channelId ← Reader.array 32
  let secondPerCommitmentPoint ← Reader.pubkey K
  let records ← lift (Tlv.parseStream (← Reader.rest))
  lift (Tlv.checkUnknownEven records [])
  return { channelId, secondPerCommitmentPoint, shortChannelIdAlias := aliasOf records }

def Shutdown.read : Reader Shutdown := do
  let channelId ← Reader.array 32
  let scriptpubkey ← Reader.bytesU16
  return { channelId, scriptpubkey }

def ClosingSigned.read : Reader ClosingSigned := do
  let channelId ← Reader.array 32
  let feeSatoshis ← Reader.u64
  let signature ← Reader.signature K
  let records ← lift (Tlv.parseStream (← Reader.rest))
  lift (Tlv.checkUnknownEven records [])
  return { channelId, feeSatoshis, signature, feeRange := feeRangeOf records }

def UpdateAddHtlc.read : Reader UpdateAddHtlc := do
  let channelId ← Reader.array 32
  let id ← Reader.u64
  let amountMsat ← Reader.u64
  let paymentHash ← Reader.array 32
  let cltvExpiry ← Reader.u32
  let onionRoutingPacket ← Reader.take onionPacketLen
  return { channelId, id, amountMsat, paymentHash, cltvExpiry, onionRoutingPacket }

def UpdateFulfillHtlc.read : Reader UpdateFulfillHtlc := do
  let channelId ← Reader.array 32
  let id ← Reader.u64
  let paymentPreimage ← Reader.array 32
  return { channelId, id, paymentPreimage }

def UpdateFailHtlc.read : Reader UpdateFailHtlc := do
  let channelId ← Reader.array 32
  let id ← Reader.u64
  let reason ← Reader.bytesU16
  return { channelId, id, reason }

def UpdateFailMalformedHtlc.read : Reader UpdateFailMalformedHtlc := do
  let channelId ← Reader.array 32
  let id ← Reader.u64
  let sha256OfOnion ← Reader.array 32
  let failureCode ← Reader.u16
  return { channelId, id, sha256OfOnion, failureCode }

def CommitmentSigned.read : Reader CommitmentSigned := do
  let channelId ← Reader.array 32
  let signature ← Reader.signature K
  let count ← Reader.u16
  let htlcSignatures ← times (Reader.signature K) count
  return { channelId, signature, htlcSignatures }

def RevokeAndAck.read : Reader RevokeAndAck := do
  let channelId ← Reader.array 32
  let perCommitmentSecret ← Reader.array 32
  let nextPerCommitmentPoint ← Reader.pubkey K
  return { channelId, perCommitmentSecret, nextPerCommitmentPoint }

def UpdateFee.read : Reader UpdateFee := do
  let channelId ← Reader.array 32
  let feeratePerKw ← Reader.u32
  return { channelId, feeratePerKw }

def ChannelReestablish.read : Reader ChannelReestablish := do
  let channelId ← Reader.array 32
  let nextCommitmentNumber ← Reader.u64
  let nextRevocationNumber ← Reader.u64
  let yourLastPerCommitmentSecret ← Reader.array 32
  let myCurrentPerCommitmentPoint ← Reader.pubkey K
  return { channelId, nextCommitmentNumber, nextRevocationNumber, yourLastPerCommitmentSecret, myCurrentPerCommitmentPoint }

def AnnouncementSignatures.read : Reader AnnouncementSignatures := do
  let channelId ← Reader.array 32
  let shortChannelId ← Reader.u64
  let nodeSignature ← Reader.signature K
  let bitcoinSignature ← Reader.signature K
  return { channelId, shortChannelId, nodeSignature, bitcoinSignature }

def GossipTimestampFilter.read : Reader GossipTimestampFilter := do
  let chainHash ← Reader.array 32
  let firstTimestamp ← Reader.u32
  let timestampRange ← Reader.u32
  return { chainHash, firstTimestamp, timestampRange }

def ChannelAnnouncement.read : Reader ChannelAnnouncement := do
  let nodeSignature1 ← Reader.signature K
  let nodeSignature2 ← Reader.signature K
  let bitcoinSignature1 ← Reader.signature K
  let bitcoinSignature2 ← Reader.signature K
  let features ← Reader.bytesU16
  let chainHash ← Reader.array 32
  let shortChannelId ← Reader.u64
  let nodeId1 ← Reader.pubkey K
  let nodeId2 ← Reader.pubkey K
  let bitcoinKey1 ← Reader.pubkey K
  let bitcoinKey2 ← Reader.pubkey K
  return {
    nodeSignature1, nodeSignature2, bitcoinSignature1, bitcoinSignature2, features, chainHash,
    shortChannelId, nodeId1, nodeId2, bitcoinKey1, bitcoinKey2 }

def NodeAnnouncement.read : Reader NodeAnnouncement := do
  let signature ← Reader.signature K
  let features ← Reader.bytesU16
  let timestamp ← Reader.u32
  let nodeId ← Reader.pubkey K
  let rgbColor ← Reader.array 3
  let aliasBytes ← Reader.array 32
  let addrBytes ← Reader.bytesU16
  let addresses ← lift (readAddresses addrBytes)
  return { signature, features, timestamp, nodeId, rgbColor, aliasBytes, addresses }

def ChannelUpdate.read : Reader ChannelUpdate := do
  let signature ← Reader.signature K
  let chainHash ← Reader.array 32
  let shortChannelId ← Reader.u64
  let timestamp ← Reader.u32
  let messageFlags ← Reader.u8
  let channelFlags ← Reader.u8
  let cltvExpiryDelta ← Reader.u16
  let htlcMinimumMsat ← Reader.u64
  let feeBaseMsat ← Reader.u32
  let feeProportionalMillionths ← Reader.u32
  let htlcMaximumMsat ← Reader.u64
  return {
    signature, chainHash, shortChannelId, timestamp, messageFlags, channelFlags, cltvExpiryDelta,
    htlcMinimumMsat, feeBaseMsat, feeProportionalMillionths, htlcMaximumMsat }

/-! ## Dispatch -/

def Message.msgType : Message → Nat
  | .warning _ => MsgType.warning
  | .init _ => MsgType.init
  | .error _ => MsgType.error
  | .ping _ => MsgType.ping
  | .pong _ => MsgType.pong
  | .openChannel _ => MsgType.openChannel
  | .acceptChannel _ => MsgType.acceptChannel
  | .fundingCreated _ => MsgType.fundingCreated
  | .fundingSigned _ => MsgType.fundingSigned
  | .channelReady _ => MsgType.channelReady
  | .shutdown _ => MsgType.shutdown
  | .closingSigned _ => MsgType.closingSigned
  | .updateAddHtlc _ => MsgType.updateAddHtlc
  | .updateFulfillHtlc _ => MsgType.updateFulfillHtlc
  | .updateFailHtlc _ => MsgType.updateFailHtlc
  | .updateFailMalformedHtlc _ => MsgType.updateFailMalformedHtlc
  | .commitmentSigned _ => MsgType.commitmentSigned
  | .revokeAndAck _ => MsgType.revokeAndAck
  | .updateFee _ => MsgType.updateFee
  | .channelReestablish _ => MsgType.channelReestablish
  | .announcementSignatures _ => MsgType.announcementSignatures
  | .channelAnnouncement _ => MsgType.channelAnnouncement
  | .nodeAnnouncement _ => MsgType.nodeAnnouncement
  | .channelUpdate _ => MsgType.channelUpdate
  | .gossipTimestampFilter _ => MsgType.gossipTimestampFilter
  | .unknown t _ => t

/-- The body of `encode`. -/
def Message.body : Message → List UInt8
  | .warning m => m.write
  | .init m => m.write
  | .error m => m.write
  | .ping m => m.write
  | .pong m => m.write
  | .openChannel m => m.write
  | .acceptChannel m => m.write
  | .fundingCreated m => m.write
  | .fundingSigned m => m.write
  | .channelReady m => m.write
  | .shutdown m => m.write
  | .closingSigned m => m.write
  | .updateAddHtlc m => m.write
  | .updateFulfillHtlc m => m.write
  | .updateFailHtlc m => m.write
  | .updateFailMalformedHtlc m => m.write
  | .commitmentSigned m => m.write
  | .revokeAndAck m => m.write
  | .updateFee m => m.write
  | .channelReestablish m => m.write
  | .announcementSignatures m => m.write
  | .channelAnnouncement m => m.write
  | .nodeAnnouncement m => m.write
  | .channelUpdate m => m.write
  | .gossipTimestampFilter m => m.write
  | .unknown _ payload => payload

/-- Encode with the 2-byte type in front. -/
def Message.encode (m : Message) : List UInt8 := Writer.u16 m.msgType ++ m.body

def Message.decodeBody (typ : Nat) : Reader Message :=
  if typ = MsgType.warning then return .warning (← WarningMsg.read)
  else if typ = MsgType.init then return .init (← Init.read)
  else if typ = MsgType.error then return .error (← ErrorMsg.read)
  else if typ = MsgType.ping then return .ping (← Ping.read)
  else if typ = MsgType.pong then return .pong (← Pong.read)
  else if typ = MsgType.openChannel then return .openChannel (← OpenChannel.read K)
  else if typ = MsgType.acceptChannel then return .acceptChannel (← AcceptChannel.read K)
  else if typ = MsgType.fundingCreated then return .fundingCreated (← FundingCreated.read K)
  else if typ = MsgType.fundingSigned then return .fundingSigned (← FundingSigned.read K)
  else if typ = MsgType.channelReady then return .channelReady (← ChannelReady.read K)
  else if typ = MsgType.shutdown then return .shutdown (← Shutdown.read)
  else if typ = MsgType.closingSigned then return .closingSigned (← ClosingSigned.read K)
  else if typ = MsgType.updateAddHtlc then return .updateAddHtlc (← UpdateAddHtlc.read)
  else if typ = MsgType.updateFulfillHtlc then return .updateFulfillHtlc (← UpdateFulfillHtlc.read)
  else if typ = MsgType.updateFailHtlc then return .updateFailHtlc (← UpdateFailHtlc.read)
  else if typ = MsgType.updateFailMalformedHtlc then
    return .updateFailMalformedHtlc (← UpdateFailMalformedHtlc.read)
  else if typ = MsgType.commitmentSigned then return .commitmentSigned (← CommitmentSigned.read K)
  else if typ = MsgType.revokeAndAck then return .revokeAndAck (← RevokeAndAck.read K)
  else if typ = MsgType.updateFee then return .updateFee (← UpdateFee.read)
  else if typ = MsgType.channelReestablish then
    return .channelReestablish (← ChannelReestablish.read K)
  else if typ = MsgType.announcementSignatures then
    return .announcementSignatures (← AnnouncementSignatures.read K)
  else if typ = MsgType.channelAnnouncement then
    return .channelAnnouncement (← ChannelAnnouncement.read K)
  else if typ = MsgType.nodeAnnouncement then return .nodeAnnouncement (← NodeAnnouncement.read K)
  else if typ = MsgType.channelUpdate then return .channelUpdate (← ChannelUpdate.read K)
  else if typ = MsgType.gossipTimestampFilter then
    return .gossipTimestampFilter (← GossipTimestampFilter.read)
  else if typ % 2 = 1 then return .unknown typ (← Reader.rest)
  else throw (.unknownMessageType typ)

/-- `decode`: bytes after the body are tolerated. -/
def Message.decode (data : List UInt8) : Except WireError Message := do
  let (msg, _) ← StateT.run (do
    let typ ← Reader.u16
    decodeBody K typ) data
  return msg

end

end Wire
