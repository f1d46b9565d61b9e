import Keraunos.Wire.Proof.Primitives

/-!
# Messages are read back

`Message.Fits`: every integer fits its machine word and every variable-length field its length
field. Such a message is what `decode` makes of its encoding (`decode_encode`).
-/

namespace Wire

open Bytes Parse

/-! ## Messages that fit their encoding -/

def Init.Fits (m : Init) : Prop :=
  m.globalFeatures.length < 2 ^ 16 ∧ m.features.length < 2 ^ 16 ∧
    ∀ nets ∈ m.networks, 32 * nets.length < 2 ^ 64

structure OpenChannel.Fits (m : OpenChannel) : Prop where
  funding : m.fundingSatoshis < 2 ^ 64
  push : m.pushMsat < 2 ^ 64
  dust : m.dustLimitSatoshis < 2 ^ 64
  inFlight : m.maxHtlcValueInFlightMsat < 2 ^ 64
  reserve : m.channelReserveSatoshis < 2 ^ 64
  minimum : m.htlcMinimumMsat < 2 ^ 64
  feerate : m.feeratePerKw < 2 ^ 32
  delay : m.toSelfDelay < 2 ^ 16
  htlcs : m.maxAcceptedHtlcs < 2 ^ 16
  flags : m.channelFlags < 2 ^ 8
  script : ∀ s ∈ m.upfrontShutdownScript, s.length < 2 ^ 64
  channelType : ∀ t ∈ m.channelType, t.length < 2 ^ 64

structure AcceptChannel.Fits (m : AcceptChannel) : Prop where
  dust : m.dustLimitSatoshis < 2 ^ 64
  inFlight : m.maxHtlcValueInFlightMsat < 2 ^ 64
  reserve : m.channelReserveSatoshis < 2 ^ 64
  minimum : m.htlcMinimumMsat < 2 ^ 64
  depth : m.minimumDepth < 2 ^ 32
  delay : m.toSelfDelay < 2 ^ 16
  htlcs : m.maxAcceptedHtlcs < 2 ^ 16
  script : ∀ s ∈ m.upfrontShutdownScript, s.length < 2 ^ 64
  channelType : ∀ t ∈ m.channelType, t.length < 2 ^ 64

structure UpdateAddHtlc.Fits (m : UpdateAddHtlc) : Prop where
  id : m.id < 2 ^ 64
  amount : m.amountMsat < 2 ^ 64
  expiry : m.cltvExpiry < 2 ^ 32
  onion : m.onionRoutingPacket.length = onionPacketLen

def NetAddress.Fits : NetAddress → Prop
  | .v4 _ port => port < 2 ^ 16
  | .v6 _ port => port < 2 ^ 16
  | .torV3 _ checksum version port => checksum < 2 ^ 16 ∧ version < 2 ^ 8 ∧ port < 2 ^ 16
  | .hostname name port => name.length < 2 ^ 8 ∧ port < 2 ^ 16

structure NodeAnnouncement.Fits (m : NodeAnnouncement) : Prop where
  features : m.features.length < 2 ^ 16
  timestamp : m.timestamp < 2 ^ 32
  address : ∀ a ∈ m.addresses, a.Fits
  addresses : (m.addresses.flatMap NetAddress.write).length < 2 ^ 16

structure ChannelUpdate.Fits (m : ChannelUpdate) : Prop where
  scid : m.shortChannelId < 2 ^ 64
  timestamp : m.timestamp < 2 ^ 32
  messageFlags : m.messageFlags < 2 ^ 8
  channelFlags : m.channelFlags < 2 ^ 8
  delta : m.cltvExpiryDelta < 2 ^ 16
  minimum : m.htlcMinimumMsat < 2 ^ 64
  feeBase : m.feeBaseMsat < 2 ^ 32
  feeRate : m.feeProportionalMillionths < 2 ^ 32
  maximum : m.htlcMaximumMsat < 2 ^ 64

/-- The implemented type numbers. -/
def MsgType.implemented : List Nat :=
  [warning, init, error, ping, pong, openChannel, acceptChannel, fundingCreated, fundingSigned,
    channelReady, shutdown, closingSigned, updateAddHtlc, updateFulfillHtlc, updateFailHtlc,
    commitmentSigned, revokeAndAck, updateFee, updateFailMalformedHtlc, channelReestablish,
    channelAnnouncement, nodeAnnouncement, channelUpdate, announcementSignatures,
    gossipTimestampFilter]

/-- Integers fit their words, lists and byte strings their length fields; an unknown message has
an odd type that is not implemented. -/
def Message.Fits : Message → Prop
  | .warning m => m.data.length < 2 ^ 16
  | .init m => m.Fits
  | .error m => m.data.length < 2 ^ 16
  | .ping m => m.numPongBytes < 2 ^ 16 ∧ m.ignored.length < 2 ^ 16
  | .pong m => m.ignored.length < 2 ^ 16
  | .openChannel m => m.Fits
  | .acceptChannel m => m.Fits
  | .fundingCreated m => m.fundingOutputIndex < 2 ^ 16
  | .fundingSigned _ => True
  | .channelReady m => ∀ scid ∈ m.shortChannelIdAlias, scid < 2 ^ 64
  | .shutdown m => m.scriptpubkey.length < 2 ^ 16
  | .closingSigned m => m.feeSatoshis < 2 ^ 64 ∧
      ∀ r ∈ m.feeRange, r.minFeeSatoshis < 2 ^ 64 ∧ r.maxFeeSatoshis < 2 ^ 64
  | .updateAddHtlc m => m.Fits
  | .updateFulfillHtlc m => m.id < 2 ^ 64
  | .updateFailHtlc m => m.id < 2 ^ 64 ∧ m.reason.length < 2 ^ 16
  | .updateFailMalformedHtlc m => m.id < 2 ^ 64 ∧ m.failureCode < 2 ^ 16
  | .commitmentSigned m => m.htlcSignatures.length < 2 ^ 16
  | .revokeAndAck _ => True
  | .updateFee m => m.feeratePerKw < 2 ^ 32
  | .channelReestablish m => m.nextCommitmentNumber < 2 ^ 64 ∧ m.nextRevocationNumber < 2 ^ 64
  | .announcementSignatures m => m.shortChannelId < 2 ^ 64
  | .channelAnnouncement m => m.features.length < 2 ^ 16 ∧ m.shortChannelId < 2 ^ 64
  | .nodeAnnouncement m => m.Fits
  | .channelUpdate m => m.Fits
  | .gossipTimestampFilter m => m.firstTimestamp < 2 ^ 32 ∧ m.timestampRange < 2 ^ 32
  | .unknown t _ => t < 2 ^ 16 ∧ t % 2 = 1 ∧ t ∉ MsgType.implemented

def ChannelBasepoints.keys (b : ChannelBasepoints) : List PublicKey :=
  [b.fundingPubkey, b.revocation, b.payment, b.delayedPayment, b.htlc]

/-- The public keys of a message. -/
def Message.pubkeys : Message → List PublicKey
  | .openChannel m => m.firstPerCommitmentPoint :: m.basepoints.keys
  | .acceptChannel m => m.firstPerCommitmentPoint :: m.basepoints.keys
  | .channelReady m => [m.secondPerCommitmentPoint]
  | .revokeAndAck m => [m.nextPerCommitmentPoint]
  | .channelReestablish m => [m.myCurrentPerCommitmentPoint]
  | .channelAnnouncement m => [m.nodeId1, m.nodeId2, m.bitcoinKey1, m.bitcoinKey2]
  | .nodeAnnouncement m => [m.nodeId]
  | _ => []

/-- The signatures of a message. -/
def Message.signatures : Message → List Signature
  | .fundingCreated m => [m.signature]
  | .fundingSigned m => [m.signature]
  | .closingSigned m => [m.signature]
  | .commitmentSigned m => m.signature :: m.htlcSignatures
  | .announcementSignatures m => [m.nodeSignature, m.bitcoinSignature]
  | .channelAnnouncement m =>
    [m.nodeSignature1, m.nodeSignature2, m.bitcoinSignature1, m.bitcoinSignature2]
  | .nodeAnnouncement m => [m.signature]
  | .channelUpdate m => [m.signature]
  | _ => []

/-- The message's keys and signatures round-trip through their serialisation. -/
structure Message.KeysRoundTrip (K : KeyParsers) (m : Message) : Prop where
  pubkeys : ∀ pk ∈ m.pubkeys, K.fromSlice pk.serialize = some pk
  signatures : ∀ sig ∈ m.signatures, K.fromCompact sig.serializeCompact = some sig

/-! ## The readers -/

theorem WarningMsg.reads {m : WarningMsg} (h : m.data.length < 2 ^ 16) :
    Reads WarningMsg.read m.write m :=
  (reads_array m.channelId).bind (reads_bytesU16 h).last

theorem ErrorMsg.reads {m : ErrorMsg} (h : m.data.length < 2 ^ 16) :
    Reads ErrorMsg.read m.write m :=
  (reads_array m.channelId).bind (reads_bytesU16 h).last

theorem Ping.reads {m : Ping} (h : m.numPongBytes < 2 ^ 16 ∧ m.ignored.length < 2 ^ 16) :
    Reads Ping.read m.write m :=
  (reads_u16 h.1).bind (reads_bytesU16 h.2).last

theorem Pong.reads {m : Pong} (h : m.ignored.length < 2 ^ 16) : Reads Pong.read m.write m :=
  (reads_bytesU16 h).last

theorem Shutdown.reads {m : Shutdown} (h : m.scriptpubkey.length < 2 ^ 16) :
    Reads Shutdown.read m.write m :=
  (reads_array m.channelId).bind (reads_bytesU16 h).last

theorem UpdateAddHtlc.reads {m : UpdateAddHtlc} (h : m.Fits) : Reads UpdateAddHtlc.read m.write m := by
  unfold UpdateAddHtlc.write
  simp only [List.append_assoc]
  exact (reads_array m.channelId).bind <| (reads_u64 h.id).bind <| (reads_u64 h.amount).bind <|
    (reads_array m.paymentHash).bind <| (reads_u32 h.expiry).bind <| (reads_take h.onion).last

theorem UpdateFulfillHtlc.reads {m : UpdateFulfillHtlc} (h : m.id < 2 ^ 64) :
    Reads UpdateFulfillHtlc.read m.write m := by
  unfold UpdateFulfillHtlc.write
  simp only [List.append_assoc]
  exact (reads_array m.channelId).bind <| (reads_u64 h).bind <| (reads_array m.paymentPreimage).last

theorem UpdateFailHtlc.reads {m : UpdateFailHtlc} (h : m.id < 2 ^ 64 ∧ m.reason.length < 2 ^ 16) :
    Reads UpdateFailHtlc.read m.write m := by
  unfold UpdateFailHtlc.write
  simp only [List.append_assoc]
  exact (reads_array m.channelId).bind <| (reads_u64 h.1).bind <| (reads_bytesU16 h.2).last

theorem UpdateFailMalformedHtlc.reads {m : UpdateFailMalformedHtlc}
    (h : m.id < 2 ^ 64 ∧ m.failureCode < 2 ^ 16) :
    Reads UpdateFailMalformedHtlc.read m.write m := by
  unfold UpdateFailMalformedHtlc.write
  simp only [List.append_assoc]
  exact (reads_array m.channelId).bind <| (reads_u64 h.1).bind <|
    (reads_array m.sha256OfOnion).bind <| (reads_u16 h.2).last

theorem UpdateFee.reads {m : UpdateFee} (h : m.feeratePerKw < 2 ^ 32) :
    Reads UpdateFee.read m.write m :=
  (reads_array m.channelId).bind (reads_u32 h).last

theorem GossipTimestampFilter.reads {m : GossipTimestampFilter}
    (h : m.firstTimestamp < 2 ^ 32 ∧ m.timestampRange < 2 ^ 32) :
    Reads GossipTimestampFilter.read m.write m := by
  unfold GossipTimestampFilter.write
  simp only [List.append_assoc]
  exact (reads_array m.chainHash).bind <| (reads_u32 h.1).bind <| (reads_u32 h.2).last

section
variable {K : KeyParsers}

theorem FundingCreated.reads {m : FundingCreated} (h : m.fundingOutputIndex < 2 ^ 16)
    (hs : K.fromCompact m.signature.serializeCompact = some m.signature) :
    Reads (FundingCreated.read K) m.write m := by
  unfold FundingCreated.write
  simp only [List.append_assoc]
  exact (reads_array m.temporaryChannelId).bind <| (reads_array m.fundingTxid).bind <|
    (reads_u16 h).bind <| (reads_signature hs).last

theorem FundingSigned.reads {m : FundingSigned}
    (hs : K.fromCompact m.signature.serializeCompact = some m.signature) :
    Reads (FundingSigned.read K) m.write m :=
  (reads_array m.channelId).bind (reads_signature hs).last

theorem CommitmentSigned.reads {m : CommitmentSigned} (h : m.htlcSignatures.length < 2 ^ 16)
    (hs : ∀ sig ∈ m.signature :: m.htlcSignatures, K.fromCompact sig.serializeCompact = some sig) :
    Reads (CommitmentSigned.read K) m.write m := by
  unfold CommitmentSigned.write
  simp only [List.append_assoc]
  refine (reads_array m.channelId).bind <| (reads_signature (hs _ List.mem_cons_self)).bind <|
    (reads_u16 h).bind <| Reads.last (Reads.times ?_)
  intro sig hsig
  exact reads_signature (hs sig (List.mem_cons_of_mem _ hsig))

theorem RevokeAndAck.reads {m : RevokeAndAck}
    (hk : K.fromSlice m.nextPerCommitmentPoint.serialize = some m.nextPerCommitmentPoint) :
    Reads (RevokeAndAck.read K) m.write m := by
  unfold RevokeAndAck.write
  simp only [List.append_assoc]
  exact (reads_array m.channelId).bind <| (reads_array m.perCommitmentSecret).bind <|
    (reads_pubkey hk).last

theorem ChannelReestablish.reads {m : ChannelReestablish}
    (h : m.nextCommitmentNumber < 2 ^ 64 ∧ m.nextRevocationNumber < 2 ^ 64)
    (hk : K.fromSlice m.myCurrentPerCommitmentPoint.serialize =
      some m.myCurrentPerCommitmentPoint) :
    Reads (ChannelReestablish.read K) m.write m := by
  unfold ChannelReestablish.write
  simp only [List.append_assoc]
  exact (reads_array m.channelId).bind <| (reads_u64 h.1).bind <| (reads_u64 h.2).bind <|
    (reads_array m.yourLastPerCommitmentSecret).bind <| (reads_pubkey hk).last

theorem AnnouncementSignatures.reads {m : AnnouncementSignatures} (h : m.shortChannelId < 2 ^ 64)
    (hs : ∀ sig ∈ [m.nodeSignature, m.bitcoinSignature],
      K.fromCompact sig.serializeCompact = some sig) :
    Reads (AnnouncementSignatures.read K) m.write m := by
  simp only [List.forall_mem_cons] at hs
  unfold AnnouncementSignatures.write
  simp only [List.append_assoc]
  exact (reads_array m.channelId).bind <| (reads_u64 h).bind <| (reads_signature hs.1).bind <|
    (reads_signature hs.2.1).last

theorem ChannelBasepoints.reads {b : ChannelBasepoints}
    (hk : ∀ pk ∈ b.keys, K.fromSlice pk.serialize = some pk) :
    Reads (ChannelBasepoints.read K) b.write b := by
  simp only [keys, List.forall_mem_cons] at hk
  obtain ⟨hf, hr, hp, hd, hh, -⟩ := hk
  unfold ChannelBasepoints.write
  simp only [List.append_assoc]
  exact (reads_pubkey hf).bind <| (reads_pubkey hr).bind <| (reads_pubkey hp).bind <|
    (reads_pubkey hd).bind <| (reads_pubkey hh).last

/-! ### Messages with a TLV tail -/

theorem chunks32_flatMap (nets : List Bytes32) (fuel : Nat) (h : nets.length ≤ fuel) :
    chunks32 fuel (nets.flatMap Vector.toList) = nets := by
  induction nets generalizing fuel with
  | nil => cases fuel <;> rfl
  | cons n nets ih =>
    obtain ⟨fuel, rfl⟩ : ∃ k, fuel = k + 1 := ⟨fuel - 1, by simp at h; omega⟩
    have hlen : ¬ (n.toList ++ nets.flatMap Vector.toList).length < 32 := by simp
    rw [List.flatMap_cons, chunks32, dif_neg hlen,
      List.drop_left' (show n.toList.length = _ from Vector.length_toList), ih fuel (by simpa using h)]
    congr 1
    apply Vector.toList_inj.1
    simp

theorem length_flatMap_toList (nets : List Bytes32) :
    (nets.flatMap Vector.toList).length = 32 * nets.length := by
  induction nets with
  | nil => rfl
  | cons n nets ih =>
    rw [List.flatMap_cons, List.length_append, ih, Vector.length_toList, List.length_cons]
    omega

theorem Init.networksOf_optional (networks : Option (List Bytes32)) :
    networksOf (Tlv.optional 1 (networks.map fun nets => nets.flatMap Vector.toList)) =
      .ok networks := by
  cases networks with
  | none => rfl
  | some nets =>
    have hlen := length_flatMap_toList nets
    have hmod : (nets.flatMap Vector.toList).length % 32 = 0 := by omega
    simp only [networksOf, Option.map_some, Tlv.optional_some, List.foldlM_cons, if_true]
    rw [if_neg (not_not.2 hmod), chunks32_flatMap nets _ (by omega)]
    rfl

theorem Init.reads {m : Init} (h : m.Fits) : ReadsAll Init.read m.write m := by
  unfold Init.write
  simp only [List.append_assoc]
  refine (reads_bytesU16 h.1).bindAll <| (reads_bytesU16 h.2.1).bindAll <| ReadsAll.rest <|
    ReadsAll.lift (Tlv.parseStream_optional (by decide) ?_) <| ReadsAll.lift (a := ()) ?_ <|
    ReadsAll.lift (networksOf_optional m.networks) (Reads.pure _).all
  · intro v hv
    obtain ⟨nets, hn, rfl⟩ := Option.mem_map.1 hv
    rw [length_flatMap_toList]
    exact h.2.2 nets hn
  · cases m.networks <;> rfl

theorem openAcceptTlvs_optional (script ctype : Option (List UInt8)) :
    openAcceptTlvs (Tlv.optional 0 script ++ Tlv.optional 1 ctype) = (script, ctype) := by
  cases script <;> cases ctype <;> rfl

theorem checkUnknownEven_optional (script ctype : Option (List UInt8)) :
    Tlv.checkUnknownEven (Tlv.optional 0 script ++ Tlv.optional 1 ctype) [0] = .ok () := by
  cases script <;> cases ctype <;> rfl

theorem OpenChannel.reads {m : OpenChannel} (h : m.Fits)
    (hk : ∀ pk ∈ m.firstPerCommitmentPoint :: m.basepoints.keys,
      K.fromSlice pk.serialize = some pk) : ReadsAll (OpenChannel.read K) m.write m := by
  rw [List.forall_mem_cons] at hk
  unfold OpenChannel.write
  simp only [List.append_assoc]
  refine (reads_array m.chainHash).bindAll <| (reads_array m.temporaryChannelId).bindAll <|
    (reads_u64 h.funding).bindAll <| (reads_u64 h.push).bindAll <| (reads_u64 h.dust).bindAll <|
    (reads_u64 h.inFlight).bindAll <| (reads_u64 h.reserve).bindAll <|
    (reads_u64 h.minimum).bindAll <| (reads_u32 h.feerate).bindAll <|
    (reads_u16 h.delay).bindAll <| (reads_u16 h.htlcs).bindAll <|
    (ChannelBasepoints.reads hk.2).bindAll <| (reads_pubkey hk.1).bindAll <|
    (reads_u8 h.flags).bindAll <| ReadsAll.rest <|
    ReadsAll.lift (Tlv.parseStream_optional₂ (by decide) (by decide) h.script h.channelType) <|
    ReadsAll.lift (checkUnknownEven_optional _ _) ?_
  rw [openAcceptTlvs_optional]
  exact (Reads.pure m).all

theorem AcceptChannel.reads {m : AcceptChannel} (h : m.Fits)
    (hk : ∀ pk ∈ m.firstPerCommitmentPoint :: m.basepoints.keys,
      K.fromSlice pk.serialize = some pk) : ReadsAll (AcceptChannel.read K) m.write m := by
  rw [List.forall_mem_cons] at hk
  unfold AcceptChannel.write
  simp only [List.append_assoc]
  refine (reads_array m.temporaryChannelId).bindAll <| (reads_u64 h.dust).bindAll <|
    (reads_u64 h.inFlight).bindAll <| (reads_u64 h.reserve).bindAll <|
    (reads_u64 h.minimum).bindAll <| (reads_u32 h.depth).bindAll <|
    (reads_u16 h.delay).bindAll <| (reads_u16 h.htlcs).bindAll <|
    (ChannelBasepoints.reads hk.2).bindAll <| (reads_pubkey hk.1).bindAll <| ReadsAll.rest <|
    ReadsAll.lift (Tlv.parseStream_optional₂ (by decide) (by decide) h.script h.channelType) <|
    ReadsAll.lift (checkUnknownEven_optional _ _) ?_
  rw [openAcceptTlvs_optional]
  exact (Reads.pure m).all

theorem ChannelReady.reads {m : ChannelReady} (h : ∀ scid ∈ m.shortChannelIdAlias, scid < 2 ^ 64)
    (hk : K.fromSlice m.secondPerCommitmentPoint.serialize = some m.secondPerCommitmentPoint) :
    ReadsAll (ChannelReady.read K) m.write m := by
  unfold ChannelReady.write
  simp only [List.append_assoc]
  refine (reads_array m.channelId).bindAll <| (reads_pubkey hk).bindAll <| ReadsAll.rest <|
    ReadsAll.lift (Tlv.parseStream_optional (by decide) ?_) <| ReadsAll.lift (a := ()) ?_ ?_
  · intro v hv
    obtain ⟨scid, -, rfl⟩ := Option.mem_map.1 hv
    simp [Writer.u64]
  · cases m.shortChannelIdAlias <;> rfl
  · have halias : aliasOf (Tlv.optional 1 (m.shortChannelIdAlias.map Writer.u64)) =
        m.shortChannelIdAlias := by
      cases ha : m.shortChannelIdAlias with
      | none => rfl
      | some scid =>
        have hscid := h scid ha
        have hmod := Nat.mod_eq_of_lt (show scid < 256 ^ 8 from hscid)
        simp only [aliasOf, Writer.u64, Option.map_some, Tlv.optional_some, List.foldl_cons,
          List.foldl_nil, length_beBytes, and_self, if_true, beVal_beBytes, hmod]
    rw [halias]
    exact (Reads.pure m).all

theorem ClosingSigned.feeRangeOf_optional {range : Option ClosingSignedFeeRange}
    (h : ∀ r ∈ range, r.minFeeSatoshis < 2 ^ 64 ∧ r.maxFeeSatoshis < 2 ^ 64) :
    feeRangeOf (Tlv.optional 1 (range.map fun range =>
      Writer.u64 range.minFeeSatoshis ++ Writer.u64 range.maxFeeSatoshis)) = range := by
  cases range with
  | none => rfl
  | some r =>
    obtain ⟨hmin, hmax⟩ := h r rfl
    have htake : (beBytes 8 r.minFeeSatoshis ++ beBytes 8 r.maxFeeSatoshis).take 8 =
        beBytes 8 r.minFeeSatoshis := List.take_left' (length_beBytes 8 _)
    have hdrop : (beBytes 8 r.minFeeSatoshis ++ beBytes 8 r.maxFeeSatoshis).drop 8 =
        beBytes 8 r.maxFeeSatoshis := List.drop_left' (length_beBytes 8 _)
    simp only [feeRangeOf, Writer.u64, Option.map_some, Tlv.optional_some, List.foldl_cons,
      List.foldl_nil, List.length_append, length_beBytes, Nat.reduceAdd, and_self, if_true, htake,
      hdrop, beVal_beBytes, Nat.mod_eq_of_lt (show r.minFeeSatoshis < 256 ^ 8 from hmin),
      Nat.mod_eq_of_lt (show r.maxFeeSatoshis < 256 ^ 8 from hmax)]

theorem ClosingSigned.reads {m : ClosingSigned} (h : m.feeSatoshis < 2 ^ 64 ∧
      ∀ r ∈ m.feeRange, r.minFeeSatoshis < 2 ^ 64 ∧ r.maxFeeSatoshis < 2 ^ 64)
    (hs : K.fromCompact m.signature.serializeCompact = some m.signature) :
    ReadsAll (ClosingSigned.read K) m.write m := by
  unfold ClosingSigned.write
  simp only [List.append_assoc]
  refine (reads_array m.channelId).bindAll <| (reads_u64 h.1).bindAll <|
    (reads_signature hs).bindAll <| ReadsAll.rest <|
    ReadsAll.lift (Tlv.parseStream_optional (by decide) ?_) <| ReadsAll.lift (a := ()) ?_ ?_
  · intro v hv
    obtain ⟨r, -, rfl⟩ := Option.mem_map.1 hv
    simp [Writer.u64]
  · cases m.feeRange <;> rfl
  · rw [feeRangeOf_optional h.2]
    exact (Reads.pure m).all

/-! ### Gossip -/

theorem NodeAnnouncement.readAddress_consumes : Consumes readAddress := by
  intro out
  refine (costs_uint 1).bind_left fun typ => ?_
  have u8 := (costs_uint 1).mono (Nat.zero_le 1)
  have u16 := (costs_uint 2).mono (Nat.zero_le 2)
  refine Costs.ite ?_ <| Costs.ite ?_ <| Costs.ite ?_ <| Costs.ite ?_ <| Costs.ite ?_ <|
    Costs.pure _
  · exact (costs_array 4).bind_left fun _ => u16.bind_left fun _ => Costs.pure _
  · exact (costs_array 16).bind_left fun _ => u16.bind_left fun _ => Costs.pure _
  · exact ((costs_take 12).mono (Nat.zero_le 12)).bind_left fun _ => Costs.pure _
  · exact (costs_array 32).bind_left fun _ => u16.bind_left fun _ => u8.bind_left fun _ =>
      u16.bind_left fun _ => Costs.pure _
  · exact u8.bind_left fun len => ((costs_take len).mono (Nat.zero_le len)).bind_left fun _ =>
      u16.bind_left fun _ => Costs.pure _

theorem NetAddress.reads {a : NetAddress} (h : a.Fits) (out : List NetAddress) :
    Reads (NodeAnnouncement.readAddress out) a.write (.yield (out ++ [a])) := by
  cases a with
  | v4 addr port =>
    simp only [NetAddress.write, List.append_assoc]
    exact (reads_u8 (v := 1) (by decide)).bind <| (reads_array addr).bind (reads_u16 h).last
  | v6 addr port =>
    simp only [NetAddress.write, List.append_assoc]
    exact (reads_u8 (v := 2) (by decide)).bind <| (reads_array addr).bind (reads_u16 h).last
  | torV3 key checksum version port =>
    simp only [NetAddress.write, List.append_assoc]
    exact (reads_u8 (v := 4) (by decide)).bind <| (reads_array key).bind <|
      (reads_u16 h.1).bind <| (reads_u8 h.2.1).bind (reads_u16 h.2.2).last
  | hostname name port =>
    simp only [NetAddress.write, List.append_assoc]
    exact (reads_u8 (v := 5) (by decide)).bind <| (reads_u8 h.1).bind <|
      (reads_take rfl).bind (reads_u16 h.2).last

theorem NetAddress.write_ne_nil (a : NetAddress) : a.write ≠ [] := by
  cases a <;> simp [NetAddress.write, Writer.u8, beBytes]

theorem NodeAnnouncement.readAddresses_write {as : List NetAddress} (h : ∀ a ∈ as, a.Fits) :
    readAddresses (as.flatMap NetAddress.write) = .ok as := by
  have hr : ReadsAll (whileMore readAddress []) (as.flatMap NetAddress.write) as := by
    refine ReadsAll.whileMore readAddress_consumes id NetAddress.write_ne_nil ?_
    intro pre a post hsplit
    exact NetAddress.reads (h a (by simp [hsplit])) pre
  rw [readAddresses, hr]
  rfl

theorem NodeAnnouncement.reads {m : NodeAnnouncement} (h : m.Fits)
    (hs : K.fromCompact m.signature.serializeCompact = some m.signature)
    (hk : K.fromSlice m.nodeId.serialize = some m.nodeId) :
    Reads (NodeAnnouncement.read K) m.write m := by
  unfold NodeAnnouncement.write NodeAnnouncement.writeAfterSig
  simp only [List.append_assoc]
  refine (reads_signature hs).bind <| (reads_bytesU16 h.features).bind <|
    (reads_u32 h.timestamp).bind <| (reads_pubkey hk).bind <| (reads_array m.rgbColor).bind <|
    (reads_array m.aliasBytes).bind ?_
  have hlist := (reads_bytesU16 h.addresses).bind (f := fun b => lift (readAddresses b) >>= fun as =>
    (pure { m with addresses := as } : Reader NodeAnnouncement))
    (Reads.lift (readAddresses_write h.address)).last
  rwa [List.append_nil] at hlist

theorem ChannelAnnouncement.reads {m : ChannelAnnouncement}
    (h : m.features.length < 2 ^ 16 ∧ m.shortChannelId < 2 ^ 64)
    (hs : ∀ sig ∈ [m.nodeSignature1, m.nodeSignature2, m.bitcoinSignature1, m.bitcoinSignature2],
      K.fromCompact sig.serializeCompact = some sig)
    (hk : ∀ pk ∈ [m.nodeId1, m.nodeId2, m.bitcoinKey1, m.bitcoinKey2],
      K.fromSlice pk.serialize = some pk) : Reads (ChannelAnnouncement.read K) m.write m := by
  simp only [List.forall_mem_cons] at hs hk
  obtain ⟨hs1, hs2, hs3, hs4, -⟩ := hs
  obtain ⟨hk1, hk2, hk3, hk4, -⟩ := hk
  unfold ChannelAnnouncement.write ChannelAnnouncement.signedPayload
  simp only [List.append_assoc]
  exact (reads_signature hs1).bind <| (reads_signature hs2).bind <| (reads_signature hs3).bind <|
    (reads_signature hs4).bind <| (reads_bytesU16 h.1).bind <| (reads_array m.chainHash).bind <|
    (reads_u64 h.2).bind <| (reads_pubkey hk1).bind <| (reads_pubkey hk2).bind <|
    (reads_pubkey hk3).bind (reads_pubkey hk4).last

theorem ChannelUpdate.reads {m : ChannelUpdate} (h : m.Fits)
    (hs : K.fromCompact m.signature.serializeCompact = some m.signature) :
    Reads (ChannelUpdate.read K) m.write m := by
  unfold ChannelUpdate.write ChannelUpdate.writeAfterSig
  simp only [List.append_assoc]
  exact (reads_signature hs).bind <| (reads_array m.chainHash).bind <| (reads_u64 h.scid).bind <|
    (reads_u32 h.timestamp).bind <| (reads_u8 h.messageFlags).bind <|
    (reads_u8 h.channelFlags).bind <| (reads_u16 h.delta).bind <| (reads_u64 h.minimum).bind <|
    (reads_u32 h.feeBase).bind <| (reads_u32 h.feeRate).bind (reads_u64 h.maximum).last

/-! ## The round trip -/

theorem Message.msgType_lt {m : Message} (h : m.Fits) : m.msgType < 2 ^ 16 := by
  cases m with
  | unknown t _ => exact h.1
  | _ => exact Nat.le_of_ble_eq_true rfl

theorem Message.decode_of_body {m : Message} (hfit : m.Fits)
    (h : ReadsAll (Message.decodeBody K m.msgType) m.body m) : Message.decode K m.encode = .ok m := by
  have hr := (reads_u16 (msgType_lt hfit)).bindAll (f := Message.decodeBody K) h
  rw [Message.decode, Message.encode, hr]
  rfl

theorem Message.decodeBody_unknown {t : Nat} (hodd : t % 2 = 1) (h : t ∉ MsgType.implemented) :
    Message.decodeBody K t = (do return .unknown t (← Reader.rest)) := by
  simp only [MsgType.implemented, List.mem_cons, List.not_mem_nil, or_false, not_or] at h
  simp only [Message.decodeBody, h, if_false, hodd, if_true]

end

/-- Decoding an encoded message gives the message back. -/
theorem Message.decode_encode (K : KeyParsers) (m : Message) (hfit : m.Fits)
    (hkeys : m.KeysRoundTrip K) : Message.decode K m.encode = .ok m := by
  obtain ⟨hk, hs⟩ := hkeys
  apply decode_of_body hfit
  -- one case per constructor: its reader, under the constructor
  cases m with
  | warning m => exact (WarningMsg.reads hfit).last.all
  | init m => exact (Init.reads hfit).last
  | error m => exact (ErrorMsg.reads hfit).last.all
  | ping m => exact (Ping.reads hfit).last.all
  | pong m => exact (Pong.reads hfit).last.all
  | openChannel m => exact (OpenChannel.reads hfit hk).last
  | acceptChannel m => exact (AcceptChannel.reads hfit hk).last
  | fundingCreated m => exact (FundingCreated.reads hfit (hs _ List.mem_cons_self)).last.all
  | fundingSigned m => exact (FundingSigned.reads (hs _ List.mem_cons_self)).last.all
  | channelReady m => exact (ChannelReady.reads hfit (hk _ List.mem_cons_self)).last
  | shutdown m => exact (Shutdown.reads hfit).last.all
  | closingSigned m => exact (ClosingSigned.reads hfit (hs _ List.mem_cons_self)).last
  | updateAddHtlc m => exact (UpdateAddHtlc.reads hfit).last.all
  | updateFulfillHtlc m => exact (UpdateFulfillHtlc.reads hfit).last.all
  | updateFailHtlc m => exact (UpdateFailHtlc.reads hfit).last.all
  | updateFailMalformedHtlc m => exact (UpdateFailMalformedHtlc.reads hfit).last.all
  | commitmentSigned m => exact (CommitmentSigned.reads hfit hs).last.all
  | revokeAndAck m => exact (RevokeAndAck.reads (hk _ List.mem_cons_self)).last.all
  | updateFee m => exact (UpdateFee.reads hfit).last.all
  | channelReestablish m =>
    exact (ChannelReestablish.reads hfit (hk _ List.mem_cons_self)).last.all
  | announcementSignatures m => exact (AnnouncementSignatures.reads hfit hs).last.all
  | channelAnnouncement m => exact (ChannelAnnouncement.reads hfit hs hk).last.all
  | nodeAnnouncement m =>
    exact (NodeAnnouncement.reads hfit (hs _ List.mem_cons_self) (hk _ List.mem_cons_self)).last.all
  | channelUpdate m => exact (ChannelUpdate.reads hfit (hs _ List.mem_cons_self)).last.all
  | gossipTimestampFilter m => exact (GossipTimestampFilter.reads hfit).last.all
  | unknown t payload =>
    show ReadsAll (decodeBody K t) payload (.unknown t payload)
    rw [decodeBody_unknown hfit.2.1 hfit.2.2]
    exact ReadsAll.rest (Reads.pure _).all

/-- A node announcement with one address of each kind but the third. -/
def Message.sample : Message :=
  .nodeAnnouncement {
    signature := ⟨Vector.replicate 64 7⟩
    features := [0x80, 0x00]
    timestamp := 1700000000
    nodeId := ⟨Crypto.Transparent.ofNat 33
      0x0279be667ef9dcbbac55a06295ce870b07029bfcdb2dce28d959f2815b16f81798⟩
    rgbColor := #v[0xde, 0xad, 0x00]
    aliasBytes := Vector.replicate 32 0x6b
    addresses := [.v4 #v[127, 0, 0, 1] 9735, .torV3 (Vector.replicate 32 0x11) 0xbeef 3 9735,
      .hostname [108, 110] 9735] }

theorem Message.decode_encode_sample :
    Message.decode KeyParsers.transparent Message.sample.encode = .ok Message.sample := by
  apply Message.decode_encode
  · refine ⟨by decide, by decide, ?_, by decide⟩
    intro a ha
    simp only [List.mem_cons, List.not_mem_nil, or_false] at ha
    rcases ha with rfl | rfl | rfl <;> simp [NetAddress.Fits]
  · refine ⟨?_, ?_⟩ <;> decide +kernel

end Wire
