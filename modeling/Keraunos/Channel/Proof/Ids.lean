import Keraunos.Channel.Proof.Moves

/-!
# The ids of a channel

A channel has its temporary id until its funding outpoint is bound, and the id of the outpoint from
then on. `perform_ids`: no other call changes either. `fundingCreated_ids` and
`onFundingCreated_ids`: what the two calls that bind the outpoint do.
-/

open Bitcoin Commitment

namespace Channel

/-- A call that binds the funding outpoint. -/
def Input.Funds : Input → Prop
  | .createFunding .. | .fundingCreated _ => True
  | _ => False

/-- The ids and the funding outpoint are the same. -/
def SameIds (ch ch' : Channel) : Prop :=
  ch'.channelId = ch.channelId ∧ ch'.temporaryChannelId = ch.temporaryChannelId ∧
    ch'.fundingOutpoint = ch.fundingOutpoint

namespace SameIds

variable {ch ch' ch'' : Channel}

theorem rfl : SameIds ch ch := ⟨.refl _, .refl _, .refl _⟩

theorem trans (h : SameIds ch ch') (h' : SameIds ch' ch'') : SameIds ch ch'' :=
  ⟨h'.1.trans h.1, h'.2.1.trans h.2.1, h'.2.2.trans h.2.2⟩

end SameIds

/-- Whatever the outcome, `x` keeps the ids. -/
abbrev KeepsIds {α : Type} (x : ChannelAct α) (ch : Channel) : Prop :=
  Act.wp x ch (fun _ ch' => SameIds ch ch') (fun _ ch' => SameIds ch ch')

theorem keepsIds_bind {α β : Type} {x : ChannelAct β} {f : β → ChannelAct α} {ch : Channel}
    (hx : KeepsIds x ch) (hf : ∀ b ch', KeepsIds (f b) ch') : KeepsIds (x >>= f) ch := by
  refine (Act.wp_bind x f).2 (Act.wp_mono hx (fun b ch' h => ?_) fun _ _ h => h)
  exact Act.wp_mono (hf b ch') (fun _ _ => h.trans) fun _ _ => h.trans

section
variable {C : Crypto} (ch : Channel)

/-! ## Opening -/

@[simp] theorem maybeBecomeNormal_ids : SameIds ch ch.maybeBecomeNormal := by
  unfold maybeBecomeNormal
  split <;> exact .rfl

theorem storeInitialHolderCommitment_ids (sig : Signature) :
    KeepsIds (storeInitialHolderCommitment C sig) ch := by
  refine Act.wp_mono (storeInitialHolderCommitment_spec sig ch) ?_ ?_
  · rintro _ _ ⟨b, -, -, rfl⟩
    exact .rfl
  · rintro _ _ rfl
    exact .rfl

theorem onFundingSigned_ids (msg : Wire.FundingSigned) : KeepsIds (onFundingSigned C msg) ch := by
  simp only [onFundingSigned, KeepsIds, Act.wp_bind, Act.wp_get, Act.wp_lift, Act.wp_modify]
  refine ⟨fun _ _ => ⟨fun _ _ => ?_, fun _ _ => .rfl⟩, fun _ _ => .rfl⟩
  exact Act.wp_mono (storeInitialHolderCommitment_ids ch _) (fun _ _ h => h) fun _ _ h => h

theorem confirmFunding_ids (scid : ShortChannelId) : KeepsIds (confirmFunding scid) ch := by
  simp only [confirmFunding, KeepsIds, Act.wp_bind, Act.wp_get, Act.wp_lift, Act.wp_ite, Act.wp_set,
    Act.wp_pure]
  refine ⟨fun _ _ => ⟨fun _ => .rfl, fun _ => ?_⟩, fun _ _ => .rfl⟩
  exact maybeBecomeNormal_ids _

theorem onChannelReady_ids (msg : Wire.ChannelReady) : KeepsIds (onChannelReady msg) ch := by
  simp only [onChannelReady, KeepsIds, Act.wp_bind, Act.wp_get, Act.wp_lift, Act.wp_ite, Act.wp_set,
    Act.wp_pure]
  refine ⟨fun _ _ => ⟨fun _ => .rfl, fun _ => ?_⟩, fun _ _ => .rfl⟩
  exact maybeBecomeNormal_ids _

/-! ## The dance -/

theorem sendAddHtlc_ids (amountMsat : Msat) (paymentHash : PaymentHash) (cltvExpiry : Nat)
    (onion : List UInt8) (source : HtlcSource) :
    KeepsIds (sendAddHtlc amountMsat paymentHash cltvExpiry onion source) ch := by
  refine Act.wp_mono (sendAddHtlc_spec _ _ _ _ _ ch) ?_ ?_
  · rintro _ _ (⟨-, -, rfl⟩ | ⟨-, -, -, -, rfl⟩) <;> exact .rfl
  · rintro _ _ rfl
    exact .rfl

theorem sendRemoval_ids {M : Type} (op : HoldingCellOp) (id : HtlcId) (r : HtlcResolution)
    (check : Htlc → ChannelResult Unit) (msg : ChannelId → M) :
    KeepsIds (sendRemoval op id r check msg) ch := by
  refine Act.wp_mono (sendRemoval_spec _ _ _ _ _ ch) ?_ ?_
  · rintro _ _ (⟨-, -, rfl⟩ | ⟨-, -, h, -, -, rfl⟩) <;> exact .rfl
  · rintro _ _ rfl
    exact .rfl

theorem onRemoval_ids (id : HtlcId) (r : HtlcResolution) (check : Htlc → ChannelResult Unit) :
    KeepsIds (onRemoval id r check) ch := by
  refine Act.wp_mono (onRemoval_spec _ _ _ ch) ?_ ?_
  · rintro _ _ ⟨h, -, -, -, -, rfl⟩
    exact .rfl
  · rintro _ _ (rfl | ⟨-, h, -, rfl⟩) <;> exact .rfl

theorem sendCommitmentSigned_ids : KeepsIds (sendCommitmentSigned C) ch := by
  refine Act.wp_mono (sendCommitmentSigned_spec ch) ?_ ?_
  · rintro _ _ ⟨point, b, sig, sigs, -, -, -, -, -, -, -, rfl⟩
    exact .rfl
  · rintro _ _ rfl
    exact .rfl

theorem flushRemoval_ids {M : Type} (wrap : M → Wire.Message) {x : ChannelAct (Option M)}
    (h : KeepsIds x ch) : KeepsIds (flushRemoval wrap x) ch := by
  simp only [flushRemoval, KeepsIds, Act.wp_bind, Act.wp_attempt]
  refine Act.wp_mono h ?_ ?_
  · rintro (_ | m) ch' hm <;> exact hm
  · rintro e ch' hm
    refine ⟨?_, fun _ => hm⟩
    rintro (_ | _ | _) - <;> exact hm

theorem flushOp_ids (op : HoldingCellOp) : KeepsIds (flushOp C op) ch := by
  cases op with
  | add amountMsat paymentHash cltvExpiry onion source =>
    simp only [flushOp, KeepsIds, Act.wp_bind, Act.wp_attempt]
    refine Act.wp_mono (sendAddHtlc_ids ch _ _ _ _ _) ?_ ?_
    · rintro (_ | m) ch' hm <;> exact hm
    · rintro e ch' hm
      refine ⟨?_, fun _ => hm⟩
      rintro (_ | _ | _) - <;> exact hm
  | fulfill id preimage => exact flushRemoval_ids ch _ (sendRemoval_ids ch _ _ _ _ _)
  | fail id reason => exact flushRemoval_ids ch _ (sendRemoval_ids ch _ _ _ _ _)
  | failMalformed id sha code => exact flushRemoval_ids ch _ (sendRemoval_ids ch _ _ _ _ _)

theorem flushOps_ids (ops : List HoldingCellOp) : KeepsIds (flushOps C ops) ch := by
  induction ops generalizing ch with
  | nil => exact .rfl
  | cons op ops ih =>
    refine keepsIds_bind (flushOp_ids ch op) fun _ ch₁ => ?_
    exact keepsIds_bind (ih ch₁) fun _ _ => .rfl

theorem maybeSendCommitmentSigned_ids : KeepsIds (maybeSendCommitmentSigned C) ch := by
  simp only [maybeSendCommitmentSigned, KeepsIds, Act.wp_bind, Act.wp_get, Act.wp_ite, Act.wp_map,
    Act.wp_pure]
  exact ⟨fun _ => sendCommitmentSigned_ids ch, fun _ => .rfl⟩

theorem onRevokeAndAck_ids (msg : Wire.RevokeAndAck) : KeepsIds (onRevokeAndAck C msg) ch := by
  simp only [onRevokeAndAck, collectForwardable, KeepsIds, Act.wp_bind, Act.wp_get, Act.wp_lift,
    Act.wp_expect, Act.wp_set, Act.wp_modify, Act.wp_pure]
  refine ⟨fun _ _ => ⟨fun _ _ => ⟨fun _ _ => ⟨fun _ _ => ⟨fun _ _ => ⟨fun secrets _ => ?_,
    fun _ _ => .rfl⟩, fun _ _ => .rfl⟩, fun _ => .rfl⟩, fun _ => .rfl⟩, fun _ => .rfl⟩,
    fun _ _ => .rfl⟩
  refine Act.wp_mono (flushOps_ids _ _) (fun _ ch₁ h₁ => ?_) fun _ _ h => h
  exact Act.wp_mono (maybeSendCommitmentSigned_ids ch₁) (fun _ _ => SameIds.trans h₁)
    fun _ _ => SameIds.trans h₁

theorem onCommitmentSigned_ids (msg : Wire.CommitmentSigned) :
    KeepsIds (onCommitmentSigned C msg) ch := by
  refine Act.wp_mono (onCommitmentSigned_spec msg ch) ?_ ?_
  · rintro _ _ ⟨b, -, -, -, -, -, rfl⟩
    exact .rfl
  · rintro _ _ rfl
    exact .rfl

theorem onDisconnect_ids : KeepsIds onDisconnect ch := by
  refine Act.wp_mono (onDisconnect_spec ch) ?_ ?_
  · rintro _ _ ⟨rs, -, rfl⟩
    exact .rfl
  · rintro _ _ ⟨-, rfl⟩
    exact .rfl

/-! ## Closing -/

theorem sendShutdown_ids (script : Script) : KeepsIds (sendShutdown script) ch := by
  simp only [sendShutdown, KeepsIds, Act.wp_bind, Act.wp_get, Act.wp_lift, Act.wp_set, Act.wp_pure]
  exact ⟨fun _ _ => ⟨fun _ _ => ⟨fun _ _ => .rfl, fun _ _ => .rfl⟩, fun _ _ => .rfl⟩,
    fun _ _ => .rfl⟩

theorem onShutdown_ids (msg : Wire.Shutdown) (ourScript : Script) :
    KeepsIds (onShutdown msg ourScript) ch := by
  simp only [onShutdown, KeepsIds, Act.wp_bind, Act.wp_get, Act.wp_lift, Act.wp_set, Act.wp_pure,
    Act.wp_ite, Act.wp_map]
  refine ⟨fun _ _ => ⟨fun _ _ => ⟨fun _ => .rfl, fun _ => ?_⟩, fun _ _ => .rfl⟩, fun _ _ => .rfl⟩
  exact sendShutdown_ids _ ourScript

theorem maybeSendClosingSigned_ids (feerate : FeeRatePerKw) :
    KeepsIds (maybeSendClosingSigned C feerate) ch := by
  simp only [maybeSendClosingSigned, KeepsIds, Act.wp_bind, Act.wp_get, Act.wp_lift, Act.wp_ite,
    Act.wp_expect, Act.wp_set, Act.wp_pure]
  exact ⟨fun _ => .rfl, fun _ => ⟨fun _ _ => ⟨fun _ _ => .rfl, fun _ _ => .rfl⟩, fun _ => .rfl⟩⟩

theorem finalizeClosing_ids (fee : Nat) (sig : Signature) :
    KeepsIds (finalizeClosing C fee sig) ch := by
  simp only [finalizeClosing, KeepsIds, Act.wp_bind, Act.wp_get, Act.wp_lift, Act.wp_set,
    Act.wp_pure]
  exact ⟨fun _ _ => ⟨fun _ _ => .rfl, fun _ _ => .rfl⟩, fun _ _ => .rfl⟩

theorem acceptClosingFee_ids (fee : Nat) (sig : Signature) (range : Option (Nat × Nat)) :
    KeepsIds (acceptClosingFee C fee sig range) ch := by
  refine keepsIds_bind (finalizeClosing_ids ch fee sig) fun tx ch₁ => ?_
  simp only [KeepsIds, Act.wp_bind, Act.wp_get, Act.wp_lift, Act.wp_pure]
  exact ⟨fun _ _ => .rfl, fun _ _ => .rfl⟩

theorem proposeClosingFee_ids (fee : Nat) (range : Option (Nat × Nat)) :
    KeepsIds (proposeClosingFee C fee range) ch := by
  simp only [proposeClosingFee, KeepsIds, Act.wp_bind, Act.wp_get, Act.wp_lift, Act.wp_pure]
  exact ⟨fun _ _ => .rfl, fun _ _ => .rfl⟩

theorem negotiateInRange_ids (msg : Wire.ClosingSigned) (bounds : Nat × Nat × Nat)
    (range : Wire.ClosingSignedFeeRange) : KeepsIds (negotiateInRange C msg bounds range) ch := by
  simp only [negotiateInRange, KeepsIds, Act.wp_bind, Act.wp_get, Act.wp_lift, Act.wp_ite,
    Act.wp_modify, Act.wp_pure]
  refine ⟨fun _ _ => ⟨fun _ => ⟨fun _ _ => ?_, fun _ _ => .rfl⟩, fun _ => ?_⟩, fun _ _ => .rfl⟩
  · exact Act.wp_mono (acceptClosingFee_ids ch _ _ _) (fun _ _ h => h) fun _ _ h => h
  · rcases ch.lastClosingFeeProposal with _ | sent
    · simp only [Act.wp_bind, Act.wp_expect, Act.wp_modify, Act.wp_ite]
      refine ⟨fun fee _ => ⟨fun _ => ?_, fun _ => ?_⟩, fun _ => .rfl⟩
      · exact acceptClosingFee_ids _ _ _ _
      · exact proposeClosingFee_ids _ _ _
    · simp only [Act.wp_bind, Act.wp_lift, Act.wp_pure]
      exact ⟨fun _ _ => finalizeClosing_ids ch _ _, fun _ _ => .rfl⟩

theorem negotiateLegacy_ids (msg : Wire.ClosingSigned) (ourFee : Nat) :
    KeepsIds (negotiateLegacy C msg ourFee) ch := by
  simp only [negotiateLegacy, KeepsIds, Act.wp_bind, Act.wp_get, Act.wp_set, Act.wp_ite]
  exact ⟨fun _ => acceptClosingFee_ids _ _ _ _, fun _ => proposeClosingFee_ids _ _ _⟩

theorem onClosingSigned_ids (msg : Wire.ClosingSigned) (feerate : FeeRatePerKw) :
    KeepsIds (onClosingSigned C msg feerate) ch := by
  simp only [onClosingSigned, KeepsIds, Act.wp_bind, Act.wp_get, Act.wp_lift, Act.wp_set,
    Act.wp_ite, Act.wp_expect, Act.wp_pure]
  refine ⟨fun _ _ => ⟨fun _ _ => ⟨fun _ => ?_, fun _ => ⟨fun bounds _ => ?_, fun _ => .rfl⟩⟩,
    fun _ _ => .rfl⟩, fun _ _ => .rfl⟩
  · exact finalizeClosing_ids _ _ _
  · rcases msg.feeRange with _ | range
    · exact negotiateLegacy_ids _ _ _
    · exact negotiateInRange_ids _ _ _ _

/-! ## Calls -/

/-- Only the calls that bind the funding outpoint change the ids. -/
theorem perform_ids {i : Input} (hi : ¬ i.Funds) : KeepsIds (perform C i) ch := by
  cases i with
  | createFunding | fundingCreated => exact absurd trivial hi
  | acceptChannel msg =>
    simp only [perform, onAcceptChannel, KeepsIds, Act.wp_bind, Act.wp_get, Act.wp_lift, Act.wp_set]
    exact ⟨fun _ _ => .rfl, fun _ _ => .rfl⟩
  | channelReestablish msg =>
    simp only [perform, KeepsIds, Act.wp_bind, Act.wp_get, Act.wp_lift]
    exact ⟨fun _ _ => .rfl, fun _ _ => .rfl⟩
  | fundingSigned msg => exact onFundingSigned_ids ch msg
  | confirmFunding scid => exact confirmFunding_ids ch scid
  | channelReady msg => exact onChannelReady_ids ch msg
  | sendAddHtlc a h c o s => exact sendAddHtlc_ids ch a h c o s
  | sendFulfillHtlc id p =>
    show KeepsIds (sendFulfillHtlc C id p) ch
    exact sendRemoval_ids ch _ _ _ _ _
  | sendFailHtlc id r =>
    show KeepsIds (sendFailHtlc id r) ch
    exact sendRemoval_ids ch _ _ _ _ _
  | sendFailMalformedHtlc id s c =>
    show KeepsIds (sendFailMalformedHtlc id s c) ch
    exact sendRemoval_ids ch _ _ _ _ _
  | sendUpdateFee feerate =>
    simp only [perform, sendUpdateFee, KeepsIds, Act.wp_bind, Act.wp_get, Act.wp_lift, Act.wp_set,
      Act.wp_pure]
    exact ⟨fun _ _ => ⟨fun _ _ => ⟨fun _ _ => ⟨fun _ _ => .rfl, fun _ _ => .rfl⟩,
      fun _ _ => .rfl⟩, fun _ _ => .rfl⟩, fun _ _ => .rfl⟩
  | sendCommitmentSigned => exact sendCommitmentSigned_ids ch
  | updateAddHtlc msg =>
    simp only [perform, onUpdateAddHtlc, KeepsIds, Act.wp_bind, Act.wp_get, Act.wp_lift, Act.wp_set]
    exact ⟨fun _ _ => .rfl, fun _ _ => .rfl⟩
  | updateFulfillHtlc msg => exact onRemoval_ids ch msg.id (.fulfill msg.paymentPreimage) _
  | updateFailHtlc msg => exact onRemoval_ids ch msg.id (.fail msg.reason) _
  | updateFailMalformedHtlc msg =>
    simp only [perform, onUpdateFailMalformedHtlc, KeepsIds, Act.wp_bind, Act.wp_lift]
    exact ⟨fun _ _ => onRemoval_ids ch _ _ _, fun _ _ => .rfl⟩
  | updateFee msg =>
    simp only [perform, onUpdateFee, KeepsIds, Act.wp_bind, Act.wp_get, Act.wp_lift, Act.wp_set]
    exact ⟨fun _ _ => ⟨fun _ _ => ⟨fun _ _ => .rfl, fun _ _ => .rfl⟩, fun _ _ => .rfl⟩,
      fun _ _ => .rfl⟩
  | commitmentSigned msg => exact onCommitmentSigned_ids ch msg
  | revokeAndAck msg => exact onRevokeAndAck_ids ch msg
  | disconnect => exact onDisconnect_ids ch
  | sendShutdown script => exact sendShutdown_ids ch script
  | shutdown msg ours => exact onShutdown_ids ch msg ours
  | maybeSendClosingSigned f => exact maybeSendClosingSigned_ids ch f
  | closingSigned msg f => exact onClosingSigned_ids ch msg f

/-- No move goes back in a channel's life. -/
theorem Move.rank {ch ch' : Channel} (h : Move C ch ch') : ch.state.rank ≤ ch'.state.rank := by
  cases h with
  | signInitial _ _ _ h₀ => rw [h₀]; exact Nat.zero_le _
  | admin a ha =>
    rcases ha with h | h
    · exact (congrArg ChannelState.rank h).symm.le
    · exact h.2.le
  | _ => exact le_rfl

theorem Moves.rank {ch ch' : Channel} (h : Moves C ch ch') : ch.state.rank ≤ ch'.state.rank :=
  h.invariant (I := fun c => ch.state.rank ≤ c.state.rank) (fun _ _ hm h => h.trans hm.rank) le_rfl

/-- No call goes back in a channel's life. -/
theorem perform_rank (i : Input) :
    Act.wp (perform C i) ch (fun _ ch' => ch.state.rank ≤ ch'.state.rank)
      (fun _ ch' => ch.state.rank ≤ ch'.state.rank) := by
  by_cases hi : i.Plain
  · exact Act.wp_mono (perform_moves hi ch) (fun _ _ h => h.rank) fun _ _ h => h.rank
  · cases i with
    | commitmentSigned msg =>
      refine Act.wp_mono (onCommitmentSigned_spec msg ch) ?_ ?_
      · rintro _ _ ⟨b, -, -, -, -, -, rfl⟩
        exact le_rfl
      · rintro _ _ rfl
        exact le_rfl
    | disconnect =>
      refine Act.wp_mono (onDisconnect_spec ch) ?_ ?_
      · rintro _ _ ⟨rs, -, rfl⟩
        exact le_rfl
      · rintro _ _ ⟨-, rfl⟩
        exact le_rfl
    | _ => exact absurd trivial hi

/-- What a call that bound the funding outpoint left. -/
structure Bound (ch ch' : Channel) (funding : OutPoint) : Prop where
  before : ch.state.rank = 0
  after : 0 < ch'.state.rank
  temporary : ch'.temporaryChannelId = ch.temporaryChannelId
  outpoint : ch'.fundingOutpoint = some funding
  id : ch'.channelId = channelIdFromFunding funding.txid funding.vout

/-- With the peer's keys and the outpoint known, building a commitment can only panic. -/
theorem buildCounterpartyCommitmentAt_error {cp : ChannelPublicKeys} {funding : OutPoint}
    {number : Nat} {point : PublicKey} {e : Fault ChannelError}
    (hcp : ch.counterpartyPubkeys = some cp) (hf : ch.fundingOutpoint = some funding)
    (h : ch.buildCounterpartyCommitmentAt C number point = .error e) : e = .panic := by
  simp only [buildCounterpartyCommitmentAt, counterparty, hcp, hf, Fault.okOr, bind, Except.bind] at h
  cases hk : TxCreationKeys.derive C point cp ch.holderPubkeys with
  | none =>
    rw [hk] at h
    exact (Except.error.inj h).symm
  | some keys =>
    rw [hk] at h
    dsimp only [Fault.expect] at h
    cases hb : buildCommitmentTx C (ch.counterpartyParams keys funding number) with
    | none =>
      rw [hb] at h
      exact (Except.error.inj h).symm
    | some built =>
      rw [hb] at h
      cases h

theorem signCounterpartyCommitmentTx_ok {cp : ChannelPublicKeys} (built : BuiltCommitmentTx)
    (hcp : ch.counterpartyPubkeys = some cp) :
    ∃ sig, ch.signCounterpartyCommitmentTx C built = .ok sig := by
  simp [signCounterpartyCommitmentTx, fundingSighash, counterparty, hcp, Fault.okOr, bind,
    Except.bind, pure, Except.pure]

/-- With the peer's keys and the outpoint known, signing commitment 0 can only panic. -/
theorem signInitialCounterpartyCommitment_error {cp : ChannelPublicKeys} {funding : OutPoint}
    (hcp : ch.counterpartyPubkeys = some cp) (hf : ch.fundingOutpoint = some funding) :
    Act.wp (signInitialCounterpartyCommitment C) ch (fun _ _ => True) (fun e _ => e = .panic) := by
  simp only [signInitialCounterpartyCommitment, Act.wp_bind, Act.wp_get, Act.wp_expect, Act.wp_lift,
    Act.wp_set, Act.wp_pure]
  refine ⟨fun point _ => ⟨fun b _ => ⟨fun _ _ => trivial, fun e he => ?_⟩, fun e he => ?_⟩,
    fun _ => trivial⟩
  · obtain ⟨sig, hsig⟩ := signCounterpartyCommitmentTx_ok ch b.built hcp
    rw [hsig] at he
    cases he
  · exact buildCounterpartyCommitmentAt_error ch hcp hf he

/-- `funding_created` binds the outpoint, or changes nothing. -/
theorem fundingCreated_ids (txid : Txid) (index : Nat) :
    Act.wp (fundingCreated C txid index) ch (fun _ ch' => Bound ch ch' ⟨txid, index⟩)
      (fun e ch' => ∀ e', e = .err e' → ch' = ch) := by
  simp only [fundingCreated, Act.wp_bind, Act.wp_get, Act.wp_lift, Act.wp_set, Act.wp_modify,
    Act.wp_pure, Fault.require_eq_ok]
  refine ⟨fun _ hst => ⟨fun _ hcp => ?_, fun _ _ _ _ => trivial⟩, fun _ _ _ _ => trivial⟩
  obtain ⟨cp, hcp⟩ := Option.isSome_iff_exists.1 hcp
  refine Act.wp_mono (Act.wp_and (signInitialCounterpartyCommitment_spec _)
    (signInitialCounterpartyCommitment_error _ hcp rfl)) ?_ ?_
  · rintro _ _ ⟨⟨point, b, -, -, rfl⟩, -⟩
    exact ⟨by rw [hst.1]; rfl, Nat.one_pos, rfl, rfl, rfl⟩
  · rintro e _ ⟨-, rfl⟩ e' he
    cases he

/-- `on_funding_created` in a channel that awaits it: the outpoint it binds, before the checks. -/
def bound (msg : Wire.FundingCreated) : Channel :=
  { ch with
    fundingOutpoint := some ⟨msg.fundingTxid, msg.fundingOutputIndex⟩
    channelId := channelIdFromFunding msg.fundingTxid msg.fundingOutputIndex }

/-- The peer's signature over our commitment 0 is good. -/
def FundingVerifies (C : Crypto) (msg : Wire.FundingCreated) : Prop :=
  ((ch.bound msg).buildHolderCommitmentAt C 0 >>= fun b =>
    (ch.bound msg).verifyCounterpartyFundingSig C b.built msg.signature) = .ok ()

instance (C : Crypto) (msg : Wire.FundingCreated) : Decidable (ch.FundingVerifies C msg) :=
  inferInstanceAs (Decidable (_ = _))

/-- `on_funding_created` binds the outpoint, or changes nothing if the signature is good. -/
theorem onFundingCreated_ids (msg : Wire.FundingCreated)
    (h : ch.state = .acceptSent → ch.FundingVerifies C msg) :
    Act.wp (onFundingCreated C msg) ch
      (fun _ ch' => Bound ch ch' ⟨msg.fundingTxid, msg.fundingOutputIndex⟩)
      (fun e ch' => ∀ e', e = .err e' → ch' = ch) := by
  simp only [onFundingCreated, storeInitialHolderCommitment, Act.wp_bind, Act.wp_get, Act.wp_lift,
    Act.wp_set, Act.wp_modify, Act.wp_pure, Fault.require_eq_ok]
  refine ⟨fun _ hst => ?_, fun _ _ _ _ => trivial⟩
  obtain ⟨b, hb, hv⟩ := Fault.bind_eq_ok.1 (h hst)
  obtain ⟨cp, hcp⟩ : ∃ cp, ch.counterpartyPubkeys = some cp := by
    simp only [bound, buildHolderCommitmentAt, counterparty, Fault.bind_eq_ok, Fault.okOr_eq_ok] at hb
    exact ⟨_, hb.choose_spec.1⟩
  refine ⟨fun b' hb' => ⟨fun _ _ => ?_, fun e he => ?_⟩, fun e he => ?_⟩
  · refine Act.wp_mono (Act.wp_and (signInitialCounterpartyCommitment_spec _)
      (signInitialCounterpartyCommitment_error _ hcp rfl)) ?_ ?_
    · rintro _ _ ⟨⟨point, b, -, -, rfl⟩, -⟩
      exact ⟨by rw [hst]; rfl, Nat.two_pos, rfl, rfl, rfl⟩
    · rintro e _ ⟨-, rfl⟩ e' he
      cases he
  · obtain rfl := Except.ok.inj (hb.symm.trans hb')
    exact absurd (hv.symm.trans he) (by simp)
  · exact absurd (hb.symm.trans he) (by simp)

end

end Channel
