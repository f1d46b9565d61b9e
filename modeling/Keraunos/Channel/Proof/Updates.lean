import Keraunos.Channel.Proof.Calls

/-!
# Which steps change what a channel has to commit

The opening, the shutdown, the closing and a reconnection leave the commitment dance alone
(`perform_dance`). `Updated C ch i ch'` lists what the other inputs do to them, while the
connection lasts: adds and fee changes come from their own inputs and from the flush only
(`perform_updated`).
-/

open Bitcoin Commitment

namespace Channel

variable {C : Crypto} {ch ch' ch₀ : Channel}

/-- What the updates of both sides change. -/
structure Books where
  role : ChannelRole
  htlcs : List Htlc
  toHolderMsat : Msat
  toCounterpartyMsat : Msat
  feerateHolder : FeeRatePerKw
  feerateCounterparty : FeeRatePerKw
  pendingFeeAck : Option FeeRatePerKw
  pending : Option PendingCounterpartyCommitment
  nextHolderHtlcId : Nat

def books (ch : Channel) : Books :=
  ⟨ch.role, ch.htlcs, ch.toHolderMsat, ch.toCounterpartyMsat, ch.feerateHolder,
    ch.feerateCounterparty, ch.pendingFeeAck, ch.pendingCounterpartyCommitment, ch.nextHolderHtlcId⟩

/-- What the commitment dance changes. -/
structure Dance extends Books where
  nextCounterpartyHtlcId : Nat
  counterpartyDirty : Bool
  awaitingRaa : Bool
  holdingCell : List HoldingCellOp
  counterpartyCommitmentNumber : Nat

def dance (ch : Channel) : Dance :=
  ⟨ch.books, ch.nextCounterpartyHtlcId, ch.counterpartyDirty, ch.awaitingRaa, ch.holdingCell,
    ch.counterpartyCommitmentNumber⟩

/-- Opening, closing and reconnection. -/
def Input.Administrative : Input → Prop
  | .acceptChannel _ | .createFunding .. | .fundingCreated _ | .fundingSigned _ | .confirmFunding _
  | .channelReady _ | .channelReestablish _ | .sendShutdown _ | .shutdown ..
  | .maybeSendClosingSigned _ | .closingSigned .. => True
  | _ => False

/-- Whatever the outcome, `x` keeps the dance of `ch`. -/
abbrev KeepsDance {α : Type} (x : ChannelAct α) (s ch : Channel) : Prop :=
  x.wp s (fun _ ch' => ch'.dance = ch.dance) fun _ ch' => ch'.dance = ch.dance

/-! ## Opening -/

theorem storeInitialHolderCommitment_dance (sig : Signature) {s : Channel}
    (h : s.dance = ch.dance) : KeepsDance (storeInitialHolderCommitment C sig) s ch := by
  refine Act.wp_mono (storeInitialHolderCommitment_spec sig s) ?_ ?_
  · intro _ _ hstore
    obtain ⟨b, -, -, rfl⟩ := hstore
    exact h
  · intro _ _ heq
    exact heq ▸ h

theorem signInitialCounterpartyCommitment_dance {s : Channel} (h : s.dance = ch.dance) :
    KeepsDance (signInitialCounterpartyCommitment C) s ch := by
  refine Act.wp_mono (signInitialCounterpartyCommitment_spec s) ?_ ?_
  · intro _ _ hsign
    obtain ⟨point, b, -, -, rfl⟩ := hsign
    exact h
  · intro _ _ heq
    exact heq ▸ h

/-! ## Bookkeeping -/

/-- Whatever the outcome, `x` changes bookkeeping fields of `ch` only. -/
abbrev KeepsBooks {α : Type} (x : ChannelAct α) (s ch : Channel) : Prop :=
  x.wp s (fun _ ch' => ch' = ch.withAdmin ch'.adminOf) fun _ ch' => ch' = ch.withAdmin ch'.adminOf

theorem KeepsBooks.dance {α : Type} {x : ChannelAct α} {s : Channel} (h : KeepsBooks x s ch) :
    KeepsDance x s ch :=
  Act.wp_mono h (fun _ _ h => (congrArg Channel.dance h :)) fun _ _ h => (congrArg Channel.dance h :)

theorem maybeBecomeNormal_books (ch : Channel) :
    ch.maybeBecomeNormal = ch.withAdmin ch.maybeBecomeNormal.adminOf := by
  unfold maybeBecomeNormal
  split <;> rfl

theorem confirmFunding_books (scid : ShortChannelId) (ch : Channel) :
    KeepsBooks (confirmFunding scid) ch ch := by
  simp only [KeepsBooks, confirmFunding, Act.wp_bind, Act.wp_get, Act.wp_lift, Act.wp_ite, Act.wp_set,
    Act.wp_pure]
  exact ⟨fun _ _ => ⟨fun _ => rfl, fun _ => maybeBecomeNormal_books _⟩, fun _ _ => rfl⟩

theorem sendShutdown_books (script : Script) (ch : Channel) :
    KeepsBooks (sendShutdown script) ch ch := by
  simp only [KeepsBooks, sendShutdown, Act.wp_bind, Act.wp_get, Act.wp_lift, Act.wp_set,
    Act.wp_pure]
  exact ⟨fun _ _ => ⟨fun _ _ => ⟨fun _ _ => rfl, fun _ _ => rfl⟩, fun _ _ => rfl⟩, fun _ _ => rfl⟩

theorem onShutdown_books (msg : Wire.Shutdown) (ours : Script) (ch : Channel) :
    KeepsBooks (onShutdown msg ours) ch ch := by
  simp only [KeepsBooks, onShutdown, Act.wp_bind, Act.wp_get, Act.wp_lift, Act.wp_set, Act.wp_ite,
    Act.wp_map, Act.wp_pure]
  exact ⟨fun _ _ => ⟨fun _ _ => ⟨fun _ => rfl, fun _ => sendShutdown_books ours _⟩, fun _ _ => rfl⟩,
    fun _ _ => rfl⟩

theorem maybeSendClosingSigned_books (feerate : FeeRatePerKw) (ch : Channel) :
    KeepsBooks (maybeSendClosingSigned C feerate) ch ch := by
  simp only [KeepsBooks, maybeSendClosingSigned, Act.wp_bind, Act.wp_get, Act.wp_lift, Act.wp_ite,
    Act.wp_expect, Act.wp_set, Act.wp_pure]
  exact ⟨fun _ => rfl, fun _ => ⟨fun _ _ => ⟨fun _ _ => rfl, fun _ _ => rfl⟩, fun _ => rfl⟩⟩

theorem finalizeClosing_books (fee : Nat) (sig : Signature) (ch : Channel) :
    KeepsBooks (finalizeClosing C fee sig) ch ch := by
  simp only [KeepsBooks, finalizeClosing, Act.wp_bind, Act.wp_get, Act.wp_lift, Act.wp_set,
    Act.wp_pure]
  exact ⟨fun _ _ => ⟨fun _ _ => rfl, fun _ _ => rfl⟩, fun _ _ => rfl⟩

theorem acceptClosingFee_books (fee : Nat) (sig : Signature) (range : Option (Nat × Nat))
    (ch : Channel) : KeepsBooks (acceptClosingFee C fee sig range) ch ch := by
  simp only [KeepsBooks, acceptClosingFee, Act.wp_bind, Act.wp_get, Act.wp_lift, Act.wp_pure]
  exact Act.wp_mono (finalizeClosing_books fee sig ch) (fun _ _ h => ⟨fun _ _ => h, fun _ _ => h⟩)
    fun _ _ h => h

theorem proposeClosingFee_books (fee : Nat) (range : Option (Nat × Nat)) (ch : Channel) :
    KeepsBooks (proposeClosingFee C fee range) ch ch := by
  simp only [KeepsBooks, proposeClosingFee, Act.wp_bind, Act.wp_get, Act.wp_lift, Act.wp_pure]
  exact ⟨fun _ _ => rfl, fun _ _ => rfl⟩

theorem negotiateInRange_books (msg : Wire.ClosingSigned) (bounds : Nat × Nat × Nat)
    (range : Wire.ClosingSignedFeeRange) (ch : Channel) :
    KeepsBooks (negotiateInRange C msg bounds range) ch ch := by
  simp only [KeepsBooks, negotiateInRange, Act.wp_bind, Act.wp_get, Act.wp_lift, Act.wp_ite,
    Act.wp_modify, Act.wp_pure]
  refine ⟨fun _ _ => ⟨fun _ => ⟨fun _ _ => ?_, fun _ _ => rfl⟩, fun _ => ?_⟩, fun _ _ => rfl⟩
  · exact Act.wp_mono (acceptClosingFee_books _ _ _ ch) (fun _ _ h => (congrArg
      (fun c : Channel => { c with lastClosingFeeProposal := some msg.feeSatoshis }) h :))
      fun _ _ h => h
  cases ch.lastClosingFeeProposal with
  | some sent =>
    simp only [Act.wp_bind, Act.wp_lift, Act.wp_pure]
    exact ⟨fun _ _ => finalizeClosing_books _ _ ch, fun _ _ => rfl⟩
  | none =>
    simp only [Act.wp_bind, Act.wp_expect, Act.wp_modify, Act.wp_ite]
    exact ⟨fun fee _ => ⟨fun _ => acceptClosingFee_books _ _ _ _, fun _ =>
      proposeClosingFee_books _ _ _⟩, fun _ => rfl⟩

theorem negotiateLegacy_books (msg : Wire.ClosingSigned) (ourFee : Nat) (ch : Channel) :
    KeepsBooks (negotiateLegacy C msg ourFee) ch ch := by
  simp only [KeepsBooks, negotiateLegacy, Act.wp_bind, Act.wp_get, Act.wp_set, Act.wp_ite]
  exact ⟨fun _ => acceptClosingFee_books _ _ _ _, fun _ => proposeClosingFee_books _ _ _⟩

theorem onClosingSigned_books (msg : Wire.ClosingSigned) (feerate : FeeRatePerKw) (ch : Channel) :
    KeepsBooks (onClosingSigned C msg feerate) ch ch := by
  simp only [KeepsBooks, onClosingSigned, Act.wp_bind, Act.wp_get, Act.wp_lift, Act.wp_set,
    Act.wp_ite, Act.wp_expect, Act.wp_pure]
  refine ⟨fun _ _ => ⟨fun _ _ => ⟨fun _ => finalizeClosing_books _ _ _, fun _ =>
    ⟨fun bounds _ => ?_, fun _ => rfl⟩⟩, fun _ _ => rfl⟩, fun _ _ => rfl⟩
  cases msg.feeRange with
  | some range => exact negotiateInRange_books msg bounds range _
  | none => exact negotiateLegacy_books msg bounds.1 _

/-! ## Administration -/

theorem perform_dance {i : Input} (hi : i.Administrative) (ch : Channel) :
    KeepsDance (perform C i) ch ch := by
  cases i with
  | acceptChannel msg =>
    simp only [KeepsDance, perform, onAcceptChannel, Act.wp_bind, Act.wp_get, Act.wp_lift,
      Act.wp_set]
    exact ⟨fun _ _ => rfl, fun _ _ => trivial⟩
  | createFunding txid index =>
    simp only [KeepsDance, perform, fundingCreated, Act.wp_bind, Act.wp_get, Act.wp_lift,
      Act.wp_set, Act.wp_modify, Act.wp_pure]
    exact ⟨fun _ _ => ⟨fun _ _ => signInitialCounterpartyCommitment_dance rfl, fun _ _ => trivial⟩,
      fun _ _ => trivial⟩
  | fundingCreated msg =>
    simp only [KeepsDance, perform, onFundingCreated, Act.wp_bind, Act.wp_get, Act.wp_lift,
      Act.wp_set, Act.wp_modify, Act.wp_pure]
    refine ⟨fun _ _ => ?_, fun _ _ => trivial⟩
    exact Act.wp_mono (storeInitialHolderCommitment_dance msg.signature rfl)
      (fun _ _ h => signInitialCounterpartyCommitment_dance h) fun _ _ h => h
  | fundingSigned msg =>
    simp only [KeepsDance, perform, onFundingSigned, Act.wp_bind, Act.wp_get, Act.wp_lift,
      Act.wp_modify]
    exact ⟨fun _ _ => ⟨fun _ _ => storeInitialHolderCommitment_dance msg.signature rfl,
      fun _ _ => trivial⟩, fun _ _ => trivial⟩
  | confirmFunding scid => exact (confirmFunding_books scid ch).dance
  | channelReady msg =>
    simp only [KeepsDance, perform, onChannelReady, Act.wp_bind, Act.wp_get, Act.wp_lift,
      Act.wp_ite, Act.wp_set, Act.wp_pure]
    exact ⟨fun _ _ => ⟨fun _ => trivial, fun _ => (congrArg Channel.dance (maybeBecomeNormal_books _) :)⟩,
      fun _ _ => trivial⟩
  | channelReestablish msg =>
    simp only [KeepsDance, perform, Act.wp_bind, Act.wp_get, Act.wp_lift]
    exact ⟨fun _ _ => trivial, fun _ _ => trivial⟩
  | sendShutdown script => exact (sendShutdown_books script ch).dance
  | shutdown msg ours => exact (onShutdown_books msg ours ch).dance
  | maybeSendClosingSigned feerate => exact (maybeSendClosingSigned_books feerate ch).dance
  | closingSigned msg feerate => exact (onClosingSigned_books msg feerate ch).dance
  | _ => exact hi.elim

/-! ## Updates -/

/-- What a step makes of a channel while the connection lasts. -/
inductive Updated (C : Crypto) (ch : Channel) : Input → Channel → Prop
  | same {i : Input} {ch' : Channel} : i.Administrative → QuietMoves C ch ch' →
      ch'.books = ch.books → Updated C ch i ch'
  | refused {i : Input} : Updated C ch i ch
  | parked {i : Input} (op : HoldingCellOp) : ch.awaitingRaa = true →
      Updated C ch i { ch with holdingCell := ch.holdingCell ++ [op] }
  | offered {amountMsat : Msat} {paymentHash : PaymentHash} {cltvExpiry : Nat} {onion : List UInt8}
      {source : HtlcSource} : ch.state = .normal → ch.awaitingRaa = false →
      ch.validateOutboundAdd amountMsat cltvExpiry = .ok () →
      Updated C ch (.sendAddHtlc amountMsat paymentHash cltvExpiry onion source)
        (ch.offer amountMsat paymentHash cltvExpiry onion source)
  | resolvedInbound {i : Input} {id : HtlcId} {r : HtlcResolution} {h : Htlc} :
      ch.awaitingRaa = false → ch.inboundCommitted id = .ok h →
      Updated C ch i (ch.resolveInbound id r)
  | changedFee {feerate : FeeRatePerKw} : ch.role = .opener → ch.state = .normal →
      ch.awaitingRaa = false → 253 ≤ feerate → Updated C ch (.sendUpdateFee feerate)
        { ch with feerateCounterparty := feerate, counterpartyDirty := true }
  | received {msg : Wire.UpdateAddHtlc} : ch.checkUpdateAddHtlc msg = .ok () →
      Updated C ch (.updateAddHtlc msg) (ch.receive msg)
  | resolvedOutbound {i : Input} {id : HtlcId} {r : HtlcResolution} {h : Htlc} :
      ch.outboundCommitted id = .ok h → Updated C ch i (ch.resolveOutbound id r)
  | receivedFee {msg : Wire.UpdateFee} : ch.role ≠ .opener → 253 ≤ msg.feeratePerKw →
      msg.feeratePerKw ≤ 10000000 → Updated C ch (.updateFee msg)
        { ch with feerateHolder := msg.feeratePerKw, pendingFeeAck := some msg.feeratePerKw }
  | signed {m : Wire.CommitmentSigned} {point : PublicKey} {b : Built} : Signs C ch m point b →
      Updated C ch .sendCommitmentSigned (ch.sign point b)
  | accepted {msg : Wire.CommitmentSigned} {b : Built} :
      ch.state = .normal ∨ ch.state = .shuttingDown →
      ch.buildHolderCommitmentAt C (ch.holderCommitmentNumber + 1) = .ok b →
      Updated C ch (.commitmentSigned msg)
        (ch.acceptCommitment (ch.holderCommitmentNumber + 1) b msg).gcHtlcs
  | revoked {msg : Wire.RevokeAndAck} {pending : PendingCounterpartyCommitment}
      {secrets : Shachain.SecretStore} {os : List RaaOutcome} {ch₁ ch' : Channel}
      {cs : Option Wire.CommitmentSigned} : ch.awaitingRaa = true →
      ch.pendingCounterpartyCommitment = some pending →
      FlushesOps C (ch.revoked pending secrets msg.nextPerCommitmentPoint) ch.holdingCell os ch₁ →
      MaySign C ch₁ cs ch' → Updated C ch (.revokeAndAck msg) ch'

/-- Every outcome of `x`, a panic apart, is an update. -/
abbrev UpdatesBy (C : Crypto) {α : Type} (x : ChannelAct α) (ch : Channel) (i : Input) : Prop :=
  x.wp ch (fun _ ch' => Updated C ch i ch') fun e ch' => ∀ e', e = .err e' → Updated C ch i ch'

theorem sendAddHtlc_updates (amountMsat : Msat) (paymentHash : PaymentHash) (cltvExpiry : Nat)
    (onion : List UInt8) (source : HtlcSource) (ch : Channel) :
    UpdatesBy C (sendAddHtlc amountMsat paymentHash cltvExpiry onion source) ch
      (.sendAddHtlc amountMsat paymentHash cltvExpiry onion source) := by
  refine Act.wp_mono (sendAddHtlc_spec _ _ _ _ _ ch) ?_ fun _ _ heq _ _ => heq ▸ .refused
  intro _ _ h
  rcases h with ⟨ha, -, rfl⟩ | ⟨ha, hst, hv, -, rfl⟩
  · exact .parked _ ha
  · exact .offered hst ha hv

theorem sendRemoval_updates {M : Type} (op : HoldingCellOp) (id : HtlcId) (r : HtlcResolution)
    (check : Htlc → ChannelResult Unit) (msg : ChannelId → M) (ch : Channel) (i : Input) :
    UpdatesBy C (sendRemoval op id r check msg) ch i := by
  refine Act.wp_mono (sendRemoval_spec op id r check msg ch) ?_ fun _ _ heq _ _ => heq ▸ .refused
  intro _ _ h
  rcases h with ⟨ha, -, rfl⟩ | ⟨ha, -, x, hx, -, rfl⟩
  · exact .parked _ ha
  · exact .resolvedInbound ha hx

theorem onRemoval_updates (id : HtlcId) (r : HtlcResolution) (check : Htlc → ChannelResult Unit)
    (ch : Channel) (i : Input) : UpdatesBy C (onRemoval id r check) ch i := by
  refine Act.wp_mono (onRemoval_spec id r check ch) ?_ ?_
  · intro _ _ h
    obtain ⟨x, hx, -, -, -, rfl⟩ := h
    exact .resolvedOutbound hx
  · intro e ch' h e' he
    rcases h with rfl | ⟨hp, -⟩
    · exact .refused
    · cases he.symm.trans hp

theorem sendUpdateFee_updates (feerate : FeeRatePerKw) (ch : Channel) :
    UpdatesBy C (sendUpdateFee feerate) ch (.sendUpdateFee feerate) := by
  simp only [UpdatesBy, sendUpdateFee, Act.wp_bind, Act.wp_get, Act.wp_lift, Act.wp_set,
    Act.wp_pure, Fault.require_eq_ok]
  refine ⟨fun _ hr => ⟨fun _ hst => ⟨fun _ ha => ⟨fun _ hf => ?_, fun _ _ _ _ => .refused⟩,
    fun _ _ _ _ => .refused⟩, fun _ _ _ _ => .refused⟩, fun _ _ _ _ => .refused⟩
  exact .changedFee hr hst (by simpa using ha) hf

theorem onUpdateFee_updates (msg : Wire.UpdateFee) (ch : Channel) :
    UpdatesBy C (onUpdateFee msg) ch (.updateFee msg) := by
  simp only [UpdatesBy, onUpdateFee, Act.wp_bind, Act.wp_get, Act.wp_lift, Act.wp_set,
    Fault.require_eq_ok]
  exact ⟨fun _ hr => ⟨fun _ hlo => ⟨fun _ hhi => .receivedFee hr hlo hhi, fun _ _ _ _ => .refused⟩,
    fun _ _ _ _ => .refused⟩, fun _ _ _ _ => .refused⟩

theorem onRevokeAndAck_updates (huse : InUse ch) (msg : Wire.RevokeAndAck) :
    UpdatesBy C (onRevokeAndAck C msg) ch (.revokeAndAck msg) := by
  refine Act.wp_iff.2 ⟨fun o ch' hok => ?_, fun e ch' herr e' he => ?_⟩
  · obtain ⟨pending, secrets, os, ch₁, ha, hp, hos, hcs, -⟩ :=
      Act.wp_ok (onRevokeAndAck_spec msg ch) hok
    exact .revoked ha hp hos (Act.wp_ok (maybeSendCommitmentSigned_signs ch₁) hcs)
  · subst he
    rw [onRevokeAndAck_refused huse herr]
    exact .refused

/-- Every step of a channel in use that keeps the connection. -/
theorem perform_updated (huse : InUse ch) {i : Input} (hi : i ≠ .disconnect) :
    UpdatesBy C (perform C i) ch i := by
  cases i with
  | disconnect => exact absurd rfl hi
  | sendAddHtlc amount hash cltv onion source => exact sendAddHtlc_updates amount hash cltv onion source ch
  | sendFulfillHtlc id preimage =>
    show UpdatesBy C (sendFulfillHtlc C id preimage) ch _
    exact sendRemoval_updates _ _ _ _ _ ch _
  | sendFailHtlc id reason =>
    show UpdatesBy C (sendFailHtlc id reason) ch _
    exact sendRemoval_updates _ _ _ _ _ ch _
  | sendFailMalformedHtlc id sha code =>
    show UpdatesBy C (sendFailMalformedHtlc id sha code) ch _
    exact sendRemoval_updates _ _ _ _ _ ch _
  | sendUpdateFee feerate => exact sendUpdateFee_updates feerate ch
  | sendCommitmentSigned =>
    refine Act.wp_mono (sendCommitmentSigned_signs ch) ?_ fun _ _ heq _ _ => heq ▸ .refused
    intro m _ h
    obtain ⟨point, b, hs, rfl⟩ := h
    exact .signed hs
  | updateAddHtlc msg =>
    simp only [UpdatesBy, perform, onUpdateAddHtlc, Act.wp_bind, Act.wp_get, Act.wp_lift, Act.wp_set]
    exact ⟨fun _ hc => .received hc, fun _ _ _ _ => .refused⟩
  | updateFulfillHtlc msg =>
    show UpdatesBy C (onUpdateFulfillHtlc C msg) ch _
    exact onRemoval_updates _ _ _ ch _
  | updateFailHtlc msg =>
    show UpdatesBy C (onUpdateFailHtlc msg) ch _
    exact onRemoval_updates _ _ _ ch _
  | updateFailMalformedHtlc msg =>
    simp only [UpdatesBy, perform, onUpdateFailMalformedHtlc, Act.wp_bind, Act.wp_lift]
    exact ⟨fun _ _ => onRemoval_updates _ _ _ ch _, fun _ _ _ _ => .refused⟩
  | updateFee msg => exact onUpdateFee_updates msg ch
  | commitmentSigned msg =>
    refine Act.wp_mono (onCommitmentSigned_spec msg ch) ?_ fun _ _ heq _ _ => heq ▸ .refused
    intro _ _ h
    obtain ⟨b, hst, hb, -, -, -, rfl⟩ := h
    exact .accepted hst hb
  | revokeAndAck msg => exact onRevokeAndAck_updates huse msg
  | _ =>
    refine Act.wp_mono (Act.wp_and (perform_quiet (C := C) ?_ ch) (perform_dance ?_ ch)) ?_ ?_
    · exact trivial
    · exact trivial
    · exact fun _ _ h => .same trivial h.1 (congrArg Dance.toBooks h.2)
    · exact fun _ _ h _ _ => .same trivial h.1 (congrArg Dance.toBooks h.2)

theorem step_updated (huse : InUse ch) {i : Input} (hi : i ≠ .disconnect) :
    Act.Ends (step C i) ch (Updated C ch i) := (Act.wp_map _ _).2 (perform_updated huse hi)

/-! ## What a close has agreed -/

/-- What the closing handlers keep between them. -/
structure CloseTerms where
  holderShutdownScript : Option Script
  counterpartyShutdownScript : Option Script
  shutdownSent : Bool
  shutdownReceived : Bool
  lastClosingFeeProposal : Option Nat
  closingTx : Option Transaction

def closeTerms (ch : Channel) : CloseTerms :=
  ⟨ch.holderShutdownScript, ch.counterpartyShutdownScript, ch.shutdownSent, ch.shutdownReceived,
    ch.lastClosingFeeProposal, ch.closingTx⟩

/-- Nothing is agreed at first. -/
theorem Fresh.closeTerms (h : Fresh C ch) : ch.closeTerms = ⟨none, none, false, false, none, none⟩ := by
  cases h with
  | outbound h =>
    unfold newOutbound at h
    split at h
    · cases h
    · obtain ⟨rfl, -⟩ := Prod.mk.inj (Except.ok.inj h)
      rfl
  | inbound h =>
    obtain ⟨_, -, h⟩ := Fault.bind_eq_ok.1 h
    obtain ⟨rfl, -⟩ := Prod.mk.inj (Except.ok.inj h)
    rfl

theorem FlushesOps.closeTerms {ops : List HoldingCellOp} {os : List RaaOutcome}
    (h : FlushesOps C ch ops os ch') : ch'.closeTerms = ch.closeTerms := by
  induction h with
  | nil => rfl
  | cons hop _ ih =>
    refine ih.trans ?_
    cases hop <;> rfl

/-- Updates of the commitments leave the state and the terms of the close alone. -/
theorem Updated.closeTerms {i : Input} (hu : Updated C ch i ch') (hi : ¬ i.Administrative) :
    ch'.state = ch.state ∧ ch'.closeTerms = ch.closeTerms := by
  cases hu with
  | same hadmin => exact absurd hadmin hi
  | revoked _ _ hos hsign =>
    have hflush := And.intro hos.frame.2.2.1 hos.closeTerms
    cases hsign with
    | none => exact hflush
    | some => exact hflush
  | _ => exact ⟨rfl, rfl⟩

/-- The closing handlers. -/
def Input.Closing : Input → Prop
  | .sendShutdown _ | .shutdown .. | .maybeSendClosingSigned _ | .closingSigned .. => True
  | _ => False

/-- Whatever the outcome, `x` keeps the terms of `ch`. -/
abbrev KeepsCloseTerms {α : Type} (x : ChannelAct α) (s ch : Channel) : Prop :=
  x.wp s (fun _ ch' => ch'.closeTerms = ch.closeTerms) fun _ ch' => ch'.closeTerms = ch.closeTerms

theorem storeInitialHolderCommitment_closeTerms (sig : Signature) {s : Channel}
    (h : s.closeTerms = ch.closeTerms) : KeepsCloseTerms (storeInitialHolderCommitment C sig) s ch := by
  refine Act.wp_mono (storeInitialHolderCommitment_spec sig s) ?_ fun _ _ heq => heq ▸ h
  intro _ _ hstore
  obtain ⟨b, -, -, rfl⟩ := hstore
  exact h

theorem signInitialCounterpartyCommitment_closeTerms {s : Channel} (h : s.closeTerms = ch.closeTerms) :
    KeepsCloseTerms (signInitialCounterpartyCommitment C) s ch := by
  refine Act.wp_mono (signInitialCounterpartyCommitment_spec s) ?_ fun _ _ heq => heq ▸ h
  intro _ _ hsign
  obtain ⟨point, b, -, -, rfl⟩ := hsign
  exact h

theorem maybeBecomeNormal_closeTerms (ch : Channel) : ch.maybeBecomeNormal.closeTerms = ch.closeTerms := by
  unfold maybeBecomeNormal
  split <;> rfl

/-- Opening and reconnection leave the terms of the close alone. -/
theorem perform_closeTerms {i : Input} (hi : i.Administrative) (hc : ¬ i.Closing) (ch : Channel) :
    KeepsCloseTerms (perform C i) ch ch := by
  cases i with
  | acceptChannel msg =>
    simp only [KeepsCloseTerms, perform, onAcceptChannel, Act.wp_bind, Act.wp_get, Act.wp_lift,
      Act.wp_set]
    exact ⟨fun _ _ => rfl, fun _ _ => trivial⟩
  | createFunding txid index =>
    simp only [KeepsCloseTerms, perform, fundingCreated, Act.wp_bind, Act.wp_get, Act.wp_lift,
      Act.wp_set, Act.wp_modify, Act.wp_pure]
    exact ⟨fun _ _ => ⟨fun _ _ => signInitialCounterpartyCommitment_closeTerms rfl, fun _ _ => trivial⟩,
      fun _ _ => trivial⟩
  | fundingCreated msg =>
    simp only [KeepsCloseTerms, perform, onFundingCreated, Act.wp_bind, Act.wp_get, Act.wp_lift,
      Act.wp_set, Act.wp_modify, Act.wp_pure]
    refine ⟨fun _ _ => ?_, fun _ _ => trivial⟩
    exact Act.wp_mono (storeInitialHolderCommitment_closeTerms msg.signature rfl)
      (fun _ _ h => signInitialCounterpartyCommitment_closeTerms h) fun _ _ h => h
  | fundingSigned msg =>
    simp only [KeepsCloseTerms, perform, onFundingSigned, Act.wp_bind, Act.wp_get, Act.wp_lift,
      Act.wp_modify]
    exact ⟨fun _ _ => ⟨fun _ _ => storeInitialHolderCommitment_closeTerms msg.signature rfl,
      fun _ _ => trivial⟩, fun _ _ => trivial⟩
  | confirmFunding scid =>
    simp only [KeepsCloseTerms, perform, confirmFunding, Act.wp_bind, Act.wp_get, Act.wp_lift,
      Act.wp_ite, Act.wp_set, Act.wp_pure]
    exact ⟨fun _ _ => ⟨fun _ => rfl, fun _ => maybeBecomeNormal_closeTerms _⟩, fun _ _ => trivial⟩
  | channelReady msg =>
    simp only [KeepsCloseTerms, perform, onChannelReady, Act.wp_bind, Act.wp_get, Act.wp_lift,
      Act.wp_ite, Act.wp_set, Act.wp_pure]
    exact ⟨fun _ _ => ⟨fun _ => trivial, fun _ => maybeBecomeNormal_closeTerms _⟩, fun _ _ => trivial⟩
  | channelReestablish msg =>
    simp only [KeepsCloseTerms, perform, Act.wp_bind, Act.wp_get, Act.wp_lift]
    exact ⟨fun _ _ => trivial, fun _ _ => trivial⟩
  | sendShutdown | shutdown | maybeSendClosingSigned | closingSigned => exact absurd trivial hc
  | _ => exact hi.elim

/-- Only the closing handlers change the terms of a close. -/
theorem step_closeTerms (huse : InUse ch) {i : Input} (hc : ¬ i.Closing) :
    Act.Ends (step C i) ch fun ch' => ch'.closeTerms = ch.closeTerms := by
  by_cases hi : i.Administrative
  · refine (Act.wp_map _ _).2 (Act.wp_mono (perform_closeTerms hi hc ch) (fun _ _ h => h) ?_)
    exact fun _ _ h _ _ => h
  · by_cases hd : i = .disconnect
    · subst hd
      refine (Act.wp_map _ _).2 (Act.wp_mono (onDisconnect_spec ch) ?_ fun _ _ h => ?_)
      · intro _ _ h
        obtain ⟨rs, -, rfl⟩ := h
        rfl
      · exact fun _ he => nomatch h.1.symm.trans he
    · exact (step_updated huse hd).mono fun _ hu => (hu.closeTerms hi).2

end Channel
