import Keraunos.Channel.Machine
import Keraunos.Commitment.Proof.Number
import Mathlib.Logic.Relation

/-!
# What a step of a channel can do

`Move C ch ch'` lists every elementary change the handlers make, with the guard each is made
under. A step is a sequence of moves (`step_moves`), except that `commitment_signed` and the loss
of the connection are kept apart (`onCommitmentSigned_spec`, `onDisconnect_spec`). An invariant of
a channel is proved once per move.
-/

open Bitcoin Commitment

/-- How far a channel is in its life. -/
def ChannelState.rank : ChannelState → Nat
  | .openSent | .acceptSent => 0
  | .fundingCreatedSent => 1
  | .awaitingChannelReady => 2
  | .normal => 3
  | .shuttingDown => 4
  | .negotiatingClose => 5
  | .closed => 6

namespace Channel

/-- The fields that no commitment depends on. -/
structure Admin where
  state : ChannelState
  shortChannelId : Option ShortChannelId
  fundingConfirmed : Bool
  channelReadySent : Bool
  channelReadyReceived : Bool
  holderShutdownScript : Option Script
  counterpartyShutdownScript : Option Script
  shutdownSent : Bool
  shutdownReceived : Bool
  lastClosingFeeProposal : Option Nat
  closingTx : Option Transaction

def withAdmin (ch : Channel) (a : Admin) : Channel :=
  { ch with
    state := a.state
    shortChannelId := a.shortChannelId
    fundingConfirmed := a.fundingConfirmed
    channelReadySent := a.channelReadySent
    channelReadyReceived := a.channelReadyReceived
    holderShutdownScript := a.holderShutdownScript
    counterpartyShutdownScript := a.counterpartyShutdownScript
    shutdownSent := a.shutdownSent
    shutdownReceived := a.shutdownReceived
    lastClosingFeeProposal := a.lastClosingFeeProposal
    closingTx := a.closingTx }

/-- Resolve an inbound HTLC: it leaves their commitment. -/
def resolveInbound (ch : Channel) (id : HtlcId) (r : HtlcResolution) : Channel :=
  { ch with
    htlcs := htlcMut (false, id)
      ({ · with resolution := some r, phaseCounterparty := .removing }) ch.htlcs
    counterpartyDirty := true }

/-- The peer resolves an outbound HTLC: it leaves our commitment. -/
def resolveOutbound (ch : Channel) (id : HtlcId) (r : HtlcResolution) : Channel :=
  { ch with
    htlcs := htlcMut (true, id)
      ({ · with resolution := some r, phaseHolder := .removing }) ch.htlcs }

/-- Offer an HTLC: it enters their next commitment. -/
def offer (ch : Channel) (amountMsat : Msat) (paymentHash : PaymentHash) (cltvExpiry : Nat)
    (onion : List UInt8) (source : HtlcSource) : Channel :=
  { ch with
    nextHolderHtlcId := ch.nextHolderHtlcId + 1
    htlcs := ch.htlcs ++
      [Htlc.mk true ch.nextHolderHtlcId amountMsat paymentHash cltvExpiry onion (some source) none
        .notYet .pending false]
    counterpartyDirty := true }

/-- Take the peer's HTLC: it enters our next commitment. -/
def receive (ch : Channel) (msg : Wire.UpdateAddHtlc) : Channel :=
  { ch with
    nextCounterpartyHtlcId := ch.nextCounterpartyHtlcId + 1
    htlcs := ch.htlcs ++
      [Htlc.mk false msg.id msg.amountMsat msg.paymentHash msg.cltvExpiry msg.onionRoutingPacket
        none none .pending .notYet false] }

/-- Sign the commitment `b` of number `number` for `point`. -/
def sign (ch : Channel) (point : PublicKey) (b : Built) : Channel :=
  { ch with
    pendingCounterpartyCommitment := some (PendingCounterpartyCommitment.mk
      (ch.counterpartyInfoFromBuilt (ch.counterpartyCommitmentNumber + 1) point b.built b.htlcs)
      (ch.keysInPhase .pending) (ch.keysInPhase .removing) ch.feeUpdate)
    awaitingRaa := true
    counterpartyDirty := false
    signed := ch.signed ++
      [SignedCommitment.mk (ch.counterpartyCommitmentNumber + 1) point b.built b.htlcs
        ch.commitmentSources] }

/-- Hand the forwardable HTLCs over. -/
def processed (ch : Channel) : Channel := { ch with htlcs := ch.htlcs.map Htlc.process }

/-- The elementary changes of a channel. The holding cell is taken out before a revocation, and
flushed after it. -/
inductive Move (C : Crypto) (ch : Channel) : Channel → Prop
  | negotiate (msg : Wire.AcceptChannel) : ch.checkAcceptChannel msg = .ok () →
      Move C ch { ch with
        obscureFactor := commitNumberObscureFactor C ch.holderPubkeys.paymentBasepoint
          (pubkeysFromMsg msg.basepoints).paymentBasepoint
        counterpartyPubkeys := some (pubkeysFromMsg msg.basepoints)
        counterpartyCurrentPoint := some msg.firstPerCommitmentPoint
        params := { ch.params with
          counterpartyDustLimitSat := msg.dustLimitSatoshis
          counterpartySelectedReserveSat := msg.channelReserveSatoshis
          counterpartyMaxHtlcValueInFlightMsat := msg.maxHtlcValueInFlightMsat
          counterpartyHtlcMinimumMsat := msg.htlcMinimumMsat
          counterpartyMaxAcceptedHtlcs := msg.maxAcceptedHtlcs
          counterpartySelectedDelay := msg.toSelfDelay } }
  | bind (funding : OutPoint) : ch.state.rank = 0 →
      Move C ch { ch with
        fundingOutpoint := some funding
        channelId := channelIdFromFunding funding.txid funding.vout }
  | storeInitial (sig : Signature) (b : Built) :
      ch.state = .acceptSent ∨ ch.state = .fundingCreatedSent →
      ch.buildHolderCommitmentAt C 0 = .ok b →
      ch.verifyCounterpartyFundingSig C b.built sig = .ok () →
      Move C ch { ch with
        currentHolderCommitment := some (HolderCommitment.mk 0 b.built sig [] b.htlcs b.keys
          ch.feerateHolder) }
  | signInitial (point : PublicKey) (b : Built) (st : ChannelState) :
      ch.state.rank = 0 → 0 < st.rank → ch.counterpartyCurrentPoint = some point →
      ch.buildCounterpartyCommitmentAt C 0 point = .ok b → st.rank ≤ 2 →
      Move C ch { ch with
        currentCounterpartyCommitment := some (ch.counterpartyInfoFromBuilt 0 point b.built b.htlcs)
        signed := ch.signed ++ [SignedCommitment.mk 0 point b.built b.htlcs ch.commitmentSources]
        state := st }
  | admin (a : Admin) : a.state = ch.state ∨ 0 < ch.state.rank ∧ ch.state.rank < a.state.rank →
      (5 ≤ a.state.rank → 5 ≤ ch.state.rank ∨ ch.readyToNegotiateClose = true) →
      Move C ch (ch.withAdmin a)
  | nextPoint (point : PublicKey) : 0 < ch.state.rank → ch.counterpartyCommitmentNumber = 0 →
      ch.awaitingRaa = false →
      Move C ch { ch with counterpartyNextPoint := some point }
  | park (ops : List HoldingCellOp) : ops = [] ∨ ch.awaitingRaa = true →
      Move C ch { ch with holdingCell := ops }
  | offer (amountMsat : Msat) (paymentHash : PaymentHash) (cltvExpiry : Nat) (onion : List UInt8)
      (source : HtlcSource) : ch.state = .normal → ch.awaitingRaa = false →
      ch.validateOutboundAdd amountMsat cltvExpiry = .ok () →
      Move C ch (ch.offer amountMsat paymentHash cltvExpiry onion source)
  | resolveInbound (id : HtlcId) (r : HtlcResolution) (h : Htlc) : ch.awaitingRaa = false →
      ch.inboundCommitted id = .ok h → Move C ch (ch.resolveInbound id r)
  | fee (feerate : FeeRatePerKw) : ch.awaitingRaa = false → ch.role = .opener →
      ch.state = .normal →
      Move C ch { ch with feerateCounterparty := feerate, counterpartyDirty := true }
  | receive (msg : Wire.UpdateAddHtlc) : ch.checkUpdateAddHtlc msg = .ok () →
      Move C ch (ch.receive msg)
  | resolveOutbound (id : HtlcId) (r : HtlcResolution) (h : Htlc) :
      ch.outboundCommitted id = .ok h → Move C ch (ch.resolveOutbound id r)
  | receiveFee (feerate : FeeRatePerKw) : ch.role ≠ .opener →
      Move C ch { ch with feerateHolder := feerate, pendingFeeAck := some feerate }
  | sign (point : PublicKey) (b : Built) : ch.awaitingRaa = false →
      ch.counterpartyNextPoint = some point →
      ch.buildCounterpartyCommitmentAt C (ch.counterpartyCommitmentNumber + 1) point = .ok b →
      ch.counterpartyDirty = true → Move C ch (ch.sign point b)
  | revoke (pending : PendingCounterpartyCommitment) (secret : Bytes32) (point : PublicKey)
      (secrets : Shachain.SecretStore) (nextPoint : PublicKey) : ch.awaitingRaa = true →
      ch.pendingCounterpartyCommitment = some pending →
      ch.counterpartyCurrentPoint = some point → Keys.perCommitmentPoint C secret = some point →
      ch.insertSecret C secret = .ok secrets → ch.holdingCell = [] →
      Move C ch (ch.acceptRevocation pending secrets nextPoint).gcHtlcs.processed

/-- A sequence of moves. -/
def Moves (C : Crypto) : Channel → Channel → Prop := Relation.ReflTransGen (Move C)

namespace Moves

variable {C : Crypto} {ch ch' ch'' : Channel}

theorem rfl : Moves C ch ch := Relation.ReflTransGen.refl

theorem one (h : Move C ch ch') : Moves C ch ch' := Relation.ReflTransGen.single h

theorem trans (h : Moves C ch ch') (h' : Moves C ch' ch'') : Moves C ch ch'' :=
  Relation.ReflTransGen.trans h h'

/-- An invariant of the moves is an invariant of a sequence of them. -/
theorem invariant {I : Channel → Prop} (hI : ∀ a b, Move C a b → I a → I b) (h : Moves C ch ch')
    (hch : I ch) : I ch' := by
  induction h with
  | refl => exact hch
  | tail _ hm ih => exact hI _ _ hm ih

end Moves

/-- How many HTLCs and revocations of the peer a channel has taken, and whether a commitment is in
flight. -/
def taken (ch : Channel) : Nat × Nat × Bool :=
  (ch.nextCounterpartyHtlcId, ch.counterpartyCommitmentNumber, ch.awaitingRaa)

/-- A move that neither takes an HTLC or a revocation of the peer nor signs. -/
def Quiet (C : Crypto) (ch ch' : Channel) : Prop := Move C ch ch' ∧ ch'.taken = ch.taken

/-- A sequence of such moves. -/
def QuietMoves (C : Crypto) : Channel → Channel → Prop := Relation.ReflTransGen (Quiet C)

namespace QuietMoves

variable {C : Crypto} {ch ch' ch'' : Channel}

theorem rfl : QuietMoves C ch ch := Relation.ReflTransGen.refl

theorem one (h : Move C ch ch') (hq : ch'.taken = ch.taken) : QuietMoves C ch ch' :=
  Relation.ReflTransGen.single ⟨h, hq⟩

theorem trans (h : QuietMoves C ch ch') (h' : QuietMoves C ch' ch'') : QuietMoves C ch ch'' :=
  Relation.ReflTransGen.trans h h'

theorem moves (h : QuietMoves C ch ch') : Moves C ch ch' := by
  induction h with
  | refl => exact .rfl
  | tail _ hm ih => exact ih.trans (.one hm.1)

theorem invariant {I : Channel → Prop} (hI : ∀ a b, Quiet C a b → I a → I b)
    (h : QuietMoves C ch ch') (hch : I ch) : I ch' := by
  induction h with
  | refl => exact hch
  | tail _ hm ih => exact hI _ _ hm ih

end QuietMoves

/-- Whatever the outcome, `x` makes a sequence of quiet moves. -/
abbrev QuietOnly (C : Crypto) {α : Type} (x : ChannelAct α) (ch : Channel) : Prop :=
  Act.wp x ch (fun _ ch' => QuietMoves C ch ch') (fun _ ch' => QuietMoves C ch ch')

/-- Whatever the outcome, `x` makes a sequence of moves. -/
abbrev MovesOnly (C : Crypto) {α : Type} (x : ChannelAct α) (ch : Channel) : Prop :=
  Act.wp x ch (fun _ ch' => Moves C ch ch') (fun _ ch' => Moves C ch ch')

/-! ## Opening -/

section
variable {C : Crypto}

theorem onAcceptChannel_moves (msg : Wire.AcceptChannel) (ch : Channel) :
    QuietOnly C (onAcceptChannel C msg) ch := by
  simp only [onAcceptChannel, Act.wp_bind, Act.wp_get, Act.wp_lift, Act.wp_set]
  exact ⟨fun _ h => .one (.negotiate msg h) rfl, fun _ _ => .rfl⟩

theorem storeInitialHolderCommitment_spec (sig : Signature) (ch : Channel) :
    Act.wp (storeInitialHolderCommitment C sig) ch
      (fun _ ch' => ∃ b, ch.buildHolderCommitmentAt C 0 = .ok b ∧
        ch.verifyCounterpartyFundingSig C b.built sig = .ok () ∧
        ch' = { ch with
          currentHolderCommitment := some (HolderCommitment.mk 0 b.built sig [] b.htlcs b.keys
            ch.feerateHolder) })
      (fun _ ch' => ch' = ch) := by
  simp only [storeInitialHolderCommitment, Act.wp_bind, Act.wp_get, Act.wp_lift, Act.wp_set]
  exact ⟨fun b hb => ⟨fun _ hv => ⟨b, hb, hv, rfl⟩, fun _ _ => trivial⟩, fun _ _ => trivial⟩

theorem signInitialCounterpartyCommitment_spec (ch : Channel) :
    Act.wp (signInitialCounterpartyCommitment C) ch
      (fun _ ch' => ∃ point b, ch.counterpartyCurrentPoint = some point ∧
        ch.buildCounterpartyCommitmentAt C 0 point = .ok b ∧
        ch' = { ch with
          currentCounterpartyCommitment :=
            some (ch.counterpartyInfoFromBuilt 0 point b.built b.htlcs)
          signed := ch.signed ++ [SignedCommitment.mk 0 point b.built b.htlcs ch.commitmentSources] })
      (fun _ ch' => ch' = ch) := by
  simp only [signInitialCounterpartyCommitment, Act.wp_bind, Act.wp_get, Act.wp_expect,
    Act.wp_lift, Act.wp_set, Act.wp_pure]
  refine ⟨fun point hp => ⟨fun b hb => ⟨fun _ _ => ⟨point, b, hp, hb, rfl⟩,
    fun _ _ => trivial⟩, fun _ _ => trivial⟩, fun _ => trivial⟩

theorem fundingCreated_moves (txid : Txid) (index : Nat) (ch : Channel) :
    QuietOnly C (fundingCreated C txid index) ch := by
  simp only [fundingCreated, Act.wp_bind, Act.wp_get, Act.wp_lift, Act.wp_set, Act.wp_modify,
    Act.wp_pure, Fault.require_eq_ok]
  refine ⟨fun _ hst => ⟨fun _ _ => ?_, fun _ _ => .rfl⟩, fun _ _ => .rfl⟩
  have hbind : Move C ch _ := .bind ⟨txid, index⟩ (by rw [hst.1]; rfl)
  refine Act.wp_mono (signInitialCounterpartyCommitment_spec _) ?_ ?_
  · rintro _ _ ⟨point, b, hp, hb, rfl⟩
    exact (QuietMoves.one hbind rfl).trans (.one (.signInitial point b .fundingCreatedSent
      (by simp [hst.1, ChannelState.rank]) (by decide) hp hb (by decide)) rfl)
  · rintro _ _ rfl
    exact .one hbind rfl

theorem onFundingCreated_moves (msg : Wire.FundingCreated) (ch : Channel) :
    QuietOnly C (onFundingCreated C msg) ch := by
  simp only [onFundingCreated, Act.wp_bind, Act.wp_get, Act.wp_lift, Act.wp_set, Act.wp_modify,
    Act.wp_pure, Fault.require_eq_ok]
  refine ⟨fun _ hst => ?_, fun _ _ => .rfl⟩
  have hbind : Move C ch _ := .bind ⟨msg.fundingTxid, msg.fundingOutputIndex⟩ (by rw [hst]; rfl)
  refine Act.wp_mono (storeInitialHolderCommitment_spec _ _) ?_ ?_
  · rintro _ _ ⟨b, hb, hv, rfl⟩
    have hstore := (QuietMoves.one hbind rfl).trans (.one (.storeInitial msg.signature b (.inl hst) hb hv) rfl)
    refine Act.wp_mono (signInitialCounterpartyCommitment_spec _) ?_ ?_
    · rintro _ _ ⟨point, b', hp, hb', rfl⟩
      exact hstore.trans (.one (.signInitial point b' .awaitingChannelReady
        (by simp [hst, ChannelState.rank]) (by decide) hp hb' (by decide)) rfl)
    · rintro _ _ rfl
      exact hstore
  · rintro _ _ rfl
    exact .one hbind rfl

/-- What `funding_created` binds. -/
theorem fundingCreated_bound (txid : Txid) (index : Nat) (ch : Channel) :
    Act.wp (fundingCreated C txid index) ch
      (fun _ ch' => ch.state = .openSent ∧ ch'.channelId = channelIdFromFunding txid index)
      (fun _ _ => True) := by
  simp only [fundingCreated, Act.wp_bind, Act.wp_get, Act.wp_lift, Act.wp_set, Act.wp_modify,
    Act.wp_pure, Fault.require_eq_ok]
  refine ⟨fun _ hst => ⟨fun _ _ => ?_, fun _ _ => trivial⟩, fun _ _ => trivial⟩
  refine Act.wp_mono (signInitialCounterpartyCommitment_spec _) ?_ fun _ _ _ => trivial
  rintro _ _ ⟨point, b, -, -, rfl⟩
  exact ⟨hst.1, rfl⟩

/-- What `on_funding_created` binds. -/
theorem onFundingCreated_bound (msg : Wire.FundingCreated) (ch : Channel) :
    Act.wp (onFundingCreated C msg) ch
      (fun _ ch' => ch.state = .acceptSent ∧
        ch'.channelId = channelIdFromFunding msg.fundingTxid msg.fundingOutputIndex ∧
        ch'.fundingOutpoint = some ⟨msg.fundingTxid, msg.fundingOutputIndex⟩ ∧
        ∃ cp, ch'.counterpartyPubkeys = some cp)
      (fun _ _ => True) := by
  simp only [onFundingCreated, Act.wp_bind, Act.wp_get, Act.wp_lift, Act.wp_set, Act.wp_modify,
    Act.wp_pure, Fault.require_eq_ok]
  refine ⟨fun _ hst => ?_, fun _ _ => trivial⟩
  refine Act.wp_mono (storeInitialHolderCommitment_spec _ _) ?_ fun _ _ _ => trivial
  rintro _ _ ⟨b, hb, -, rfl⟩
  refine Act.wp_mono (signInitialCounterpartyCommitment_spec _) ?_ fun _ _ _ => trivial
  rintro _ _ ⟨point, b', -, -, rfl⟩
  simp only [buildHolderCommitmentAt, counterparty, Fault.bind_eq_ok, Fault.okOr_eq_ok] at hb
  obtain ⟨cp, hcp, -⟩ := hb
  exact ⟨hst, rfl, rfl, cp, hcp⟩

/-- A change of bookkeeping fields that leaves the state alone. -/
theorem Move.same {ch : Channel} (a : Admin) (h : a.state = ch.state) : Move C ch (ch.withAdmin a) :=
  .admin a (.inl h) fun h5 => .inl (h ▸ h5)

/-- A change of state before the negotiation of a close. -/
theorem Move.forward {ch : Channel} (a : Admin) (h0 : 0 < ch.state.rank)
    (h : ch.state.rank < a.state.rank) (h5 : a.state.rank < 5) : Move C ch (ch.withAdmin a) :=
  .admin a (.inr ⟨h0, h⟩) fun h => absurd h (Nat.not_le.2 h5)

/-- The bookkeeping fields of a channel. -/
def adminOf (ch : Channel) : Admin :=
  ⟨ch.state, ch.shortChannelId, ch.fundingConfirmed, ch.channelReadySent, ch.channelReadyReceived,
    ch.holderShutdownScript, ch.counterpartyShutdownScript, ch.shutdownSent, ch.shutdownReceived,
    ch.lastClosingFeeProposal, ch.closingTx⟩

theorem onFundingSigned_moves (msg : Wire.FundingSigned) (ch : Channel) :
    QuietOnly C (onFundingSigned C msg) ch := by
  simp only [onFundingSigned, Act.wp_bind, Act.wp_get, Act.wp_lift, Act.wp_modify,
    Fault.require_eq_ok]
  refine ⟨fun _ hst => ⟨fun _ _ => ?_, fun _ _ => .rfl⟩, fun _ _ => .rfl⟩
  refine Act.wp_mono (storeInitialHolderCommitment_spec _ _) ?_ ?_
  · rintro _ _ ⟨b, hb, hv, rfl⟩
    exact (QuietMoves.one (.storeInitial msg.signature b (.inr hst) hb hv) rfl).trans
      (.one (.forward { ch.adminOf with state := .awaitingChannelReady }
        (by simp [hst, ChannelState.rank]) (by simp [hst, ChannelState.rank])
        (by simp [ChannelState.rank])) rfl)
  · rintro _ _ rfl
    exact .rfl

theorem maybeBecomeNormal_moves (ch : Channel) : QuietMoves C ch ch.maybeBecomeNormal := by
  unfold maybeBecomeNormal
  split
  · next h =>
    exact .one (.forward { ch.adminOf with state := .normal } (by simp [h.1, ChannelState.rank])
      (by simp [h.1, ChannelState.rank]) (by simp [ChannelState.rank])) rfl
  · exact .rfl

theorem confirmFunding_moves (scid : ShortChannelId) (ch : Channel) :
    QuietOnly C (confirmFunding scid) ch := by
  simp only [confirmFunding, Act.wp_bind, Act.wp_get, Act.wp_lift, Act.wp_ite, Act.wp_set,
    Act.wp_pure]
  refine ⟨fun _ _ => ⟨fun _ => ?_, fun _ => ?_⟩, fun _ _ => .rfl⟩
  · exact .one (.same { ch.adminOf with shortChannelId := some scid, fundingConfirmed := true } rfl) rfl
  · refine QuietMoves.trans (.one (.same { ch.adminOf with
      shortChannelId := some scid, fundingConfirmed := true, channelReadySent := true } rfl) rfl)
      (maybeBecomeNormal_moves _)

theorem onChannelReady_moves (msg : Wire.ChannelReady) (ch : Channel) :
    QuietOnly C (onChannelReady msg) ch := by
  simp only [onChannelReady, Act.wp_bind, Act.wp_get, Act.wp_lift, Act.wp_ite, Act.wp_set,
    Act.wp_pure, Fault.require_eq_ok]
  refine ⟨fun _ hst => ⟨fun _ => .rfl, fun h => ?_⟩, fun _ _ => .rfl⟩
  have hpos : 0 < ch.state.rank := by rcases hst with hst | hst <;> simp [hst, ChannelState.rank]
  have hnew : ch.counterpartyCommitmentNumber = 0 ∧ ch.awaitingRaa = false := by
    simpa [not_or] using h
  refine QuietMoves.trans (.one (.nextPoint msg.secondPerCommitmentPoint hpos hnew.1 hnew.2) rfl)
    (QuietMoves.trans (.one (.same { ch.adminOf with channelReadyReceived := true } rfl) rfl) ?_)
  exact maybeBecomeNormal_moves _

/-! ## The dance -/

/-- `send_add_htlc` refuses, parks or offers; it refuses with `Ignore` only. -/
theorem sendAddHtlc_spec (amountMsat : Msat) (paymentHash : PaymentHash) (cltvExpiry : Nat)
    (onion : List UInt8) (source : HtlcSource) (ch : Channel) :
    Act.wp (sendAddHtlc amountMsat paymentHash cltvExpiry onion source) ch
      (fun m ch' => (ch.awaitingRaa = true ∧ m = none ∧
          ch' = { ch with holdingCell := ch.holdingCell ++
            [.add amountMsat paymentHash cltvExpiry onion source] }) ∨
        (ch.awaitingRaa = false ∧ ch.state = .normal ∧
          ch.validateOutboundAdd amountMsat cltvExpiry = .ok () ∧
          m = some ⟨ch.channelId, ch.nextHolderHtlcId, amountMsat, paymentHash, cltvExpiry, onion⟩ ∧
          ch' = ch.offer amountMsat paymentHash cltvExpiry onion source))
      (fun _ ch' => ch' = ch) := by
  simp only [sendAddHtlc, Act.wp_bind, Act.wp_get, Act.wp_lift, Act.wp_ite, Act.wp_set,
    Act.wp_pure, Fault.require_eq_ok]
  refine ⟨fun _ hst => ⟨fun _ _ => ⟨fun ha => .inl ⟨ha, trivial, trivial⟩, fun ha => ⟨fun _ hv => ?_,
    fun _ _ => trivial⟩⟩, fun _ _ => trivial⟩, fun _ _ => trivial⟩
  exact .inr ⟨by simpa using ha, hst, hv, trivial, rfl⟩

/-- `sendRemoval` refuses, parks or resolves. -/
theorem sendRemoval_spec {M : Type} (op : HoldingCellOp) (id : HtlcId) (r : HtlcResolution)
    (check : Htlc → ChannelResult Unit) (msg : ChannelId → M) (ch : Channel) :
    Act.wp (sendRemoval op id r check msg) ch
      (fun m ch' => (ch.awaitingRaa = true ∧ m = none ∧
          ch' = { ch with holdingCell := ch.holdingCell ++ [op] }) ∨
        (ch.awaitingRaa = false ∧ m = some (msg ch.channelId) ∧
          ∃ h, ch.inboundCommitted id = .ok h ∧ check h = .ok () ∧ ch' = ch.resolveInbound id r))
      (fun _ ch' => ch' = ch) := by
  simp only [sendRemoval, Act.wp_bind, Act.wp_get, Act.wp_lift, Act.wp_ite, Act.wp_set,
    Act.wp_pure]
  refine ⟨fun ha => .inl ⟨ha, trivial, trivial⟩, fun ha => ⟨fun h hh => ⟨fun _ hc => ?_, fun _ _ => trivial⟩,
    fun _ _ => trivial⟩⟩
  exact .inr ⟨by simpa using ha, trivial, h, hh, hc, rfl⟩

theorem sendAddHtlc_moves (amountMsat : Msat) (paymentHash : PaymentHash) (cltvExpiry : Nat)
    (onion : List UInt8) (source : HtlcSource) (ch : Channel) :
    QuietOnly C (sendAddHtlc amountMsat paymentHash cltvExpiry onion source) ch := by
  refine Act.wp_mono (sendAddHtlc_spec _ _ _ _ _ _) ?_ ?_
  · rintro _ _ (⟨ha, -, rfl⟩ | ⟨ha, hst, hv, -, rfl⟩)
    · exact .one (.park _ (.inr ha)) rfl
    · exact .one (.offer _ _ _ _ _ hst ha hv) rfl
  · rintro _ _ rfl
    exact .rfl

theorem sendRemoval_moves {M : Type} (op : HoldingCellOp) (id : HtlcId) (r : HtlcResolution)
    (check : Htlc → ChannelResult Unit) (msg : ChannelId → M) (ch : Channel) :
    QuietOnly C (sendRemoval op id r check msg) ch := by
  refine Act.wp_mono (sendRemoval_spec _ _ _ _ _ _) ?_ ?_
  · rintro _ _ (⟨ha, -, rfl⟩ | ⟨ha, -, h, hh, -, rfl⟩)
    · exact .one (.park _ (.inr ha)) rfl
    · exact .one (.resolveInbound id r h ha hh) rfl
  · rintro _ _ rfl
    exact .rfl

theorem sendUpdateFee_moves (feerate : FeeRatePerKw) (ch : Channel) :
    QuietOnly C (sendUpdateFee feerate) ch := by
  simp only [sendUpdateFee, Act.wp_bind, Act.wp_get, Act.wp_lift, Act.wp_set, Act.wp_pure,
    Fault.require_eq_ok]
  refine ⟨fun _ hr => ⟨fun _ hst => ⟨fun _ ha => ⟨fun _ _ => ?_, fun _ _ => .rfl⟩, fun _ _ => .rfl⟩,
    fun _ _ => .rfl⟩, fun _ _ => .rfl⟩
  exact .one (.fee feerate (by simpa using ha) hr hst) rfl

theorem onUpdateAddHtlc_moves (msg : Wire.UpdateAddHtlc) (ch : Channel) :
    MovesOnly C (onUpdateAddHtlc msg) ch := by
  simp only [onUpdateAddHtlc, Act.wp_bind, Act.wp_get, Act.wp_lift, Act.wp_set]
  exact ⟨fun _ h => .one (.receive msg h), fun _ _ => .rfl⟩

/-- `onRemoval` refuses or resolves. -/
theorem onRemoval_spec (id : HtlcId) (r : HtlcResolution) (check : Htlc → ChannelResult Unit)
    (ch : Channel) :
    Act.wp (onRemoval id r check) ch
      (fun x ch' => ∃ h, ch.outboundCommitted id = .ok h ∧ check h = .ok () ∧
        h.source = some x.1 ∧ x.2 = h.amountMsat ∧ ch' = ch.resolveOutbound id r)
      (fun e ch' => ch' = ch ∨ e = .panic ∧ ∃ h, ch.outboundCommitted id = .ok h ∧
        ch' = ch.resolveOutbound id r) := by
  simp only [onRemoval, Act.wp_bind, Act.wp_get, Act.wp_lift, Act.wp_set, Act.wp_expect,
    Act.wp_pure]
  refine ⟨fun h hh => ⟨fun _ hc => ⟨fun x hx => ⟨h, hh, hc, hx, rfl, rfl⟩, fun _ => ?_⟩,
    fun _ _ => .inl trivial⟩, fun _ _ => .inl trivial⟩
  exact .inr ⟨trivial, h, hh, rfl⟩

theorem onRemoval_moves (id : HtlcId) (r : HtlcResolution) (check : Htlc → ChannelResult Unit)
    (ch : Channel) : QuietOnly C (onRemoval id r check) ch := by
  refine Act.wp_mono (onRemoval_spec _ _ _ _) ?_ ?_
  · rintro _ _ ⟨h, hh, -, -, -, rfl⟩
    exact .one (.resolveOutbound id r h hh) rfl
  · rintro _ _ (rfl | ⟨-, h, hh, rfl⟩)
    · exact .rfl
    · exact .one (.resolveOutbound id r h hh) rfl

theorem onUpdateFailMalformedHtlc_moves (msg : Wire.UpdateFailMalformedHtlc) (ch : Channel) :
    QuietOnly C (onUpdateFailMalformedHtlc msg) ch := by
  simp only [onUpdateFailMalformedHtlc, Act.wp_bind, Act.wp_lift]
  exact ⟨fun _ _ => onRemoval_moves _ _ _ _, fun _ _ => .rfl⟩

theorem onUpdateFee_moves (msg : Wire.UpdateFee) (ch : Channel) :
    QuietOnly C (onUpdateFee msg) ch := by
  simp only [onUpdateFee, Act.wp_bind, Act.wp_get, Act.wp_lift, Act.wp_set, Fault.require_eq_ok]
  exact ⟨fun _ hr => ⟨fun _ _ => ⟨fun _ _ => .one (.receiveFee _ hr) rfl, fun _ _ => .rfl⟩,
    fun _ _ => .rfl⟩, fun _ _ => .rfl⟩

theorem sendCommitmentSigned_spec (ch : Channel) :
    Act.wp (sendCommitmentSigned C) ch
      (fun m ch' => ∃ point b sig sigs, ch.awaitingRaa = false ∧ ch.counterpartyDirty = true ∧
        ch.counterpartyNextPoint = some point ∧
        ch.buildCounterpartyCommitmentAt C (ch.counterpartyCommitmentNumber + 1) point = .ok b ∧
        ch.signCounterpartyCommitmentTx C b.built = .ok sig ∧ ch.signHtlcs C b point = some sigs ∧
        m = ⟨ch.channelId, sig, sigs⟩ ∧ ch' = ch.sign point b)
      (fun _ ch' => ch' = ch) := by
  simp only [sendCommitmentSigned, Act.wp_bind, Act.wp_get, Act.wp_lift, Act.wp_okOr,
    Act.wp_expect, Act.wp_set, Act.wp_pure, Fault.require_eq_ok]
  refine ⟨fun _ ha => ⟨fun _ hd => ⟨fun point hp => ⟨fun b hb => ⟨fun sig hs => ⟨fun sigs hsg => ?_,
    fun _ => trivial⟩, fun _ _ => trivial⟩, fun _ _ => trivial⟩, fun _ => trivial⟩,
    fun _ _ => trivial⟩, fun _ _ => trivial⟩
  exact ⟨point, b, sig, sigs, by simpa using ha, hd, hp, hb, hs, hsg, rfl, rfl⟩

theorem sendCommitmentSigned_moves (ch : Channel) : MovesOnly C (sendCommitmentSigned C) ch := by
  refine Act.wp_mono (sendCommitmentSigned_spec _) ?_ ?_
  · rintro _ _ ⟨point, b, -, -, ha, hd, hp, hb, -, -, -, rfl⟩
    exact .one (.sign point b ha hp hb hd)
  · rintro _ _ rfl
    exact .rfl

theorem flushRemoval_moves {M : Type} (wrap : M → Wire.Message) {x : ChannelAct (Option M)}
    {ch : Channel} (h : QuietOnly C x ch) : QuietOnly C (flushRemoval wrap x) ch := by
  simp only [flushRemoval, Act.wp_bind, Act.wp_attempt]
  refine Act.wp_mono h ?_ ?_
  · rintro (_ | m) ch' hm <;> exact hm
  · rintro e ch' hm
    refine ⟨?_, fun _ => hm⟩
    rintro (_ | _ | _) - <;> exact hm

theorem flushOp_moves (op : HoldingCellOp) (ch : Channel) : QuietOnly C (flushOp C op) ch := by
  cases op with
  | add amountMsat paymentHash cltvExpiry onion source =>
    simp only [flushOp, Act.wp_bind, Act.wp_attempt]
    refine Act.wp_mono (sendAddHtlc_moves (C := C) _ _ _ _ _ _) ?_ ?_
    · rintro (_ | m) ch' hm <;> exact hm
    · rintro e ch' hm
      refine ⟨?_, fun _ => hm⟩
      rintro (_ | _ | _) - <;> exact hm
  | fulfill id preimage => exact flushRemoval_moves _ (sendRemoval_moves _ _ _ _ _ _)
  | fail id reason => exact flushRemoval_moves _ (sendRemoval_moves _ _ _ _ _ _)
  | failMalformed id sha code => exact flushRemoval_moves _ (sendRemoval_moves _ _ _ _ _ _)

theorem flushOps_moves (ops : List HoldingCellOp) (ch : Channel) :
    QuietOnly C (flushOps C ops) ch := by
  induction ops generalizing ch with
  | nil => exact .rfl
  | cons op ops ih =>
    simp only [flushOps, Act.wp_bind, Act.wp_pure]
    refine Act.wp_mono (flushOp_moves op ch) (fun a ch₁ h₁ => ?_) (fun _ _ h => h)
    exact Act.wp_mono (ih ch₁) (fun _ _ h => h₁.trans h) (fun _ _ h => h₁.trans h)

theorem maybeSendCommitmentSigned_moves (ch : Channel) :
    MovesOnly C (maybeSendCommitmentSigned C) ch := by
  simp only [maybeSendCommitmentSigned, Act.wp_bind, Act.wp_get, Act.wp_ite, Act.wp_map,
    Act.wp_pure]
  exact ⟨fun _ => sendCommitmentSigned_moves ch, fun _ => .rfl⟩

theorem onRevokeAndAck_moves (msg : Wire.RevokeAndAck) (ch : Channel) :
    MovesOnly C (onRevokeAndAck C msg) ch := by
  simp only [onRevokeAndAck, collectForwardable, Act.wp_bind, Act.wp_get, Act.wp_lift,
    Act.wp_expect, Act.wp_set, Act.wp_modify, Act.wp_pure, Fault.require_eq_ok]
  refine ⟨fun _ ha => ⟨fun pending hp => ⟨fun point hpt => ⟨fun _ hrv => ⟨fun _ heq =>
    ⟨fun secrets hs => ?_, fun _ _ => .rfl⟩, fun _ _ => .rfl⟩, fun _ => .rfl⟩, fun _ => .rfl⟩,
    fun _ => .rfl⟩, fun _ _ => .rfl⟩
  have hrev : Moves C ch { (ch.acceptRevocation pending secrets
      msg.nextPerCommitmentPoint).gcHtlcs.processed with holdingCell := [] } :=
    (Moves.one (.park [] (.inl rfl))).trans (.one (.revoke pending msg.perCommitmentSecret point
      secrets msg.nextPerCommitmentPoint ha hp hpt (heq ▸ hrv) hs rfl))
  refine Act.wp_mono (flushOps_moves _ _) (fun _ ch₁ h₁ => ?_) (fun _ _ h => hrev.trans h.moves)
  exact Act.wp_mono (maybeSendCommitmentSigned_moves ch₁) (fun _ _ h => hrev.trans (h₁.moves.trans h))
    (fun _ _ h => hrev.trans (h₁.moves.trans h))

/-- `on_commitment_signed` refuses and changes nothing, or accepts. -/
theorem onCommitmentSigned_spec (msg : Wire.CommitmentSigned) (ch : Channel) :
    Act.wp (onCommitmentSigned C msg) ch
      (fun m ch' => ∃ b, (ch.state = .normal ∨ ch.state = .shuttingDown) ∧
        ch.buildHolderCommitmentAt C (ch.holderCommitmentNumber + 1) = .ok b ∧
        ch.verifyCounterpartyFundingSig C b.built msg.signature = .ok () ∧
        ch.verifyHtlcSigs C b msg.htlcSignatures = .ok () ∧
        m = ⟨ch.channelId, ch.signer.releaseCommitmentSecret ch.holderCommitmentNumber,
          ch.signer.perCommitmentPoint (ch.holderCommitmentNumber + 2)⟩ ∧
        ch' = (ch.acceptCommitment (ch.holderCommitmentNumber + 1) b msg).gcHtlcs)
      (fun _ ch' => ch' = ch) := by
  simp only [onCommitmentSigned, Act.wp_bind, Act.wp_get, Act.wp_lift, Act.wp_set, Act.wp_pure,
    Fault.require_eq_ok]
  refine ⟨fun _ hst => ⟨fun b hb => ⟨fun _ hv => ⟨fun _ hh => ?_, fun _ _ => trivial⟩,
    fun _ _ => trivial⟩, fun _ _ => trivial⟩, fun _ _ => trivial⟩
  exact ⟨b, hst, hb, hv, hh, by simp, rfl⟩

theorem onDisconnect_spec (ch : Channel) :
    Act.wp onDisconnect ch
      (fun _ ch' => ∃ rs, ch.htlcs.mapM ch.rollback = some rs ∧ ch' = ch.rolledBack rs)
      (fun e ch' => e = .panic ∧ ch' = ch) := by
  simp only [onDisconnect, Act.wp_bind, Act.wp_get, Act.wp_expect, Act.wp_set]
  exact ⟨fun rs hrs => ⟨rs, hrs, rfl⟩, fun _ => ⟨trivial, trivial⟩⟩

/-! ## Closing -/

theorem sendShutdown_moves (script : Script) (ch : Channel) :
    QuietOnly C (sendShutdown script) ch := by
  simp only [sendShutdown, Act.wp_bind, Act.wp_get, Act.wp_lift, Act.wp_set, Act.wp_pure]
  refine ⟨fun _ _ => ⟨fun _ _ => ⟨fun _ _ => ?_, fun _ _ => .rfl⟩, fun _ _ => .rfl⟩,
    fun _ _ => .rfl⟩
  by_cases h : ch.state = .normal
  · exact .one (.forward { ch.adminOf with
      holderShutdownScript := some script
      shutdownSent := true
      state := if ch.state = .normal then .shuttingDown else ch.state }
      (by simp [h, ChannelState.rank]) (by simp [h, ChannelState.rank])
      (by simp [h, ChannelState.rank])) rfl
  · exact .one (.same { ch.adminOf with
      holderShutdownScript := some script
      shutdownSent := true
      state := if ch.state = .normal then .shuttingDown else ch.state } (by simp [h])) rfl

theorem onShutdown_moves (msg : Wire.Shutdown) (ourScript : Script) (ch : Channel) :
    QuietOnly C (onShutdown msg ourScript) ch := by
  simp only [onShutdown, Act.wp_bind, Act.wp_get, Act.wp_lift, Act.wp_set, Act.wp_pure,
    Act.wp_ite, Act.wp_map, Fault.require_eq_ok]
  refine ⟨fun _ hst => ⟨fun _ _ => ?_, fun _ _ => .rfl⟩, fun _ _ => .rfl⟩
  have hadm : Move C ch _ := .admin { ch.adminOf with
    counterpartyShutdownScript := some msg.scriptpubkey
    shutdownReceived := true
    state := .shuttingDown } (by
      rcases hst with h | h | h
      · exact .inr (by simp [h, ChannelState.rank])
      · exact .inr (by simp [h, ChannelState.rank])
      · exact .inl h.symm) (by simp [ChannelState.rank])
  refine ⟨fun _ => .one hadm rfl, fun _ => ?_⟩
  exact Act.wp_mono (sendShutdown_moves ourScript _) (fun _ _ h => (QuietMoves.one hadm rfl).trans h)
    (fun _ _ h => (QuietMoves.one hadm rfl).trans h)

/-- Negotiation starts from a state before it, or goes on. -/
theorem negotiating_later {ch : Channel} (h : ch.readyToNegotiateClose = true) :
    ChannelState.negotiatingClose = ch.state ∨
      0 < ch.state.rank ∧ ch.state.rank < ChannelState.negotiatingClose.rank := by
  simp only [readyToNegotiateClose, Bool.and_eq_true, Bool.or_eq_true, decide_eq_true_eq] at h
  rcases h.1.1.1.1.1.1 with hs | hs
  · exact .inr (by simp [hs, ChannelState.rank])
  · exact .inl hs.symm

theorem maybeSendClosingSigned_moves (feerate : FeeRatePerKw) (ch : Channel) :
    QuietOnly C (maybeSendClosingSigned C feerate) ch := by
  simp only [maybeSendClosingSigned, Act.wp_bind, Act.wp_get, Act.wp_lift, Act.wp_ite,
    Act.wp_expect, Act.wp_set, Act.wp_pure]
  refine ⟨fun _ => .rfl, fun h => ⟨fun bounds _ => ⟨fun m _ => ?_, fun _ _ => .rfl⟩,
    fun _ => .rfl⟩⟩
  have hready : ch.readyToNegotiateClose = true := by simp_all
  exact .one (.admin { ch.adminOf with
    state := .negotiatingClose, lastClosingFeeProposal := some bounds.1 }
    (negotiating_later hready) fun _ => .inr hready) rfl

theorem proposeFee_move (fee : Nat) (ch : Channel) :
    Move C ch { ch with lastClosingFeeProposal := some fee } :=
  .same { ch.adminOf with lastClosingFeeProposal := some fee } rfl

theorem finalizeClosing_moves (fee : Nat) (sig : Signature) {ch : Channel}
    (h : ch.state = .negotiatingClose) : QuietOnly C (finalizeClosing C fee sig) ch := by
  simp only [finalizeClosing, Act.wp_bind, Act.wp_get, Act.wp_lift, Act.wp_set, Act.wp_pure]
  refine ⟨fun _ _ => ⟨fun _ _ => ?_, fun _ _ => .rfl⟩, fun _ _ => .rfl⟩
  exact .one (.admin { ch.adminOf with state := .closed, closingTx := some _ }
    (.inr (by simp [h, ChannelState.rank])) fun _ => .inl (by simp [h, ChannelState.rank])) rfl

theorem acceptClosingFee_moves (fee : Nat) (sig : Signature) (range : Option (Nat × Nat))
    {ch : Channel} (h : ch.state = .negotiatingClose) :
    QuietOnly C (acceptClosingFee C fee sig range) ch := by
  simp only [acceptClosingFee, Act.wp_bind, Act.wp_get, Act.wp_lift, Act.wp_pure]
  exact Act.wp_mono (finalizeClosing_moves fee sig h) (fun _ _ h => ⟨fun _ _ => h, fun _ _ => h⟩)
    (fun _ _ h => h)

theorem proposeClosingFee_moves (fee : Nat) (range : Option (Nat × Nat)) (ch : Channel) :
    QuietOnly C (proposeClosingFee C fee range) ch := by
  simp only [proposeClosingFee, Act.wp_bind, Act.wp_get, Act.wp_lift, Act.wp_pure]
  exact ⟨fun _ _ => .rfl, fun _ _ => .rfl⟩

theorem negotiateInRange_moves (msg : Wire.ClosingSigned) (bounds : Nat × Nat × Nat)
    (range : Wire.ClosingSignedFeeRange) {ch : Channel} (h : ch.state = .negotiatingClose) :
    QuietOnly C (negotiateInRange C msg bounds range) ch := by
  simp only [negotiateInRange, Act.wp_bind, Act.wp_get, Act.wp_lift, Act.wp_ite, Act.wp_modify,
    Act.wp_pure]
  refine ⟨fun _ _ => ⟨fun _ => ⟨fun _ _ => ?_, fun _ _ => .rfl⟩, fun _ => ?_⟩, fun _ _ => .rfl⟩
  · exact Act.wp_mono (acceptClosingFee_moves _ _ _ h)
      (fun _ _ hm => hm.trans (.one (proposeFee_move _ _) rfl)) (fun _ _ hm => hm)
  · rcases ch.lastClosingFeeProposal with _ | sent
    · simp only [Act.wp_bind, Act.wp_expect, Act.wp_modify, Act.wp_ite]
      refine ⟨fun fee _ => ⟨fun _ => ?_, fun _ => ?_⟩, fun _ => .rfl⟩
      · refine Act.wp_mono (acceptClosingFee_moves _ _ _ ?_)
          (fun _ _ hm => (QuietMoves.one (proposeFee_move fee ch) rfl).trans hm)
          (fun _ _ hm => (QuietMoves.one (proposeFee_move fee ch) rfl).trans hm)
        exact h
      · exact Act.wp_mono (proposeClosingFee_moves _ _ _)
          (fun _ _ hm => (QuietMoves.one (proposeFee_move fee ch) rfl).trans hm)
          (fun _ _ hm => (QuietMoves.one (proposeFee_move fee ch) rfl).trans hm)
    · simp only [Act.wp_bind, Act.wp_lift, Act.wp_pure]
      exact ⟨fun _ _ => finalizeClosing_moves _ _ h, fun _ _ => .rfl⟩

theorem negotiateLegacy_moves (msg : Wire.ClosingSigned) (ourFee : Nat) {ch : Channel}
    (h : ch.state = .negotiatingClose) : QuietOnly C (negotiateLegacy C msg ourFee) ch := by
  simp only [negotiateLegacy, Act.wp_bind, Act.wp_get, Act.wp_set, Act.wp_ite]
  refine ⟨fun _ => ?_, fun _ => ?_⟩
  · refine Act.wp_mono (acceptClosingFee_moves _ _ _ ?_)
      (fun _ _ hm => (QuietMoves.one (proposeFee_move _ ch) rfl).trans hm)
      (fun _ _ hm => (QuietMoves.one (proposeFee_move _ ch) rfl).trans hm)
    exact h
  · exact Act.wp_mono (proposeClosingFee_moves _ _ _)
      (fun _ _ hm => (QuietMoves.one (proposeFee_move _ ch) rfl).trans hm)
      (fun _ _ hm => (QuietMoves.one (proposeFee_move _ ch) rfl).trans hm)

theorem onClosingSigned_moves (msg : Wire.ClosingSigned) (feerate : FeeRatePerKw) (ch : Channel) :
    QuietOnly C (onClosingSigned C msg feerate) ch := by
  simp only [onClosingSigned, Act.wp_bind, Act.wp_get, Act.wp_lift, Act.wp_set, Act.wp_ite,
    Act.wp_expect, Act.wp_pure, Fault.require_eq_ok]
  refine ⟨fun _ hready => ?_, fun _ _ => .rfl⟩
  have hadm : QuietMoves C ch { ch with state := .negotiatingClose } :=
    .one (.admin { ch.adminOf with state := .negotiatingClose } (negotiating_later hready)
      fun _ => .inr hready) rfl
  refine ⟨fun _ _ => ⟨fun _ => ?_, fun _ => ⟨fun bounds _ => ?_, fun _ => hadm⟩⟩,
    fun _ _ => hadm⟩
  · exact Act.wp_mono (finalizeClosing_moves _ _ rfl) (fun _ _ hm => hadm.trans hm)
      (fun _ _ hm => hadm.trans hm)
  · rcases msg.feeRange with _ | range
    · exact Act.wp_mono (negotiateLegacy_moves _ _ rfl) (fun _ _ hm => hadm.trans hm)
        (fun _ _ hm => hadm.trans hm)
    · exact Act.wp_mono (negotiateInRange_moves _ _ _ rfl) (fun _ _ hm => hadm.trans hm)
        (fun _ _ hm => hadm.trans hm)

/-! ## Fresh channels -/

/-- What `new_outbound` and `new_inbound` have in common. -/
structure Initial (ch : Channel) : Prop where
  state : ch.state.rank = 0
  htlcs : ch.htlcs = []
  obscure : ch.obscureFactor < 2 ^ 48
  balance : ch.toHolderMsat + ch.toCounterpartyMsat = ch.fundingAmountSat * 1000
  holderNumber : ch.holderCommitmentNumber = 0
  counterpartyNumber : ch.counterpartyCommitmentNumber = 0
  secrets : ch.counterpartySecrets = .new
  holderCommitment : ch.currentHolderCommitment = none
  counterpartyCommitment : ch.currentCounterpartyCommitment = none
  pending : ch.pendingCounterpartyCommitment = none
  awaiting : ch.awaitingRaa = false
  holderId : ch.nextHolderHtlcId = 0
  counterpartyId : ch.nextCounterpartyHtlcId = 0
  nextPoint : ch.counterpartyNextPoint = none
  signed : ch.signed = []
  dirty : ch.counterpartyDirty = false
  cell : ch.holdingCell = []

theorem Fresh.initial {ch : Channel} (h : Fresh C ch) : Initial ch := by
  cases h with
  | outbound h =>
    unfold newOutbound at h
    split at h
    · cases h
    · next hp =>
      obtain ⟨rfl, -⟩ := Prod.mk.inj (Except.ok.inj h)
      exact ⟨rfl, rfl, Nat.two_pow_pos 48, Nat.sub_add_cancel (Nat.le_of_not_lt hp), rfl, rfl, rfl,
        rfl, rfl, rfl, rfl, rfl, rfl, rfl, rfl, rfl, rfl⟩
  | inbound h =>
    simp only [newInbound, Fault.bind_eq_ok, pure, Except.pure, Except.ok.injEq] at h
    obtain ⟨_, hcheck, h⟩ := h
    obtain ⟨rfl, -⟩ := Prod.mk.inj h
    simp only [checkOpenChannel, Fault.bind_eq_ok, Fault.require_eq_ok] at hcheck
    obtain ⟨_, -, _, hp, -⟩ := hcheck
    exact ⟨rfl, rfl, commitNumberObscureFactor_lt _ _ _, Nat.add_sub_cancel' hp, rfl, rfl, rfl, rfl,
      rfl, rfl, rfl, rfl, rfl, rfl, rfl, rfl, rfl⟩

/-! ## Steps -/

/-- Neither a `commitment_signed` nor the loss of the connection. -/
def Input.Plain : Input → Prop
  | .commitmentSigned _ | .disconnect => False
  | _ => True

/-- The connection is lost. -/
def Input.disconnects : Input → Bool
  | .disconnect => true
  | _ => false

instance (i : Input) : Decidable (i = .disconnect) :=
  decidable_of_iff (i.disconnects = true) (by cases i <;> simp [Input.disconnects])

/-- Neither these, nor an HTLC or a revocation of the peer, nor a request to sign. -/
def Input.Quiet : Input → Prop
  | .commitmentSigned _ | .disconnect | .updateAddHtlc _ | .revokeAndAck _
  | .sendCommitmentSigned => False
  | _ => True

/-- Every other step is a sequence of quiet moves. -/
theorem perform_quiet {i : Input} (hi : i.Quiet) (ch : Channel) : QuietOnly C (perform C i) ch := by
  cases i with
  | commitmentSigned | disconnect | updateAddHtlc | revokeAndAck | sendCommitmentSigned =>
    exact hi.elim
  | channelReestablish msg =>
    simp only [perform, Act.wp_bind, Act.wp_get, Act.wp_lift]
    exact ⟨fun _ _ => .rfl, fun _ _ => .rfl⟩
  | acceptChannel msg => exact onAcceptChannel_moves msg ch
  | createFunding txid index => exact fundingCreated_moves txid index ch
  | fundingCreated msg => exact onFundingCreated_moves msg ch
  | fundingSigned msg => exact onFundingSigned_moves msg ch
  | confirmFunding scid => exact confirmFunding_moves scid ch
  | channelReady msg => exact onChannelReady_moves msg ch
  | sendAddHtlc a h c o s => exact sendAddHtlc_moves a h c o s ch
  | sendFulfillHtlc id p =>
    show QuietOnly C (sendFulfillHtlc C id p) ch
    exact sendRemoval_moves _ _ _ _ _ ch
  | sendFailHtlc id r =>
    show QuietOnly C (sendFailHtlc id r) ch
    exact sendRemoval_moves _ _ _ _ _ ch
  | sendFailMalformedHtlc id s c =>
    show QuietOnly C (sendFailMalformedHtlc id s c) ch
    exact sendRemoval_moves _ _ _ _ _ ch
  | sendUpdateFee feerate => exact sendUpdateFee_moves feerate ch
  | updateFulfillHtlc msg => exact onRemoval_moves msg.id (.fulfill msg.paymentPreimage) _ ch
  | updateFailHtlc msg => exact onRemoval_moves msg.id (.fail msg.reason) _ ch
  | updateFailMalformedHtlc msg => exact onUpdateFailMalformedHtlc_moves msg ch
  | updateFee msg => exact onUpdateFee_moves msg ch
  | sendShutdown script => exact sendShutdown_moves script ch
  | shutdown msg ours => exact onShutdown_moves msg ours ch
  | maybeSendClosingSigned f => exact maybeSendClosingSigned_moves f ch
  | closingSigned msg f => exact onClosingSigned_moves msg f ch

theorem perform_moves {i : Input} (hi : i.Plain) (ch : Channel) : MovesOnly C (perform C i) ch := by
  cases i with
  | commitmentSigned | disconnect => exact hi.elim
  | updateAddHtlc msg => exact onUpdateAddHtlc_moves msg ch
  | revokeAndAck msg => exact onRevokeAndAck_moves msg ch
  | sendCommitmentSigned => exact sendCommitmentSigned_moves ch
  | _ =>
    refine Act.wp_mono (perform_quiet ?_ ch) (fun _ _ h => h.moves) fun _ _ h => h.moves
    exact trivial

theorem step_moves {i : Input} (hi : i.Plain) (ch : Channel) : MovesOnly C (step C i) ch :=
  (Act.wp_map _ _).2 (perform_moves hi ch)

/-- What one step makes of a channel. -/
inductive Stepped (C : Crypto) (ch : Channel) : Input → Channel → Prop
  | moves {i : Input} {ch' : Channel} : i.Plain → Moves C ch ch' → Stepped C ch i ch'
  | refused (msg : Wire.CommitmentSigned) : Stepped C ch (.commitmentSigned msg) ch
  | accepted (msg : Wire.CommitmentSigned) (b : Built) : ch.state = .normal ∨ ch.state = .shuttingDown →
      ch.buildHolderCommitmentAt C (ch.holderCommitmentNumber + 1) = .ok b →
      ch.verifyCounterpartyFundingSig C b.built msg.signature = .ok () →
      ch.verifyHtlcSigs C b msg.htlcSignatures = .ok () →
      Stepped C ch (.commitmentSigned msg)
        (ch.acceptCommitment (ch.holderCommitmentNumber + 1) b msg).gcHtlcs
  | rolledBack (rs : List Rollback) : ch.htlcs.mapM ch.rollback = some rs →
      Stepped C ch .disconnect (ch.rolledBack rs)

/-- Every step that does not panic. -/
theorem step_stepped (i : Input) (ch : Channel) : Act.Ends (step C i) ch (Stepped C ch i) := by
  by_cases hpl : i.Plain
  · exact Act.wp_mono (step_moves hpl ch) (fun _ _ hm => .moves hpl hm) fun _ _ hm _ _ =>
      .moves hpl hm
  · refine (Act.wp_map _ _).2 ?_
    cases i with
    | commitmentSigned msg =>
      refine Act.wp_mono (onCommitmentSigned_spec msg ch) ?_ ?_
      · intro _ _ hacc
        obtain ⟨b, hst, hb, hv, hh, -, rfl⟩ := hacc
        exact .accepted msg b hst hb hv hh
      · intro _ _ heq _ _
        exact heq ▸ .refused msg
    | disconnect =>
      refine Act.wp_mono (onDisconnect_spec ch) ?_ ?_
      · intro _ _ hdis
        obtain ⟨rs, hrs, rfl⟩ := hdis
        exact .rolledBack rs hrs
      · intro e _ hdis e' he
        cases he.symm.trans hdis.1
    | _ => exact absurd trivial hpl

end

end Channel
