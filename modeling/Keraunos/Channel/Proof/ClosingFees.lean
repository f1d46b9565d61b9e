import Keraunos.Channel.Word
import Keraunos.Channel.Proof.Counterparts
import Keraunos.Channel.Proof.Panic
import Keraunos.Channel.Proof.Refusal
import Keraunos.Channel.Proof.Updates

/-!
# The fees of a cooperative close

`closing_fee_bounds` clamps the target's fee between the fee at the lowest feerate and the smaller of
twice the target's fee and what the funder has. Nothing orders the two ends: an opener that pushed
almost everything, or a low target, crosses them and `clamp` panics (`closing_fees_safe_iff`).

The bounds hold for our first proposal and for what is agreed with ranges. A `closing_signed` without
a range is answered with the average of the two fees, wherever that is: the fees stay within the bounds
as long as these averages do (`closing_fees_bounded`).
-/

open Bitcoin Commitment

/-- `clamp` returns when its bounds are in order. -/
theorem clamp_eq_some_iff {x lo hi : Nat} : (∃ y, clamp x lo hi = some y) ↔ lo ≤ hi := by
  unfold clamp
  by_cases h : lo ≤ hi <;> simp [h]

theorem clamp_bounds {x lo hi y : Nat} (h : clamp x lo hi = some y) : lo ≤ y ∧ y ≤ hi := by
  obtain ⟨hle, hy⟩ := Option.ite_none_right_eq_some.1 h
  cases hy
  omega

namespace Channel

variable {C : Crypto} {ch ch' ch₀ : Channel} {f : FeeRatePerKw}

/-! ## The bounds -/

/-- The lowest closing fee, at the lowest feerate. -/
theorem closing_floor : FeeRatePerKw.feeForWeight 253 closingTxWeightBound = 180 := by decide

theorem closingFeeBounds_eq_some {b : Nat × Nat × Nat} (h : ch.closingFeeBounds f = some b) :
    b.2.1 ≤ b.1 ∧ b.1 ≤ b.2.2 := by
  obtain ⟨fee, hfee, hb⟩ := Option.bind_eq_some_iff.1 h
  cases hb
  exact clamp_bounds hfee

/-- When the bounds are in order: the target is not below half the lowest feerate, and an opener can
pay the lowest fee. -/
def BoundsOrdered (ch : Channel) (f : FeeRatePerKw) : Prop :=
  127 ≤ f ∧ (ch.role = .opener → 180 ≤ Msat.toSatFloor (ch.balancesFor true).1)

theorem closingFeeBounds_isSome : (∃ b, ch.closingFeeBounds f = some b) ↔ ch.BoundsOrdered f := by
  have htarget : 180 ≤ FeeRatePerKw.feeForWeight f closingTxWeightBound * 2 ↔ 127 ≤ f := by
    have hfee : FeeRatePerKw.feeForWeight f closingTxWeightBound = f * 714 / 1000 := rfl
    rw [hfee]
    change _ ↔ @LE.le Nat _ 127 f
    omega
  have hbounds : (∃ b, ch.closingFeeBounds f = some b) ↔
      180 ≤ min (FeeRatePerKw.feeForWeight f closingTxWeightBound * 2)
        (if ch.role = .opener then Msat.toSatFloor (ch.balancesFor true).1 else 2 ^ 64 - 1) := by
    rw [← closing_floor, ← clamp_eq_some_iff]
    simp only [closingFeeBounds, Option.bind_eq_bind, Option.bind_eq_some_iff, Option.pure_def,
      Option.some.injEq]
    constructor
    · rintro ⟨b, fee, hfee, -⟩
      exact ⟨fee, hfee⟩
    · rintro ⟨fee, hfee⟩
      exact ⟨_, fee, hfee, rfl⟩
  rw [hbounds, le_min_iff, htarget, BoundsOrdered]
  by_cases hrole : ch.role = .opener <;> simp [hrole]

/-! ## Panics -/

theorem buildAndSignClosing_ne_panic (fee : Nat) :
    ch.buildAndSignClosing C fee ≠ .error .panic := by
  unfold buildAndSignClosing
  refine Fault.bind_ne_panic (Fault.okOr_ne_panic _ _) fun _ _ => ?_
  refine Fault.bind_ne_panic (Fault.okOr_ne_panic _ _) fun _ _ => ?_
  refine Fault.bind_ne_panic (Fault.okOr_ne_panic _ _) fun _ _ => ?_
  refine Fault.bind_ne_panic (Fault.require_ne_panic _ _) fun _ _ => ?_
  exact Fault.bind_ne_panic (fundingSighash_ne_panic _) fun _ _ => nofun

theorem verifyTheirClosingSig_ne_panic (fee : Nat) (sig : Signature) :
    ch.verifyTheirClosingSig C fee sig ≠ .error .panic := by
  unfold verifyTheirClosingSig
  refine Fault.bind_ne_panic (buildAndSignClosing_ne_panic fee) fun _ _ => ?_
  refine Fault.bind_ne_panic (Fault.okOr_ne_panic _ _) fun _ _ => ?_
  exact Fault.bind_ne_panic (fundingSighash_ne_panic _) fun _ _ => Fault.require_ne_panic _ _

theorem closingSigned_ne_panic (fee : Nat) (range : Option (Nat × Nat)) :
    ch.closingSigned C fee range ≠ .error .panic := by
  unfold closingSigned
  exact Fault.bind_ne_panic (buildAndSignClosing_ne_panic fee) fun _ _ => nofun

theorem finalizeClosing_safe (fee : Nat) (sig : Signature) : Safe (finalizeClosing C fee sig) ch := by
  simp only [Safe, finalizeClosing, Act.wp_bind, Act.wp_get, Act.wp_lift, Act.wp_set, Act.wp_pure]
  refine ⟨fun _ _ => ⟨fun _ _ => trivial, ?_⟩, ?_⟩
  · exact error_ne_panic (Fault.okOr_ne_panic _ _)
  · exact error_ne_panic (buildAndSignClosing_ne_panic fee)

theorem acceptClosingFee_safe (fee : Nat) (sig : Signature) (range : Option (Nat × Nat)) :
    Safe (acceptClosingFee C fee sig range) ch := by
  simp only [Safe, acceptClosingFee, Act.wp_bind, Act.wp_get, Act.wp_lift, Act.wp_pure]
  refine Act.wp_mono (finalizeClosing_safe fee sig) ?_ fun _ _ he => he
  exact fun _ _ _ => ⟨fun _ _ => trivial, error_ne_panic (closingSigned_ne_panic fee range)⟩

theorem proposeClosingFee_safe (fee : Nat) (range : Option (Nat × Nat)) :
    Safe (proposeClosingFee C fee range) ch := by
  simp only [Safe, proposeClosingFee, Act.wp_bind, Act.wp_get, Act.wp_lift, Act.wp_pure]
  exact ⟨fun _ _ => trivial, error_ne_panic (closingSigned_ne_panic fee range)⟩

/-- The overlap is checked before the clamp to it. -/
theorem negotiateInRange_safe (msg : Wire.ClosingSigned) (bounds : Nat × Nat × Nat)
    (range : Wire.ClosingSignedFeeRange) : Safe (negotiateInRange C msg bounds range) ch := by
  simp only [Safe, negotiateInRange, Act.wp_bind, Act.wp_get, Act.wp_lift, Act.wp_ite,
    Fault.require_eq_ok]
  refine ⟨fun _ hoverlap => ⟨fun _ => ?_, fun _ => ?_⟩, error_ne_panic (Fault.require_ne_panic _ _)⟩
  · simp only [Act.wp_modify, Act.wp_pure]
    refine ⟨fun _ _ => ?_, error_ne_panic (Fault.require_ne_panic _ _)⟩
    exact acceptClosingFee_safe _ _ _
  · cases ch.lastClosingFeeProposal with
    | some sent =>
      simp only [Act.wp_bind, Act.wp_lift, Act.wp_pure]
      exact ⟨fun _ _ => finalizeClosing_safe _ _, error_ne_panic (Fault.require_ne_panic _ _)⟩
    | none =>
      simp only [Act.wp_bind, Act.wp_expect, Act.wp_modify, Act.wp_ite]
      refine ⟨fun _ _ => ⟨fun _ => acceptClosingFee_safe _ _ _, fun _ => proposeClosingFee_safe _ _⟩, ?_⟩
      intro hnone
      obtain ⟨fee, hfee⟩ := clamp_eq_some_iff.2 hoverlap
      cases hfee.symm.trans hnone

theorem maybeSendClosingSigned_safe (h : ch.BoundsOrdered f) : Safe (maybeSendClosingSigned C f) ch := by
  obtain ⟨b, hb⟩ := closingFeeBounds_isSome.2 h
  simp only [Safe, maybeSendClosingSigned, Act.wp_bind, Act.wp_get, Act.wp_ite, Act.wp_pure,
    Act.wp_expect, Act.wp_lift, Act.wp_set]
  refine ⟨fun _ => trivial, fun _ => ⟨fun b' _ => ⟨fun _ _ => trivial, ?_⟩, ?_⟩⟩
  · exact error_ne_panic (closingSigned_ne_panic _ _)
  · exact fun hnone => by cases hnone.symm.trans hb

theorem onClosingSigned_safe (h : ch.BoundsOrdered f) {msg : Wire.ClosingSigned}
    {range : Wire.ClosingSignedFeeRange} (hrange : msg.feeRange = some range) :
    Safe (onClosingSigned C msg f) ch := by
  obtain ⟨b, hb⟩ := closingFeeBounds_isSome.2 h
  simp only [Safe, onClosingSigned, Act.wp_bind, Act.wp_get, Act.wp_lift, Act.wp_set, Act.wp_ite,
    Act.wp_pure, Act.wp_expect, hrange]
  refine ⟨fun _ _ => ⟨fun _ _ => ⟨fun _ => finalizeClosing_safe _ _, fun _ =>
    ⟨fun _ _ => negotiateInRange_safe _ _ _, ?_⟩⟩, ?_⟩, ?_⟩
  · exact fun hnone => by cases hnone.symm.trans hb
  · exact error_ne_panic (verifyTheirClosingSig_ne_panic _ _)
  · exact error_ne_panic (Fault.require_ne_panic _ _)

/-- The bounds of a close at target `f` are in order, and neither the first proposal nor the answer to
a proposal with a range panics. -/
def ClosesSafely (C : Crypto) (ch : Channel) (f : FeeRatePerKw) : Prop :=
  (∃ b, ch.closingFeeBounds f = some b ∧ b.2.1 ≤ b.2.2) ∧ Safe (maybeSendClosingSigned C f) ch ∧
    ∀ msg range, msg.feeRange = some range → Safe (onClosingSigned C msg f) ch

/-- The fee bounds are in order, and nothing that clamps to them panics, exactly when the target is at
least 127 and an opener's balance covers the lowest fee of 180 satoshi. -/
theorem closing_fees_safe_iff (C : Crypto) (ch : Channel) (f : FeeRatePerKw) :
    ClosesSafely C ch f ↔
      127 ≤ f ∧ (ch.role = .opener → 180 ≤ Msat.toSatFloor (ch.balancesFor true).1) := by
  constructor
  · rintro ⟨⟨b, hb, -⟩, -⟩
    exact closingFeeBounds_isSome.1 ⟨b, hb⟩
  · intro h
    obtain ⟨b, hb⟩ := closingFeeBounds_isSome.2 h
    refine ⟨⟨b, hb, ?_⟩, maybeSendClosingSigned_safe h, fun _ _ hr => onClosingSigned_safe h hr⟩
    have hordered := closingFeeBounds_eq_some hb
    omega

/-! ## Fees within the bounds -/

/-- The fee is within our bounds for the target `f`. -/
def AcceptsFee (ch : Channel) (f : FeeRatePerKw) (fee : Nat) : Prop :=
  ∃ b, ch.closingFeeBounds f = some b ∧ b.2.1 ≤ fee ∧ fee ≤ b.2.2

/-- The transaction pays what the closing transaction of fee `fee` pays. -/
def ClosesAt (C : Crypto) (ch : Channel) (fee : Nat) (tx : Transaction) : Prop :=
  ∃ signed, ch.buildAndSignClosing C fee = .ok signed ∧ tx.output = signed.1.output

/-- What is signed for the peer and what is final has a fee within our bounds. -/
def WithinBounds (C : Crypto) (ch : Channel) (f : FeeRatePerKw) : ClosingSignedOutcome → Prop
  | .reply msg tx => ch.AcceptsFee f msg.feeSatoshis ∧ ∀ t ∈ tx, ch.ClosesAt C msg.feeSatoshis t
  | .done tx => ∃ fee, ch.AcceptsFee f fee ∧ ch.ClosesAt C fee tx

theorem closingFeeBounds_congr (h : ch'.books = ch.books) :
    ch'.closingFeeBounds f = ch.closingFeeBounds f := by
  have hrole : ch'.role = ch.role := congrArg Books.role h
  have hbal : ch'.balancesFor true = ch.balancesFor true := by
    unfold balancesFor
    rw [show ch'.htlcs = ch.htlcs from congrArg Books.htlcs h,
      show ch'.toHolderMsat = ch.toHolderMsat from congrArg Books.toHolderMsat h,
      show ch'.toCounterpartyMsat = ch.toCounterpartyMsat from congrArg Books.toCounterpartyMsat h]
  unfold closingFeeBounds
  rw [hrole, hbal]

theorem AcceptsFee.congr {fee : Nat} (h : ch.AcceptsFee f fee) (hb : ch'.books = ch.books) :
    ch'.AcceptsFee f fee := by
  obtain ⟨b, hbounds, hfee⟩ := h
  exact ⟨b, (closingFeeBounds_congr hb).trans hbounds, hfee⟩

/-- A negotiation has begun, and what we proposed in it is within our bounds. -/
structure Negotiating (f : FeeRatePerKw) (ch : Channel) : Prop where
  begun : 5 ≤ ch.state.rank
  proposed : ∀ sent, ch.lastClosingFeeProposal = some sent → ch.AcceptsFee f sent

/-- What `x` signs and finishes from `s` is within the bounds, and so is the proposal it leaves. -/
abbrev Bounded (C : Crypto) (f : FeeRatePerKw) (x : ChannelAct ClosingSignedOutcome) (s : Channel) :
    Prop :=
  x.wp s (fun o s' => Negotiating f s' ∧ s'.books = s.books ∧ WithinBounds C s f o)
    fun _ s' => Negotiating f s'

theorem finalizeClosing_bounded (h : Negotiating f ch) (fee : Nat) (sig : Signature) :
    Act.wp (finalizeClosing C fee sig) ch
      (fun tx s => Negotiating f s ∧ s.books = ch.books ∧ ch.ClosesAt C fee tx)
      fun _ s => Negotiating f s := by
  simp only [finalizeClosing, Act.wp_bind, Act.wp_get, Act.wp_lift, Act.wp_set, Act.wp_pure]
  refine ⟨fun signed hs => ⟨fun cp _ => ⟨⟨Nat.le_succ 5, h.proposed⟩, rfl, signed, hs, rfl⟩, ?_⟩, ?_⟩
  · exact fun _ _ => h
  · exact fun _ _ => h

theorem closingSigned_fee {fee : Nat} {range : Option (Nat × Nat)} {msg : Wire.ClosingSigned}
    (h : ch.closingSigned C fee range = .ok msg) : msg.feeSatoshis = fee := by
  obtain ⟨signed, -, hmsg⟩ := Fault.bind_eq_ok.1 h
  cases hmsg
  rfl

theorem acceptClosingFee_bounded (h : Negotiating f ch) {fee : Nat} (hfee : ch.AcceptsFee f fee)
    (sig : Signature) (range : Option (Nat × Nat)) :
    Bounded C f (acceptClosingFee C fee sig range) ch := by
  simp only [Bounded, acceptClosingFee, Act.wp_bind, Act.wp_get, Act.wp_lift, Act.wp_pure]
  refine Act.wp_mono (finalizeClosing_bounded h fee sig) ?_ fun _ _ hs => hs
  intro tx s hs
  obtain ⟨hneg, hbooks, hcloses⟩ := hs
  refine ⟨fun msg hmsg => ⟨hneg, hbooks, ?_⟩, fun _ _ => hneg⟩
  obtain rfl := closingSigned_fee hmsg
  refine ⟨hfee, fun t ht => ?_⟩
  obtain rfl := Option.some.inj ht
  exact hcloses

theorem proposeClosingFee_bounded (h : Negotiating f ch) {fee : Nat} (hfee : ch.AcceptsFee f fee)
    (range : Option (Nat × Nat)) : Bounded C f (proposeClosingFee C fee range) ch := by
  simp only [Bounded, proposeClosingFee, Act.wp_bind, Act.wp_get, Act.wp_lift, Act.wp_pure]
  refine ⟨fun msg hmsg => ⟨h, trivial, ?_⟩, fun _ _ => h⟩
  obtain rfl := closingSigned_fee hmsg
  exact ⟨hfee, fun _ ht => by cases ht⟩

/-- A proposal within the bounds keeps the negotiation within them. -/
theorem Negotiating.propose (h : Negotiating f ch) {fee : Nat} (hfee : ch.AcceptsFee f fee) :
    Negotiating f { ch with lastClosingFeeProposal := some fee } := by
  refine ⟨h.begun, fun sent hsent => ?_⟩
  obtain rfl := Option.some.inj hsent
  exact hfee

/-- A choice inside the overlap is inside our range. -/
theorem negotiateInRange_bounded (h : Negotiating f ch) (msg : Wire.ClosingSigned)
    {bounds : Nat × Nat × Nat} (hb : ch.closingFeeBounds f = some bounds)
    (range : Wire.ClosingSignedFeeRange) : Bounded C f (negotiateInRange C msg bounds range) ch := by
  simp only [Bounded, negotiateInRange, Act.wp_bind, Act.wp_get, Act.wp_lift, Act.wp_ite,
    Act.wp_modify, Act.wp_pure, Fault.require_eq_ok]
  refine ⟨fun _ hoverlap => ⟨fun _ => ⟨fun _ hin => ?_, fun _ _ => h⟩, fun _ => ?_⟩, fun _ _ => h⟩
  · have hfee : ch.AcceptsFee f msg.feeSatoshis := ⟨bounds, hb, by omega, by omega⟩
    refine Act.wp_mono (acceptClosingFee_bounded h hfee msg.signature _) ?_ fun _ _ hs => hs
    intro o s hs
    obtain ⟨hneg, hbooks, ho⟩ := hs
    exact ⟨hneg.propose (hfee.congr hbooks), hbooks, ho⟩
  · cases hlast : ch.lastClosingFeeProposal with
    | some sent =>
      simp only [Act.wp_bind, Act.wp_lift, Act.wp_pure, Fault.require_eq_ok]
      refine ⟨fun _ heq => ?_, fun _ _ => h⟩
      have hfee : ch.AcceptsFee f msg.feeSatoshis := heq ▸ h.proposed sent hlast
      refine Act.wp_mono (finalizeClosing_bounded h _ _) ?_ fun _ _ hs => hs
      exact fun tx s hs => ⟨hs.1, hs.2.1, _, hfee, hs.2.2⟩
    | none =>
      simp only [Act.wp_bind, Act.wp_expect, Act.wp_modify, Act.wp_ite]
      refine ⟨fun fee hclamp => ?_, fun _ => h⟩
      have hin := clamp_bounds hclamp
      have hfee : ch.AcceptsFee f fee := ⟨bounds, hb, by omega, by omega⟩
      exact ⟨fun _ => acceptClosingFee_bounded (h.propose hfee) hfee _ _,
        fun _ => proposeClosingFee_bounded (h.propose hfee) hfee _⟩

/-- The answer to a fee without a range is within the bounds. -/
theorem negotiateLegacy_bounded (h : Negotiating f ch) (msg : Wire.ClosingSigned) {ourFee : Nat}
    (hfee : ch.AcceptsFee f (ch.legacyFee ourFee msg.feeSatoshis)) :
    Bounded C f (negotiateLegacy C msg ourFee) ch := by
  show Act.wp (if ch.legacyFee ourFee msg.feeSatoshis = msg.feeSatoshis then _ else _)
    { ch with lastClosingFeeProposal := some (ch.legacyFee ourFee msg.feeSatoshis) } _ _
  rw [Act.wp_ite]
  refine ⟨fun heq => ?_, fun _ => proposeClosingFee_bounded (h.propose hfee) hfee none⟩
  rw [heq] at hfee ⊢
  exact acceptClosingFee_bounded (h.propose hfee) hfee _ _

/-! ## Whole negotiations -/

/-- The fee `theirs` in answer to our `sent` leads to an answer within `b`: theirs when they are next
to each other, the average otherwise. -/
def AnswersWithin (b : Nat × Nat × Nat) (sent theirs : Nat) : Prop :=
  if (theirs - sent) + (sent - theirs) ≤ 1 then b.2.1 ≤ theirs ∧ theirs ≤ b.2.2
  else 2 * b.2.1 ≤ theirs + sent ∧ theirs + sent ≤ 2 * b.2.2 + 1

instance (b : Nat × Nat × Nat) (sent theirs : Nat) : Decidable (AnswersWithin b sent theirs) := by
  unfold AnswersWithin
  infer_instance

/-- What a negotiation at the target `f` has to meet: every call is made with that target, and a fee
without a range that answers our proposal leads to an answer within our bounds. -/
def Tame (f : FeeRatePerKw) (ch : Channel) : Input → Prop
  | .maybeSendClosingSigned g => g = f
  | .closingSigned msg g => g = f ∧ (msg.feeRange = none → ∀ sent ∈ ch.lastClosingFeeProposal,
      ∀ b ∈ ch.closingFeeBounds f, AnswersWithin b sent msg.feeSatoshis)
  | _ => True

instance (i : Input) : Decidable (Tame f ch i) :=
  match i with
  | .maybeSendClosingSigned g => inferInstanceAs (Decidable (g = f))
  | .closingSigned .. =>
    inferInstanceAs (Decidable (_ ∧ (_ → ∀ sent ∈ ch.lastClosingFeeProposal,
      ∀ b ∈ ch.closingFeeBounds f, AnswersWithin b sent _)))
  | .acceptChannel _ | .createFunding .. | .fundingCreated _ | .fundingSigned _ | .confirmFunding _
  | .channelReady _ | .channelReestablish _ | .sendShutdown _ | .shutdown .. | .sendFulfillHtlc ..
  | .sendFailHtlc .. | .sendFailMalformedHtlc .. | .sendCommitmentSigned | .updateFulfillHtlc _
  | .updateFailHtlc _ | .updateFailMalformedHtlc _ | .commitmentSigned _ | .updateAddHtlc _
  | .sendAddHtlc .. | .revokeAndAck _ | .sendUpdateFee _ | .updateFee _ | .disconnect => .isTrue trivial

/-- A proposal is on the table only in a negotiation. -/
def Offering (f : FeeRatePerKw) (ch : Channel) : Prop :=
  ch.lastClosingFeeProposal ≠ none → Negotiating f ch

theorem Offering.negotiating (h : Offering f ch) :
    Negotiating f { ch with state := .negotiatingClose } := by
  refine ⟨Nat.le_refl 5, fun sent hsent => ?_⟩
  have hlast : ch.lastClosingFeeProposal = some sent := hsent
  exact (h fun hnone => nomatch hlast.symm.trans hnone).proposed sent hlast

theorem Tame.legacy {msg : Wire.ClosingSigned} (h : Tame f ch (.closingSigned msg f))
    (hrange : msg.feeRange = none) {b : Nat × Nat × Nat} (hb : ch.closingFeeBounds f = some b) :
    ch.AcceptsFee f (ch.legacyFee b.1 msg.feeSatoshis) := by
  have hordered := closingFeeBounds_eq_some hb
  refine ⟨b, hb, ?_⟩
  unfold legacyFee
  cases hlast : ch.lastClosingFeeProposal with
  | none => exact hordered
  | some sent =>
    have hsent := h.2 hrange sent hlast b hb
    unfold AnswersWithin at hsent
    split at hsent
    · next hnear =>
      simp only [hnear, if_true]
      exact hsent
    · next hfar =>
      simp only [hfar, if_false]
      omega

theorem onClosingSigned_bounded (h : Offering f ch) {msg : Wire.ClosingSigned}
    (hmsg : Tame f ch (.closingSigned msg f)) :
    Act.wp (onClosingSigned C msg f) ch (fun o s => Negotiating f s ∧ WithinBounds C ch f o)
      fun _ s => Offering f s := by
  have hneg := h.negotiating
  simp only [onClosingSigned, Act.wp_bind, Act.wp_get, Act.wp_lift, Act.wp_set, Act.wp_ite,
    Act.wp_pure, Act.wp_expect]
  refine ⟨fun _ _ => ⟨fun _ _ => ⟨fun hlast => ?_, fun _ => ⟨fun b hb => ?_, fun _ _ => hneg⟩⟩,
    fun _ _ _ => hneg⟩, fun _ _ => h⟩
  · refine Act.wp_mono (finalizeClosing_bounded hneg _ _) ?_ fun _ _ hs _ => hs
    exact fun tx s hs => ⟨hs.1, _, hneg.proposed _ hlast.symm, hs.2.2⟩
  · cases hrange : msg.feeRange with
    | some range =>
      refine Act.wp_mono (negotiateInRange_bounded hneg msg hb range) ?_ fun _ _ hs _ => hs
      exact fun _ _ hs => ⟨hs.1, hs.2.2⟩
    | none =>
      refine Act.wp_mono (negotiateLegacy_bounded hneg msg (hmsg.legacy hrange hb)) ?_ fun _ _ hs _ => hs
      exact fun _ _ hs => ⟨hs.1, hs.2.2⟩

theorem maybeSendClosingSigned_bounded (h : Offering f ch) :
    Act.wp (maybeSendClosingSigned C f) ch
      (fun m s => Offering f s ∧ ∀ msg ∈ m, ch.AcceptsFee f msg.feeSatoshis)
      fun _ s => Offering f s := by
  simp only [maybeSendClosingSigned, Act.wp_bind, Act.wp_get, Act.wp_ite, Act.wp_pure,
    Act.wp_expect, Act.wp_lift, Act.wp_set]
  refine ⟨fun _ => ⟨h, fun _ hm => by cases hm⟩, fun _ => ⟨fun b hb => ⟨fun msg hmsg => ⟨fun _ => ?_, ?_⟩,
    fun _ _ => h⟩, fun _ => h⟩⟩
  · exact h.negotiating.propose ⟨b, hb, closingFeeBounds_eq_some hb⟩
  · intro m hm
    obtain rfl := Option.some.inj hm
    rw [closingSigned_fee hmsg]
    exact ⟨b, hb, closingFeeBounds_eq_some hb⟩

/-- In a negotiation nothing moves the balance: `ch'` is further on with the balance of `ch`. -/
structure Settled (ch ch' : Channel) : Prop where
  begun : 5 ≤ ch'.state.rank
  dormant : Dormant ch'
  role : ch'.role = ch.role
  toHolder : ch'.toHolderMsat = ch.toHolderMsat

theorem Move.settled {s s' : Channel} (hm : Move C s s') (h : Settled ch s) : Settled ch s' := by
  obtain ⟨hnormal, hshutting⟩ := dormant_of_rank (.inr h.begun)
  obtain ⟨-, -, hawaiting⟩ := h.dormant hnormal hshutting
  have hdormant := hm.dormant h.dormant
  have hbegun := h.begun
  cases hm with
  | signInitial _ _ _ hrank => omega
  | admin a ha =>
    refine ⟨?_, hdormant, h.role, h.toHolder⟩
    show 5 ≤ a.state.rank
    rcases ha with ha | ⟨-, hlt⟩
    · rw [ha]
      exact h.begun
    · omega
  | revoke _ _ _ _ _ ha => cases hawaiting.symm.trans ha
  | _ => exact ⟨h.begun, hdormant, h.role, h.toHolder⟩

theorem Stepped.settled {i : Input} (hs : Stepped C ch i ch') (hbegun : 5 ≤ ch.state.rank)
    (huse : InUse ch) : Settled ch ch' := by
  have hstart : Settled ch ch := ⟨hbegun, huse.dormant, rfl, rfl⟩
  have huse' := hs.inUse huse
  cases hs with
  | moves _ hm => exact hm.invariant (fun _ _ hm h => hm.settled h) hstart
  | refused => exact hstart
  | accepted _ _ hst =>
    obtain ⟨hnormal, hshutting⟩ := dormant_of_rank (.inr hbegun)
    exact (hst.elim hnormal hshutting).elim
  | rolledBack => exact ⟨hbegun, huse'.dormant, rfl, rfl⟩

theorem Settled.accepts {fee : Nat} (h : Settled ch ch') (huse : InUse ch) (hbegun : 5 ≤ ch.state.rank)
    (hfee : ch.AcceptsFee f fee) : ch'.AcceptsFee f fee := by
  obtain ⟨hnormal, hshutting⟩ := dormant_of_rank (.inr hbegun)
  obtain ⟨hnormal', hshutting'⟩ := dormant_of_rank (.inr h.begun)
  have hbalance : (ch'.balancesFor true).1 = (ch.balancesFor true).1 := by
    unfold balancesFor
    rw [(huse.dormant hnormal hshutting).1, (h.dormant hnormal' hshutting').1]
    exact h.toHolder
  obtain ⟨b, hb, hin⟩ := hfee
  refine ⟨b, ?_, hin⟩
  rw [← hb]
  unfold closingFeeBounds
  rw [h.role, hbalance]

/-- The inputs of a negotiation. -/
def Input.Negotiates : Input → Prop
  | .maybeSendClosingSigned _ | .closingSigned .. => True
  | _ => False

/-- Only a negotiation changes our proposal. -/
theorem step_proposal (huse : InUse ch) {i : Input} (hi : ¬ i.Negotiates) :
    Act.Ends (step C i) ch fun ch' => ch'.lastClosingFeeProposal = ch.lastClosingFeeProposal := by
  by_cases hc : i.Closing
  · refine (Act.wp_map _ _).2 ?_
    cases i with
    | sendShutdown script =>
      simp only [perform, sendShutdown, Act.wp_bind, Act.wp_get, Act.wp_lift, Act.wp_set, Act.wp_pure]
      exact ⟨fun _ _ => ⟨fun _ _ => ⟨fun _ _ => trivial, fun _ _ _ _ => trivial⟩,
        fun _ _ _ _ => trivial⟩, fun _ _ _ _ => trivial⟩
    | shutdown msg ours =>
      simp only [perform, onShutdown, sendShutdown, Act.wp_bind, Act.wp_get, Act.wp_lift, Act.wp_set,
        Act.wp_ite, Act.wp_map, Act.wp_pure]
      exact ⟨fun _ _ => ⟨fun _ _ => ⟨fun _ => trivial, fun _ => ⟨fun _ _ => ⟨fun _ _ => ⟨fun _ _ => trivial,
        fun _ _ _ _ => trivial⟩, fun _ _ _ _ => trivial⟩, fun _ _ _ _ => trivial⟩⟩,
        fun _ _ _ _ => trivial⟩, fun _ _ _ _ => trivial⟩
    | maybeSendClosingSigned | closingSigned => exact absurd trivial hi
    | _ => exact hc.elim
  · exact (step_closeTerms huse hc).mono fun _ h => congrArg CloseTerms.lastClosingFeeProposal h

/-- A step of a tame negotiation keeps our proposal within the bounds. -/
theorem step_offering (huse : InUse ch) {i : Input} (hi : Tame f ch i) (h : Offering f ch) :
    Act.Ends (step C i) ch (Offering f) := by
  by_cases hn : i.Negotiates
  · refine (Act.wp_map _ _).2 ?_
    cases i with
    | maybeSendClosingSigned g =>
      obtain rfl : g = f := hi
      exact Act.wp_mono (maybeSendClosingSigned_bounded h) (fun _ _ hs => hs.1) fun _ _ hs _ _ => hs
    | closingSigned msg g =>
      obtain rfl : g = f := hi.1
      exact Act.wp_mono (onClosingSigned_bounded h hi) (fun _ _ hs _ => hs.1) fun _ _ hs _ _ => hs
    | _ => exact hn.elim
  · refine ((step_proposal huse hn).and (step_stepped i ch)).mono fun ch' hs hne => ?_
    rw [hs.1] at hne
    have hneg := h hne
    have hsettled := hs.2.settled hneg.begun huse
    refine ⟨hsettled.begun, fun sent hsent => ?_⟩
    exact hsettled.accepts huse hneg.begun (hneg.proposed sent (hs.1.symm.trans hsent))

theorem offering_of_run {tr : Trace Input ChannelError (List Wire.Message)} (h₀ : Fresh C ch₀)
    (hr : Run.Within (step C) (Tame f) ch₀ tr ch) : Offering f ch := by
  have hlast : ch₀.lastClosingFeeProposal = none :=
    congrArg CloseTerms.lastClosingFeeProposal h₀.closeTerms
  refine hr.invariant_of_run (fun hne => absurd hlast hne) fun tr ch i hr hi h => ?_
  exact step_offering (inUse_of_run h₀ hr) hi h

/-! ## The average -/

theorem legacyNext64_eq {ourFee theirFee : Nat} (m : Overflow)
    (hfits : ∀ sent, ch.lastClosingFeeProposal = some sent →
      1 < (theirFee - sent) + (sent - theirFee) → theirFee + sent < 2 ^ 64) :
    legacyNext64 m ch.lastClosingFeeProposal ourFee theirFee = .ok (ch.legacyFee ourFee theirFee) := by
  unfold legacyNext64 legacyFee
  cases hlast : ch.lastClosingFeeProposal with
  | none => rfl
  | some sent =>
    by_cases hnear : (theirFee - sent) + (sent - theirFee) ≤ 1
    · simp only [hnear, if_true]
    · have hsum : theirFee + sent < 2 ^ 64 := hfits sent hlast (by omega)
      simp only [hnear, if_false, Overflow.add, Overflow.word, hsum, if_true]
      rfl

/-- Twice the fee of a 32-bit feerate is far from the end of a word. -/
theorem closing_ceiling_lt (hf : f < 2 ^ 32) {b : Nat × Nat × Nat}
    (hb : ch.closingFeeBounds f = some b) : b.2.2 < 2 ^ 33 := by
  obtain ⟨fee, -, hb⟩ := Option.bind_eq_some_iff.1 hb
  cases hb
  have hfee : FeeRatePerKw.feeForWeight f closingTxWeightBound = f * 714 / 1000 := rfl
  have hnat : @LT.lt Nat _ f (2 ^ 32) := hf
  refine Nat.lt_of_le_of_lt (Nat.min_le_left _ _) ?_
  rw [hfee]
  omega

theorem negotiateLegacy64_eq (hf : f < 2 ^ 32) {msg : Wire.ClosingSigned}
    (hmsg : Tame f ch (.closingSigned msg f)) (hrange : msg.feeRange = none) {b : Nat × Nat × Nat}
    (hb : ch.closingFeeBounds f = some b) (m : Overflow) :
    negotiateLegacy64 m C msg b.1 ch.negotiating = negotiateLegacy C msg b.1 ch.negotiating := by
  have hnext : legacyNext64 m ch.lastClosingFeeProposal b.1 msg.feeSatoshis =
      .ok (ch.legacyFee b.1 msg.feeSatoshis) := by
    refine legacyNext64_eq m fun sent hsent hfar => ?_
    have htame := hmsg.2 hrange sent hsent b hb
    rw [AnswersWithin, if_neg (Nat.not_le.2 hfar)] at htame
    have hhi := closing_ceiling_lt hf hb
    omega
  show (Act.lift (legacyNext64 m ch.lastClosingFeeProposal b.1 msg.feeSatoshis) >>= _) _ = _
  rw [hnext]
  rfl

/-- A tame answer does not overflow: both builds compute it exactly. -/
theorem onClosingSigned64_eq (hf : f < 2 ^ 32) {msg : Wire.ClosingSigned}
    (hmsg : Tame f ch (.closingSigned msg f)) (m : Overflow) :
    onClosingSigned64 m C msg f ch = onClosingSigned C msg f ch := by
  refine Act.lift_bind_congr fun _ _ => ?_
  show (Act.lift _ >>= _) ch.negotiating = (Act.lift _ >>= _) ch.negotiating
  refine Act.lift_bind_congr fun _ _ => ?_
  by_cases hlast : some msg.feeSatoshis = ch.lastClosingFeeProposal
  · simp only [if_pos hlast]
  · simp only [if_neg hlast]
    refine Act.expect_bind_congr fun b hb => ?_
    cases hrange : msg.feeRange with
    | some range => rfl
    | none => exact negotiateLegacy64_eq hf hmsg hrange hb m

/-- In a negotiation at one target, all that a channel signs and finishes is within its bounds and no
average overflows, as long as every fee without a range that answers our proposal leaves an answer
within the bounds. -/
theorem closing_fees_bounded {tr : Trace Input ChannelError (List Wire.Message)} (hf : f < 2 ^ 32)
    (h₀ : Fresh C ch₀) (hr : Run.Within (step C) (Tame f) ch₀ tr ch) :
    (∀ msg ch', maybeSendClosingSigned C f ch = .ok (some msg) ch' →
      ch.AcceptsFee f msg.feeSatoshis) ∧
    ∀ msg, Tame f ch (.closingSigned msg f) →
      (∀ m, onClosingSigned64 m C msg f ch = onClosingSigned C msg f ch) ∧
      ∀ o ch', onClosingSigned C msg f ch = .ok o ch' → WithinBounds C ch f o := by
  have h := offering_of_run h₀ hr
  refine ⟨fun msg ch' hsend => ?_, fun msg hmsg => ⟨onClosingSigned64_eq hf hmsg, fun o ch' ho => ?_⟩⟩
  · exact (Act.wp_ok (maybeSendClosingSigned_bounded h) hsend).2 msg rfl
  · exact (Act.wp_ok (onClosingSigned_bounded h hmsg) ho).2

end Channel

namespace Demo

open Channel

/-- An opener that pushed all but a hundred satoshi. -/
def pushing : Channel × Wire.OpenChannel :=
  (newOutbound (signer 1) {} .regtest (bytes 7) 1000000 999900000 1000).toOption.get
    (by decide +kernel)

/-- The accepter of that channel. -/
def pushed : Channel × Wire.AcceptChannel :=
  (newInbound C (signer 2) {} .regtest pushing.2).toOption.get (by decide +kernel)

theorem pushing_fresh : Fresh C pushing.1 := by
  have h : (newOutbound (signer 1) {} .regtest (bytes 7) 1000000 999900000 1000).toOption =
      some pushing := (Option.some_get _).symm
  exact .outbound (Fault.toOption_eq_some.1 h)

/-- Both ends of the opened channel agree to close it. -/
def closing : List Pair.Input :=
  [.command .a (.sendShutdown closingScript),
    .command .a (.shutdown ⟨channelIdFromFunding (bytes 9) 0, closingScript⟩ closingScript)]

end Demo

open Demo in
/-- The opener that pushed all but a hundred satoshi panics when it starts to close. -/
theorem Channel.closing_bounds_cross : ∃ ch₀ tr ch f, Channel.Fresh Demo.C ch₀ ∧
    Run (Channel.step Demo.C) ch₀ tr ch ∧ ch.readyToNegotiateClose = true ∧
    ¬ Channel.ClosesSafely Demo.C ch f := by
  obtain ⟨tr, ch, hr, ⟨hready, hbounds⟩, -⟩ := Pair.exists_chan Demo.C
    ⟨pushing.1, pushed.1, [.acceptChannel pushed.2], []⟩ (handshake ++ closing) .a
    (fun ch => ch.readyToNegotiateClose = true ∧ ch.closingFeeBounds 1000 = none) (by decide +kernel)
  refine ⟨pushing.1, tr, ch, 1000, pushing_fresh, hr, hready, fun hsafe => ?_⟩
  obtain ⟨b, hb, -⟩ := hsafe.1
  cases hbounds.symm.trans hb

/-- The opener after its proposal of 714 satoshi, and a fee of a thousand without a range. -/
theorem Channel.closing_fees_bounded_alice :
    ∃ tr ch, Run.Within (Channel.step Demo.C) (Channel.Tame 1000) Demo.alice.1 tr ch ∧
      ch.lastClosingFeeProposal = some 714 ∧
      ∀ sig o ch', Channel.onClosingSigned Demo.C ⟨ch.channelId, 1000, sig, none⟩ 1000 ch = .ok o ch' →
        Channel.WithinBounds Demo.C ch 1000 o := by
  obtain ⟨tr, ch, hr, hlast, hbounds⟩ := Run.Within.exists_of_exec (f := Channel.step Demo.C)
    (A := Channel.Tame 1000) (s := Demo.alice.1)
    (Pair.inputs Demo.C .a Demo.start
      (Demo.handshake ++ Demo.closing ++ [.command .a (.maybeSendClosingSigned 1000)]))
    (fun ch => ch.lastClosingFeeProposal = some 714 ∧
      ∀ b ∈ ch.closingFeeBounds 1000, Channel.AnswersWithin b 714 1000) (by
      rw [Demo.alice_tabled, Demo.start_tabled]
      decide +kernel)
  refine ⟨tr, ch, hr, hlast, fun sig o ch' ho => ?_⟩
  refine ((Channel.closing_fees_bounded (by decide) Demo.alice_fresh hr).2 _ ⟨rfl, ?_⟩).2 o ch' ho
  intro _ sent hsent b hb
  have hsent' : some 714 = some sent := hlast.symm.trans hsent
  rw [← Option.some.inj hsent']
  exact hbounds b hb

/-- The opener's answer to the accepter's signature of fee `fee`, without a range. -/
def Demo.legacyReply (p : Pair) (fee : Nat) : Option Wire.ClosingSigned := do
  let msg ← (p.chanB.closingSigned Demo.C fee none).toOption
  match Channel.onClosingSigned Demo.C msg 1000 p.chanA with
  | .ok (.reply reply none) _ => some reply
  | _ => none

/-- The opener proposes 714 satoshi and is answered with 900000: the average it signs is far above its
highest fee of 1428. -/
theorem Channel.closing_fee_out_of_bounds :
    ∃ tr ch msg reply ch', Run (Channel.step Demo.C) Demo.alice.1 tr ch ∧
      Channel.onClosingSigned Demo.C msg 1000 ch = .ok (.reply reply none) ch' ∧
      reply.feeSatoshis = 450357 ∧ ¬ ch.AcceptsFee 1000 reply.feeSatoshis := by
  obtain ⟨tr, p, hr, hbounds, hreply⟩ := Run.exists_of_exec (f := Pair.step Demo.C) (s := Demo.start)
    (Demo.handshake ++ Demo.closing ++ [.command .a (.maybeSendClosingSigned 1000),
      .command .b (.sendShutdown Demo.closingScript),
      .command .b (.shutdown ⟨channelIdFromFunding (Demo.bytes 9) 0, Demo.closingScript⟩
        Demo.closingScript)])
    (fun p => p.chanA.closingFeeBounds 1000 = some (714, 180, 1428) ∧
      (Demo.legacyReply p 900000).map (·.feeSatoshis) = some 450357) (by
      rw [Demo.start_tabled]
      decide +kernel)
  obtain ⟨tr', hr', -⟩ := Pair.run_chan hr .a
  obtain ⟨reply, hreply, hfee⟩ := Option.map_eq_some_iff.1 hreply
  obtain ⟨msg, -, hmsg⟩ := Option.bind_eq_some_iff.1 hreply
  split at hmsg
  · next _ reply' ch' hclosing =>
    obtain rfl := Option.some.inj hmsg
    refine ⟨tr', p.chanA, msg, reply', ch', hr', hclosing, hfee, fun h => ?_⟩
    obtain ⟨b, hb, -, hhi⟩ := h
    obtain rfl := Option.some.inj (hbounds.symm.trans hb)
    rw [hfee] at hhi
    exact absurd hhi (by decide)
  · cases hmsg
