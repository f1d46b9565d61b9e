import Keraunos.Channel.Pair
import Keraunos.Channel.Word

/-!
# Where amounts overflow

The opening and the admission of the peer's HTLCs compute with the amounts of a message before anything
bounds them. Each of them meets its exact counterpart as long as the amounts fit into a word, and only
then (`admits_exactly_iff`, `opens_exactly_iff`).
-/

open Bitcoin Commitment Overflow

/-! ## Opening -/

namespace Channel

/-- The products of the reserve and of the in-flight limit are words. -/
structure TermsFit (config : ChannelConfig) (fundingSat : Nat) : Prop where
  reserve : fundingSat * config.reservePpm < 2 ^ 64
  limit : fundingSat / 1000000 * config.maxHtlcValueInFlightPpm * 1000 < 2 ^ 64

theorem reserveFor64_tracks (config : ChannelConfig) (fundingSat : Nat) :
    Tracks (fun m => reserveFor64 m config fundingSat) (fundingSat * config.reservePpm < 2 ^ 64)
      (.ok (reserveFor config fundingSat)) :=
  ((Tracks.mul _ _).bind (.pure _)).congr (by simp)

theorem maxInFlightFor64_tracks (config : ChannelConfig) (fundingSat : Nat) :
    Tracks (fun m => maxInFlightFor64 m config fundingSat)
      (fundingSat / 1000000 * config.maxHtlcValueInFlightPpm * 1000 < 2 ^ 64)
      (.ok (maxInFlightFor config fundingSat)) := by
  have h : Tracks (fun m => maxInFlightFor64 m config fundingSat) _ _ :=
    (Tracks.mul _ _).bind (Tracks.mul _ _)
  refine h.congr (and_iff_right_of_imp fun hlt => Nat.lt_of_le_of_lt ?_ hlt)
  exact Nat.le_mul_of_pos_right _ (by decide)

/-- The reserve we select is a word in msat when its product and the dust limit are. -/
theorem reserveFor_lt {config : ChannelConfig} {fundingSat : Nat}
    (h : fundingSat * config.reservePpm < 2 ^ 64) :
    reserveFor config fundingSat * 1000 < 2 ^ 64 ↔ config.dustLimitSat * 1000 < 2 ^ 64 := by
  unfold reserveFor
  generalize fundingSat * config.reservePpm = n at h ⊢
  omega

/-- The balances are the funding, and the reserves are words in msat. -/
structure StartsExactly (ch : Channel) : Prop where
  total : ch.toHolderMsat + ch.toCounterpartyMsat = ch.fundingAmountSat * 1000
  holder : ch.params.holderSelectedReserveSat * 1000 < 2 ^ 64
  counterparty : ch.params.counterpartySelectedReserveSat * 1000 < 2 ^ 64

section
variable (C : Crypto) (signer : ChannelSigner) (config : ChannelConfig) (network : Network)

/-- No product of the opener wraps, and its channel starts exactly, before and after
`accept_channel`. -/
structure OutboundExact (tid : ChannelId) (funding : Nat) (push : Msat) (feerate : FeeRatePerKw)
    (accept : Wire.AcceptChannel) : Prop where
  fits : newOutbound64 .checked signer config network tid funding push feerate ≠ .error .panic
  exact : ∀ out, newOutbound64 .unchecked signer config network tid funding push feerate = .ok out →
    StartsExactly out.1 ∧
      (onAcceptChannel C accept).wp out.1 (fun _ ch => StartsExactly ch) fun e _ => e ≠ .panic

/-- The opener's amounts are words: the funding, and unless the push exceeds it the products of the
configuration and the reserve of an `accept_channel` that passes its checks. -/
def OutboundFits (tid : ChannelId) (funding : Nat) (push : Msat) (feerate : FeeRatePerKw)
    (accept : Wire.AcceptChannel) : Prop :=
  funding * 1000 < 2 ^ 64 ∧ (push ≤ funding * 1000 →
    TermsFit config funding ∧ config.dustLimitSat * 1000 < 2 ^ 64 ∧
    ((outboundChannel signer config network tid funding push feerate
      (openingTerms config funding push)).1.checkAcceptChannel accept = .ok () →
      accept.channelReserveSatoshis * 1000 < 2 ^ 64))

theorem newOutbound64_tracks (tid : ChannelId) (funding : Nat) (push : Msat)
    (feerate : FeeRatePerKw) :
    Tracks (fun m => newOutbound64 m signer config network tid funding push feerate)
      (funding * 1000 < 2 ^ 64 ∧ (push ≤ funding * 1000 → TermsFit config funding))
      (newOutbound signer config network tid funding push feerate) := by
  have h : Tracks (fun m => newOutbound64 m signer config network tid funding push feerate) _ _ :=
    (Tracks.mul _ _).bind <| Tracks.require fun _ => (reserveFor64_tracks config funding).bind <|
      (maxInFlightFor64_tracks config funding).bind <| (Tracks.sub _ _).bind (.pure _)
  have hv : newOutbound signer config network tid funding push feerate =
      (Fault.require (push ≤ funding * 1000) (.invalidState "push exceeds funding") >>= fun _ =>
        .ok (outboundChannel signer config network tid funding push feerate
          (openingTerms config funding push))) := by
    unfold newOutbound Fault.require
    by_cases hpush : push ≤ funding * 1000
    · rw [if_neg (Nat.not_lt.2 hpush), if_pos hpush]
      rfl
    · rw [if_pos (Nat.not_le.1 hpush), if_neg hpush]
      rfl
  rw [hv]
  refine h.congr (and_congr_right fun _ => forall_congr' fun hpush => ?_)
  constructor
  · intro ⟨hreserve, hlimit, _⟩
    exact ⟨hreserve, hlimit⟩
  · intro hterms
    exact ⟨hterms.reserve, hterms.limit, hpush, trivial⟩

theorem onAcceptChannel_exact {C : Crypto} {ch : Channel} {msg : Wire.AcceptChannel}
    (hch : StartsExactly ch) :
    ((onAcceptChannel C msg).wp ch (fun _ ch => StartsExactly ch) fun e _ => e ≠ .panic) ↔
      (ch.checkAcceptChannel msg = .ok () → msg.channelReserveSatoshis * 1000 < 2 ^ 64) := by
  have hpanic : ∀ e, ch.checkAcceptChannel msg = .error e → e ≠ .panic := by
    rintro e he rfl
    simp [checkAcceptChannel] at he
  simp only [onAcceptChannel, Act.wp_bind, Act.wp_get, Act.wp_lift, Act.wp_set]
  constructor
  · intro h hok
    exact (h.1 () hok).counterparty
  · intro h
    exact ⟨fun _ hok => ⟨hch.total, hch.holder, h hok⟩, hpanic⟩

theorem outboundExact_iff (tid : ChannelId) (funding : Nat) (push : Msat) (feerate : FeeRatePerKw)
    (accept : Wire.AcceptChannel) :
    OutboundExact C signer config network tid funding push feerate accept ↔
      OutboundFits signer config network tid funding push feerate accept := by
  have hv : newOutbound signer config network tid funding push feerate ≠ .error .panic := by
    unfold newOutbound
    split <;> nofun
  have hiff := (newOutbound64_tracks signer config network tid funding push feerate).exact_iff
    (P := fun out => StartsExactly out.1 ∧
      (onAcceptChannel C accept).wp out.1 (fun _ ch => StartsExactly ch) fun e _ => e ≠ .panic) hv
  refine Iff.trans ⟨fun h => ⟨h.fits, h.exact⟩, fun h => ⟨h.1, h.2⟩⟩ (hiff.trans ?_)
  rw [and_assoc]
  refine and_congr_right fun _ => ?_
  by_cases hpush : push ≤ funding * 1000
  · have hout : newOutbound signer config network tid funding push feerate =
        .ok (outboundChannel signer config network tid funding push feerate
          (openingTerms config funding push)) := if_neg (Nat.not_lt.2 hpush)
    have htotal : funding * 1000 - push + push = funding * 1000 := Nat.sub_add_cancel hpush
    rw [hout]
    constructor
    · intro ⟨hterms, hP⟩ _
      obtain ⟨hstart, haccept⟩ := hP _ rfl
      refine ⟨hterms hpush, (reserveFor_lt (hterms hpush).reserve).1 hstart.holder, ?_⟩
      exact (onAcceptChannel_exact hstart).1 haccept
    · intro h
      obtain ⟨hterms, hdust, haccept⟩ := h hpush
      refine ⟨fun _ => hterms, ?_⟩
      rintro _ ⟨⟩
      have hstart : StartsExactly (outboundChannel signer config network tid funding push feerate
          (openingTerms config funding push)).1 :=
        ⟨htotal, (reserveFor_lt hterms.reserve).2 hdust, (by decide : 0 * 1000 < 2 ^ 64)⟩
      exact ⟨hstart, (onAcceptChannel_exact hstart).2 haccept⟩
  · have hout : newOutbound signer config network tid funding push feerate =
        .error (.err (.invalidState "push exceeds funding")) := if_pos (Nat.not_le.1 hpush)
    rw [hout]
    exact ⟨fun _ h => absurd h hpush, fun _ => ⟨fun h => absurd h hpush, fun _ h => nomatch h⟩⟩

/-- No product of the accepter wraps, and its channel starts exactly. -/
structure InboundExact (msg : Wire.OpenChannel) : Prop where
  fits : newInbound64 .checked C signer config network msg ≠ .error .panic
  exact : ∀ out, newInbound64 .unchecked C signer config network msg = .ok out → StartsExactly out.1

/-- The accepter's amounts are words, as far as its checks let it get: the funding, the product of the
reserve, the one of the limit, and both reserves in msat. -/
def InboundFits (msg : Wire.OpenChannel) : Prop :=
  msg.chainHash = network.chainHash → msg.fundingSatoshis * 1000 < 2 ^ 64 ∧
    (msg.pushMsat ≤ msg.fundingSatoshis * 1000 → checkOpenChannelFields msg = .ok () →
      msg.fundingSatoshis * config.reservePpm < 2 ^ 64 ∧
      (msg.dustLimitSatoshis ≤ reserveFor config msg.fundingSatoshis →
        msg.fundingSatoshis / 1000000 * config.maxHtlcValueInFlightPpm * 1000 < 2 ^ 64 ∧
        config.dustLimitSat * 1000 < 2 ^ 64 ∧ msg.channelReserveSatoshis * 1000 < 2 ^ 64))

/-- The checks of `new_inbound`, with those between its products in one. -/
theorem newInbound_eq (msg : Wire.OpenChannel) :
    newInbound C signer config network msg =
      (Fault.require (msg.chainHash = network.chainHash) (.close "unknown chain") >>= fun _ =>
        Fault.require (msg.pushMsat ≤ msg.fundingSatoshis * 1000) (.close "push exceeds funding") >>=
          fun _ => checkOpenChannelFields msg >>= fun _ =>
        Fault.require (msg.dustLimitSatoshis ≤ reserveFor config msg.fundingSatoshis)
          (.close "our reserve below their dust limit") >>= fun _ =>
        .ok (inboundChannel C signer config msg
          (openingTerms config msg.fundingSatoshis msg.pushMsat))) := by
  simp only [newInbound, checkOpenChannel, checkOpenChannelFields, bind_assoc]
  rfl

theorem newInbound64_tracks (msg : Wire.OpenChannel) :
    Tracks (fun m => newInbound64 m C signer config network msg)
      (msg.chainHash = network.chainHash → msg.fundingSatoshis * 1000 < 2 ^ 64 ∧
        (msg.pushMsat ≤ msg.fundingSatoshis * 1000 → checkOpenChannelFields msg = .ok () →
          msg.fundingSatoshis * config.reservePpm < 2 ^ 64 ∧
          (msg.dustLimitSatoshis ≤ reserveFor config msg.fundingSatoshis →
            msg.fundingSatoshis / 1000000 * config.maxHtlcValueInFlightPpm * 1000 < 2 ^ 64)))
      (newInbound C signer config network msg) := by
  have h : Tracks (fun m => newInbound64 m C signer config network msg) _ _ :=
    Tracks.require fun _ => (Tracks.mul _ _).bind <| Tracks.require fun _ => Tracks.check fun _ =>
      (reserveFor64_tracks config msg.fundingSatoshis).bind <| Tracks.require fun _ =>
      (maxInFlightFor64_tracks config msg.fundingSatoshis).bind <| (Tracks.sub _ _).bind (.pure _)
  rw [newInbound_eq]
  refine h.congr (forall_congr' fun _ => and_congr_right fun _ => forall_congr' fun hpush =>
    forall_congr' fun _ => and_congr_right fun _ => forall_congr' fun _ => ?_)
  exact and_iff_left ⟨hpush, trivial⟩

theorem newInbound_eq_ok {msg : Wire.OpenChannel} {out : Channel × Wire.AcceptChannel} :
    newInbound C signer config network msg = .ok out ↔
      msg.chainHash = network.chainHash ∧ msg.pushMsat ≤ msg.fundingSatoshis * 1000 ∧
      checkOpenChannelFields msg = .ok () ∧
      msg.dustLimitSatoshis ≤ reserveFor config msg.fundingSatoshis ∧
      out = inboundChannel C signer config msg
        (openingTerms config msg.fundingSatoshis msg.pushMsat) := by
  rw [newInbound_eq]
  simp only [Fault.bind_eq_ok, Fault.require_eq_ok, Except.ok.injEq]
  constructor
  · rintro ⟨_, hchain, _, hpush, _, hfields, _, hdust, hout⟩
    exact ⟨hchain, hpush, hfields, hdust, hout.symm⟩
  · rintro ⟨hchain, hpush, hfields, hdust, hout⟩
    exact ⟨(), hchain, (), hpush, (), hfields, (), hdust, hout.symm⟩

theorem inboundExact_iff (msg : Wire.OpenChannel) :
    InboundExact C signer config network msg ↔ InboundFits config network msg := by
  have hv : newInbound C signer config network msg ≠ .error .panic := by
    intro h
    simp [newInbound, checkOpenChannel, pure, Except.pure] at h
  have hiff := (newInbound64_tracks C signer config network msg).exact_iff
    (P := fun out => StartsExactly out.1) hv
  refine Iff.trans ⟨fun h => ⟨h.fits, h.exact⟩, fun h => ⟨h.1, h.2⟩⟩ (hiff.trans ?_)
  constructor
  · rintro ⟨hfits, hP⟩ hchain
    refine ⟨(hfits hchain).1, fun hpush hfields => ?_⟩
    obtain ⟨hreserve, hlimit⟩ := (hfits hchain).2 hpush hfields
    refine ⟨hreserve, fun hdust => ?_⟩
    have hstart := hP _ ((newInbound_eq_ok C signer config network).2
      ⟨hchain, hpush, hfields, hdust, rfl⟩)
    exact ⟨hlimit hdust, (reserveFor_lt hreserve).1 hstart.holder, hstart.counterparty⟩
  · intro h
    refine ⟨fun hchain => ⟨(h hchain).1, fun hpush hfields => ?_⟩, fun out hout => ?_⟩
    · obtain ⟨hreserve, hrest⟩ := (h hchain).2 hpush hfields
      exact ⟨hreserve, fun hdust => (hrest hdust).1⟩
    · obtain ⟨hchain, hpush, hfields, hdust, rfl⟩ := (newInbound_eq_ok C signer config network).1 hout
      obtain ⟨hreserve, hrest⟩ := (h hchain).2 hpush hfields
      obtain ⟨_, hours, htheirs⟩ := hrest hdust
      exact ⟨Nat.add_sub_of_le hpush, (reserveFor_lt hreserve).2 hours, htheirs⟩

end

end Channel

namespace Channel

/-- Opening is exact while the amounts it multiplies are words. -/
theorem opens_exactly_iff (C : Crypto) (signer : ChannelSigner) (config : ChannelConfig)
    (network : Network) :
    (∀ tid funding push feerate accept,
      OutboundExact C signer config network tid funding push feerate accept ↔
        OutboundFits signer config network tid funding push feerate accept) ∧
    ∀ msg, InboundExact C signer config network msg ↔ InboundFits config network msg :=
  ⟨outboundExact_iff C signer config network, inboundExact_iff C signer config network⟩

end Channel

/-- The request for a channel whose capacity in msat is `384` more than `2 ^ 64`. -/
def Demo.overflowingOpen : Wire.OpenChannel := { alice.2 with fundingSatoshis := 18446744073709552 }

namespace Channel

/-- An unchecked build accepts it with balances of `384` msat. -/
theorem opens_overflowing :
    ¬ InboundExact Demo.C (Demo.signer 2) {} .regtest Demo.overflowingOpen := by
  have hout : ((newInbound64 .unchecked Demo.C (Demo.signer 2) {} .regtest
      Demo.overflowingOpen).toOption.any fun out =>
        out.1.toHolderMsat + out.1.toCounterpartyMsat ≠ out.1.fundingAmountSat * 1000) = true := by
    decide +kernel
  obtain ⟨out, hsome, htotal⟩ := (Option.any_eq_true _ _).1 hout
  intro h
  exact of_decide_eq_true htotal (h.exact out (Fault.toOption_eq_some.1 hsome)).total

end Channel

/-! ## Admission -/

namespace Htlc

/-- What a fulfilled HTLC adds to a balance, when it is no longer in the commitment. -/
def CreditFits (h : Htlc) (phase : HtlcPhase) (bal : Msat × Msat) : Prop :=
  phase.credited = true → (∃ preimage, h.resolution = some (.fulfill preimage)) →
    (if h.outbound then bal.2 else bal.1) + h.amountMsat < 2 ^ 64

theorem applyBalance64_tracks (h : Htlc) (phase : HtlcPhase) (bal : Msat × Msat) :
    Tracks (fun m => h.applyBalance64 m phase bal) (h.CreditFits phase bal)
      (.ok (h.applyBalance phase bal)) := by
  unfold applyBalance64 applyBalance CreditFits
  by_cases hinc : phase.included
  · have hcred : phase.credited = false := by cases phase <;> first | rfl | cases hinc
    simp only [hinc, if_true, hcred]
    exact (Tracks.pure _).congr (by simp)
  by_cases hcred : phase.credited
  · simp only [hinc, hcred, if_true, if_false, Bool.false_eq_true]
    rcases h.resolution with _ | _ | _ | _
    · exact (Tracks.pure _).congr (by simp)
    · rcases h.outbound with _ | _
      · exact ((Tracks.add _ _).bind (.pure _)).congr (by simp)
      · exact ((Tracks.add _ _).bind (.pure _)).congr (by simp)
    · exact (Tracks.pure _).congr (by simp)
    · exact (Tracks.pure _).congr (by simp)
  · simp only [hinc, hcred, if_false, Bool.false_eq_true]
    exact (Tracks.pure _).congr (by simp)

end Htlc

namespace Channel

variable {ch : Channel} {msg : Wire.UpdateAddHtlc}

/-- Every credit of `balances_for` fits. -/
def CreditsFit (ch : Channel) (holderSide : Bool) : Prop :=
  FoldFits (fun bal h => h.CreditFits (h.phase holderSide) bal)
    (fun bal h => h.applyBalance (h.phase holderSide) bal) (ch.toHolderMsat, ch.toCounterpartyMsat)
    ch.htlcs

theorem balancesFor64_tracks (ch : Channel) (holderSide : Bool) :
    Tracks (fun m => ch.balancesFor64 m holderSide) (ch.CreditsFit holderSide)
      (.ok (ch.balancesFor holderSide)) :=
  Tracks.foldlM (fun bal h => h.applyBalance64_tracks (h.phase holderSide) bal) _ _

/-- The fee that is added for a peer that pays it. -/
def peerFee (ch : Channel) : Msat :=
  if ch.role = .accepter then commitmentFee ch.feerateHolder (ch.includedCount true + 1) else 0

/-- The product of feerate and weight behind `peerFee`. -/
def PeerFeeFits (ch : Channel) : Prop :=
  ch.role = .accepter → ch.feerateHolder *
    (commitmentTxBaseWeight + commitmentTxWeightPerHtlc * (ch.includedCount true + 1)) < 2 ^ 64

theorem peerFee64_tracks (ch : Channel) :
    Tracks (fun m => ch.peerFee64 m) ch.PeerFeeFits (.ok ch.peerFee) := by
  unfold peerFee64 peerFee PeerFeeFits
  by_cases hrole : ch.role = .accepter
  · simp only [hrole, if_true]
    have h := (Tracks.mul (ε := ChannelError) ch.feerateHolder (commitmentTxBaseWeight +
      commitmentTxWeightPerHtlc * (ch.includedCount true + 1))).bind
      (f := fun m product => m.mul (product / 1000) 1000) (Tracks.mul _ _)
    refine h.congr ?_
    constructor
    · intro h _
      exact h.1
    · intro h
      exact ⟨h trivial, Nat.lt_of_le_of_lt (Nat.div_mul_le_self _ _) (h trivial)⟩
  · simp only [hrole, if_false]
    exact (Tracks.pure _).congr (by simp)

/-- The value of the live inbound HTLCs together with the new one. -/
def inFlightWith (ch : Channel) (msg : Wire.UpdateAddHtlc) : Msat :=
  ((ch.live false).map (·.amountMsat)).sum + msg.amountMsat

/-- What the peer's balance has to cover. -/
def neededFor (ch : Channel) (msg : Wire.UpdateAddHtlc) : Msat :=
  msg.amountMsat + ch.params.holderSelectedReserveSat * 1000 + ch.peerFee

/-- The sums of `on_update_add_htlc` that are computed for `msg` are words. -/
def AdmissionFits (ch : Channel) (msg : Wire.UpdateAddHtlc) : Prop :=
  ch.checkUpdateAddFields msg = .ok () → ch.inFlightWith msg < 2 ^ 64 ∧
    (ch.inFlightWith msg ≤ ch.params.holderMaxHtlcValueInFlightMsat →
      ch.CreditsFit true ∧ ch.PeerFeeFits ∧ ch.neededFor msg < 2 ^ 64 ∧
      (ch.neededFor msg ≤ (ch.balancesFor true).2 → ch.nextCounterpartyHtlcId + 1 < 2 ^ 64))

theorem checkUpdateAddHtlc64_tracks (ch : Channel) (msg : Wire.UpdateAddHtlc) :
    Tracks (fun m => ch.checkUpdateAddHtlc64 m msg) (ch.AdmissionFits msg)
      (ch.checkUpdateAddHtlc msg >>= fun _ => .ok (ch.nextCounterpartyHtlcId + 1)) := by
  have h : Tracks (fun m => ch.checkUpdateAddHtlc64 m msg) _ _ :=
    Tracks.check fun _ => (Tracks.sum _).bind <| (Tracks.add _ _).bind <| Tracks.require fun _ =>
      (ch.balancesFor64_tracks true).bind <| (Tracks.mul _ _).bind <| (Tracks.add _ _).bind <|
      ch.peerFee64_tracks.bind <| (Tracks.add _ _).bind <| Tracks.require fun _ => Tracks.add _ _
  have hv : (ch.checkUpdateAddHtlc msg >>= fun _ => .ok (ch.nextCounterpartyHtlcId + 1)) =
      (ch.checkUpdateAddFields msg >>= fun _ =>
        Fault.require (ch.inFlightWith msg ≤ ch.params.holderMaxHtlcValueInFlightMsat)
          (.close "our max_htlc_value_in_flight exceeded") >>= fun _ =>
        Fault.require (ch.neededFor msg ≤ (ch.balancesFor true).2)
          (.close "peer cannot afford HTLC") >>= fun _ => .ok (ch.nextCounterpartyHtlcId + 1)) := by
    simp only [checkUpdateAddHtlc, checkUpdateAddFields, bind_assoc]
    rfl
  rw [hv]
  refine h.congr (imp_congr_right fun _ => ?_)
  -- The sums on the way are words when the last one is.
  constructor
  · rintro ⟨_, hflight, hrest⟩
    refine ⟨hflight, fun hle => ?_⟩
    obtain ⟨hcredits, _, _, hfee, hneeded, hnext⟩ := hrest hle
    exact ⟨hcredits, hfee, hneeded, hnext⟩
  · rintro ⟨hflight, hrest⟩
    refine ⟨Nat.lt_of_le_of_lt (Nat.le_add_right _ _) hflight, hflight, fun hle => ?_⟩
    obtain ⟨hcredits, hfee, hneeded, hnext⟩ := hrest hle
    have hsum : msg.amountMsat + ch.params.holderSelectedReserveSat * 1000 < 2 ^ 64 :=
      Nat.lt_of_le_of_lt (Nat.le_add_right _ _) hneeded
    exact ⟨hcredits, Nat.lt_of_le_of_lt (Nat.le_add_left _ _) hsum, hsum, hfee, hneeded, hnext⟩

/-- The HTLC is within our limit and the peer can pay for it. -/
def Admissible (ch : Channel) (msg : Wire.UpdateAddHtlc) : Prop :=
  ((ch.live false).map (·.amountMsat)).sum + msg.amountMsat ≤
      ch.params.holderMaxHtlcValueInFlightMsat ∧
    msg.amountMsat + ch.params.holderSelectedReserveSat * 1000 +
        (if ch.role = .accepter then commitmentFee ch.feerateHolder (ch.includedCount true + 1) else 0) ≤
      (ch.balancesFor true).2

instance : Decidable (ch.Admissible msg) := inferInstanceAs (Decidable (_ ∧ _))

/-- Nothing overflows, and what is accepted is admissible. -/
structure AdmitsExactly (ch : Channel) (msg : Wire.UpdateAddHtlc) : Prop where
  fits : (onUpdateAddHtlc64 .checked msg).wp ch (fun _ _ => True) fun e _ => e ≠ .panic
  exact : (onUpdateAddHtlc64 .unchecked msg).wp ch (fun _ _ => ch.Admissible msg) fun _ _ => True

theorem checkUpdateAddHtlc_ne_panic : ch.checkUpdateAddHtlc msg ≠ .error .panic := by
  intro h
  simp [checkUpdateAddHtlc] at h

theorem admissible_of_check {u : Unit} (h : ch.checkUpdateAddHtlc msg = .ok u) :
    ch.Admissible msg := by
  simp only [checkUpdateAddHtlc, Fault.bind_eq_ok, Fault.require_eq_ok] at h
  obtain ⟨_, -, _, -, _, -, _, -, _, -, _, -, _, -, _, hflight, hneeded⟩ := h
  exact ⟨hflight, hneeded⟩

theorem admitsExactly_iff_check :
    AdmitsExactly ch msg ↔ ch.checkUpdateAddHtlc64 .checked msg ≠ .error .panic ∧
      ∀ next, ch.checkUpdateAddHtlc64 .unchecked msg = .ok next → ch.Admissible msg := by
  have hfits : ((onUpdateAddHtlc64 .checked msg).wp ch (fun _ _ => True) fun e _ => e ≠ .panic) ↔
      ch.checkUpdateAddHtlc64 .checked msg ≠ .error .panic := by
    simp only [onUpdateAddHtlc64, Act.wp_bind, Act.wp_get, Act.wp_lift, Act.wp_set]
    constructor
    · intro h hp
      exact h.2 _ hp rfl
    · intro h
      refine ⟨fun _ _ => trivial, fun e he hp => h ?_⟩
      rw [he, hp]
  have hexact : ((onUpdateAddHtlc64 .unchecked msg).wp ch (fun _ _ => ch.Admissible msg)
      fun _ _ => True) ↔
      ∀ next, ch.checkUpdateAddHtlc64 .unchecked msg = .ok next → ch.Admissible msg := by
    simp [onUpdateAddHtlc64]
  constructor
  · intro h
    exact ⟨hfits.1 h.fits, hexact.1 h.exact⟩
  · intro h
    exact ⟨hfits.2 h.1, hexact.2 h.2⟩

/-- Admission is exact while the amounts that are added up for it are words. -/
theorem admits_exactly_iff (ch : Channel) (msg : Wire.UpdateAddHtlc) :
    AdmitsExactly ch msg ↔ ch.AdmissionFits msg := by
  rw [admitsExactly_iff_check, (ch.checkUpdateAddHtlc64_tracks msg).exact_iff]
  · refine and_iff_left fun next h => ?_
    obtain ⟨_, hcheck, -⟩ := Fault.bind_eq_ok.1 h
    exact admissible_of_check hcheck
  · intro h
    rcases Fault.bind_eq_error.1 h with h | ⟨_, -, h⟩
    · exact checkUpdateAddHtlc_ne_panic h
    · cases h

end Channel

/-- The add of an amount that wraps around together with the HTLC in flight. -/
def Demo.overflowingAdd : Wire.UpdateAddHtlc :=
  { add 1 4 with amountMsat := 2 ^ 64 - 5000000 }

namespace Channel

/-- The receiver of a payment admits an HTLC of almost `2 ^ 64` msat in an unchecked build. -/
theorem admits_overflowing :
    ∃ tr ch, Run (step Demo.C) Demo.bob.1 tr ch ∧ ¬ AdmitsExactly ch Demo.overflowingAdd := by
  obtain ⟨tr, ch, hr, hadmits, -⟩ := Demo.exists_chan
    (Demo.handshake ++ Demo.payment) .b
    (fun ch => ¬ (onUpdateAddHtlc64 .unchecked Demo.overflowingAdd).wp ch
      (fun _ _ => ch.Admissible Demo.overflowingAdd) fun _ _ => True) (by decide +kernel)
  exact ⟨tr, ch, hr, fun hexact => hadmits hexact.exact⟩

end Channel
