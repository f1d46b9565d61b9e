import Keraunos.Channel.Pair
import Keraunos.Channel.Proof.Admission
import Keraunos.Channel.Proof.Balance
import Keraunos.Channel.Proof.Spend

/-!
# The fee of a commitment

Only an add of the opener checks the opener's balance, on the commitment it reaches first. So a
commitment can cost more than the opener has, and `build_commitment_tx` then pays less than the fee it
reports. A channel is `Solvable` when the opener can pay for both next commitments, whichever of the
HTLCs in flight and of the feerates under way come into them: every step keeps that, except the adds and
the changes of the feerate (`Eases`), which have to leave enough (`Funded`).
-/

open Bitcoin Commitment

namespace Commitment.CommitmentTxParams

variable (p : CommitmentTxParams)

/-- The balance of the funder. -/
def funderMsat : Msat := if p.broadcasterPaysFee then p.toBroadcasterMsat else p.toCountersignatoryMsat

/-- The output of the funder. -/
def funderSat : Nat :=
  if p.broadcasterPaysFee then p.toBroadcasterSat else p.toCountersignatorySat

/-- The funder can pay the fee, and what is deducted is the fee that is reported. -/
structure PaysFee (C : Crypto) : Prop where
  covers : p.baseFee ≤ Msat.toSatFloor p.funderMsat
  deducted : p.funderSat + (p.assemble C).feeSat = Msat.toSatFloor p.funderMsat

variable {p}

theorem paysFee (C : Crypto) (h : p.baseFee ≤ Msat.toSatFloor p.funderMsat) : p.PaysFee C := by
  refine ⟨h, ?_⟩
  show p.funderSat + p.baseFee = _
  unfold funderSat funderMsat toBroadcasterSat toCountersignatorySat at *
  cases hb : p.broadcasterPaysFee <;> simp only [hb, if_true, Bool.false_eq_true, if_false] at h ⊢ <;>
    exact Nat.sub_add_cancel h

theorem baseFee_le {n : Nat} (h : p.htlcs.length ≤ n) :
    Msat.fromSat p.baseFee ≤ Channel.commitmentFee p.feerate n := by
  have hn : p.numUntrimmed ≤ n := Nat.le_trans (List.length_filter_le _ _) h
  exact Channel.commitmentFee_mono p.feerate hn

end Commitment.CommitmentTxParams

/-- The phase an HTLC that a commitment still lacks will have on it. -/
def HtlcPhase.entered : HtlcPhase → HtlcPhase
  | .notYet => .pending
  | p => p

namespace Htlc

variable {h h' : Htlc}

/-- Entering a commitment costs. -/
theorem effect_entered_le (h : Htlc) (p : HtlcPhase) (m : Bool) :
    h.effect p.entered m ≤ h.effect p m := by
  cases p with
  | notYet => cases ho : h.outbound <;> cases m <;> simp [effect, HtlcPhase.entered, HtlcPhase.included,
      HtlcPhase.credited, ho]
  | _ => exact Int.le_refl _

/-- An HTLC costs most before it is removed. -/
theorem effect_uncredited_le {p q : HtlcPhase} (hp : p.credited = false) (ho : h'.outbound = h.outbound)
    (ha : h'.amountMsat = h.amountMsat) (m : Bool) : h.effect p.entered m ≤ h'.effect q m := by
  have hin : p.entered.included = true := by cases p <;> simp_all [HtlcPhase.entered,
    HtlcPhase.included, HtlcPhase.credited]
  have hamount := Int.natCast_nonneg h.amountMsat
  unfold effect
  rw [if_pos hin, ho, ha]
  split <;> split
  · exact Int.le_refl _
  · split <;> omega
  · exact Int.le_refl _
  · split <;> omega

/-- As an HTLC moves on, neither side loses by it. -/
theorem Later.effect_le (hl : Later h h') (side m : Bool) :
    h.effect (h.phase side).entered m ≤ h'.effect (h'.phase side).entered m := by
  cases hc : (h.phase side).credited with
  | false => exact effect_uncredited_le hc hl.outbound hl.amountMsat m
  | true =>
    have hrank := (HtlcPhase.credited_iff _).1 hc
    have hrank' := Nat.le_trans hrank (hl.phase side)
    have hfixed : ∀ p : HtlcPhase, 3 ≤ p.rank → p.entered.included = false ∧
        p.entered.credited = true := by
      intro p hp
      cases p <;> simp_all [HtlcPhase.rank, HtlcPhase.entered, HtlcPhase.included, HtlcPhase.credited]
    obtain ⟨hi, he⟩ := hfixed _ hrank
    obtain ⟨hi', he'⟩ := hfixed _ hrank'
    simp only [effect, isFulfilled, hi, he, hi', he', hl.outbound, hl.amountMsat, hl.resolution side hc]
    exact Int.le_refl _

/-- `apply_balance` takes no more than the effect, and less where it saturates. -/
theorem le_applyBalance (h : Htlc) (p : HtlcPhase) (bal : Msat × Msat) :
    (bal.1 : Int) + h.effect p true ≤ (h.applyBalance p bal).1 ∧
    (bal.2 : Int) + h.effect p false ≤ (h.applyBalance p bal).2 := by
  have hsub : ∀ a b : Nat, (a : Int) + -(b : Int) ≤ ((a - b : Nat) : Int) := by omega
  have hfirst := hsub bal.1 h.amountMsat
  have hsecond := hsub bal.2 h.amountMsat
  unfold effect applyBalance isFulfilled
  by_cases hi : p.included = true
  · cases h.outbound <;> simp [hi, hfirst, hsecond]
  · by_cases hc : p.credited = true
    · rcases h.resolution with _ | (pre | reason | ⟨sha, code⟩)
      · simp [hi, hc]
      · cases h.outbound <;> simp [hi, hc, HtlcResolution.isFulfill, hfirst, hsecond]
      · simp [hi, hc, HtlcResolution.isFulfill]
      · simp [hi, hc, HtlcResolution.isFulfill]
    · simp [hi, hc]

theorem le_foldl_applyBalance (phase : Htlc → HtlcPhase) (hs : List Htlc) (bal : Msat × Msat) :
    (bal.1 : Int) + effects phase hs true ≤
      (hs.foldl (fun bal h => h.applyBalance (phase h) bal) bal).1 ∧
    (bal.2 : Int) + effects phase hs false ≤
      (hs.foldl (fun bal h => h.applyBalance (phase h) bal) bal).2 := by
  induction hs generalizing bal with
  | nil => simp [effects]
  | cons h hs ih =>
    obtain ⟨h1, h2⟩ := le_applyBalance h (phase h) bal
    obtain ⟨i1, i2⟩ := ih (h.applyBalance (phase h) bal)
    simp only [effects, List.map_cons, List.sum_cons, List.foldl_cons] at i1 i2 ⊢
    omega

end Htlc

namespace Channel

variable {C : Crypto} {ch ch' ch'' ch₀ : Channel} {n : Nat} {spent : Msat}

/-! ## What the opener is left with -/

/-- Whether we are the side that pays the fees. -/
def opener (ch : Channel) : Bool := ch.role = .opener

/-- The feerates of the next commitments of `side`: the present one, and those under way. -/
def feerates (ch : Channel) : Bool → List FeeRatePerKw
  | true => ch.feerateHolder :: ((ch.pendingCounterpartyCommitment.bind (·.feeUpdate)).toList ++
      if ch.role = .opener then [ch.feerateCounterparty] else [])
  | false => ch.feerateCounterparty :: ch.pendingFeeAck.toList

/-- How many HTLCs are not removed from the commitments of `side`; some have not entered them yet. -/
def unremoved (ch : Channel) (side : Bool) : Nat :=
  ch.htlcs.countP fun h => !(h.phase side).credited

/-- What the opener has in a commitment of `side` that all of these have entered. -/
def leftover (ch : Channel) (side : Bool) : Int :=
  ch.base ch.opener + Htlc.effects (fun h => (h.phase side).entered) ch.htlcs ch.opener

/-- With `n` HTLCs more and `spent` less, that pays the fee at this feerate. -/
def Affords (ch : Channel) (n : Nat) (spent : Msat) (feerate : FeeRatePerKw) (side : Bool) : Prop :=
  (commitmentFee feerate (ch.unremoved side + n) : Int) + spent ≤ ch.leftover side

/-- The same at every feerate of the next commitments. -/
def Pays (ch : Channel) (n : Nat) (spent : Msat) : Prop :=
  ∀ side, ∀ feerate ∈ ch.feerates side, ch.Affords n spent feerate side

/-- What adds of one side cost the opener. -/
def openerPart (ch : Channel) (outbound : Bool) (amountMsat : Msat) : Msat :=
  if ch.opener = outbound then amountMsat else 0

/-- The connection lasts, and after every add and at every new feerate that the code admits the
opener can pay. -/
def Funded (ch : Channel) : Input → Prop
  | .updateAddHtlc msg => ch.checkUpdateAddHtlc msg = .ok () →
      ch.Pays 1 (ch.openerPart false msg.amountMsat)
  | .sendAddHtlc amountMsat _ cltvExpiry _ _ => ch.awaitingRaa = false →
      ch.validateOutboundAdd amountMsat cltvExpiry = .ok () → ch.Pays 1 (ch.openerPart true amountMsat)
  | .revokeAndAck _ => ch.awaitingRaa = true → ch.Pays (cellAmounts ch.holdingCell).length
      (ch.openerPart true (cellAmounts ch.holdingCell).sum)
  | .sendUpdateFee feerate => ch.role = .opener → ch.state = .normal → ch.awaitingRaa = false →
      253 ≤ feerate → ∀ side, ch.Affords 0 0 feerate side
  | .updateFee msg => ch.role ≠ .opener → 253 ≤ msg.feeratePerKw → msg.feeratePerKw ≤ 10000000 →
      ∀ side, ch.Affords 0 0 msg.feeratePerKw side
  | .disconnect => False
  | _ => True

instance (ch : Channel) (n : Nat) (spent : Msat) (feerate : FeeRatePerKw) (side : Bool) :
    Decidable (ch.Affords n spent feerate side) := inferInstanceAs (Decidable (_ ≤ _))

instance (ch : Channel) (n : Nat) (spent : Msat) : Decidable (ch.Pays n spent) :=
  inferInstanceAs (Decidable (∀ side, ∀ feerate ∈ ch.feerates side, _))

instance (ch : Channel) (i : Input) : Decidable (ch.Funded i) :=
  match i with
  | .updateAddHtlc _ | .sendAddHtlc .. | .revokeAndAck _ | .sendUpdateFee _ | .updateFee _ =>
    inferInstanceAs (Decidable (_ → _))
  | .disconnect => .isFalse id
  | .acceptChannel _ | .createFunding .. | .fundingCreated _ | .fundingSigned _ | .confirmFunding _
  | .channelReady _ | .channelReestablish _ | .sendShutdown _ | .shutdown ..
  | .maybeSendClosingSigned _ | .closingSigned .. | .sendFulfillHtlc .. | .sendFailHtlc ..
  | .sendFailMalformedHtlc .. | .sendCommitmentSigned | .updateFulfillHtlc _ | .updateFailHtlc _
  | .updateFailMalformedHtlc _ | .commitmentSigned _ => .isTrue trivial

/-! ## Steps that cost the opener nothing -/

/-- `ch'` leaves the opener at least as much to pay no more than in `ch`. -/
structure Eases (ch ch' : Channel) : Prop where
  role : ch'.role = ch.role
  feerates : ∀ side, ch'.feerates side ⊆ ch.feerates side
  unremoved : ∀ side, ch'.unremoved side ≤ ch.unremoved side
  leftover : ∀ side, ch.leftover side ≤ ch'.leftover side

theorem Eases.trans (a : Eases ch ch') (b : Eases ch' ch'') : Eases ch ch'' where
  role := b.role.trans a.role
  feerates side := List.Subset.trans (b.feerates side) (a.feerates side)
  unremoved side := Nat.le_trans (b.unremoved side) (a.unremoved side)
  leftover side := Int.le_trans (a.leftover side) (b.leftover side)

theorem Eases.affords (e : Eases ch ch') {feerate : FeeRatePerKw} {side : Bool}
    (h : ch.Affords n spent feerate side) : ch'.Affords n spent feerate side := by
  have hfee := commitmentFee_mono feerate (Nat.add_le_add_right (e.unremoved side) n)
  have hleft := e.leftover side
  unfold Affords at *
  refine Int.le_trans ?_ (Int.le_trans h hleft)
  exact Int.add_le_add_right (Int.ofNat_le.2 hfee) _

theorem Eases.pays (e : Eases ch ch') (h : ch.Pays n spent) : ch'.Pays n spent :=
  fun side feerate hf => e.affords (h side feerate (e.feerates side hf))

theorem opener_congr (h : ch'.role = ch.role) : ch'.opener = ch.opener :=
  congrArg (fun r => decide (r = ChannelRole.opener)) h

theorem openerPart_congr (h : ch'.role = ch.role) (outbound : Bool) (amountMsat : Msat) :
    ch'.openerPart outbound amountMsat = ch.openerPart outbound amountMsat := by
  rw [openerPart, opener_congr h, openerPart]

theorem unremoved_later {side : Bool} {hs hs' : List Htlc} (hl : List.Forall₂ Htlc.Later hs hs') :
    hs'.countP (fun h => !(h.phase side).credited) ≤ hs.countP fun h => !(h.phase side).credited := by
  induction hl with
  | nil => exact Nat.le_refl _
  | @cons h h' _ _ hh _ ih =>
    have hkeeps : (h.phase side).credited = true → (h'.phase side).credited = true := fun hc =>
      (HtlcPhase.credited_iff _).2 (Nat.le_trans ((HtlcPhase.credited_iff _).1 hc) (hh.phase side))
    rw [List.countP_cons, List.countP_cons]
    refine Nat.add_le_add ih ?_
    cases hc : (h.phase side).credited with
    | true => simp [hkeeps hc]
    | false =>
      simp only [Bool.not_false, if_true]
      split <;> omega

theorem effects_later {side m : Bool} {hs hs' : List Htlc} (hl : List.Forall₂ Htlc.Later hs hs') :
    Htlc.effects (fun h => (h.phase side).entered) hs m ≤
      Htlc.effects (fun h => (h.phase side).entered) hs' m := by
  refine List.Forall₂.sum_le_sum ?_
  rw [List.forall₂_map_left_iff, List.forall₂_map_right_iff]
  exact hl.imp fun _ _ hh => hh.effect_le side m

theorem Eases.of_later (hl : List.Forall₂ Htlc.Later ch.htlcs ch'.htlcs) (hrole : ch'.role = ch.role)
    (hbase : ch'.base = ch.base) (hf : ∀ side, ch'.feerates side ⊆ ch.feerates side) :
    Eases ch ch' where
  role := hrole
  feerates := hf
  unremoved _ := unremoved_later hl
  leftover side := by
    unfold Channel.leftover
    rw [opener_congr hrole, hbase]
    exact Int.add_le_add_left (effects_later hl) _

theorem Eases.of_books (h : ch'.books = ch.books) : Eases ch ch' := by
  obtain ⟨hrole, hs, hh, hc, hfh, hfc, hack, hp, -⟩ := Books.mk.inj h
  refine .of_later ?_ hrole ?_ fun side => ?_
  · rw [hs]
    exact List.forall₂_same.2 fun x _ => .refl x
  · funext m
    simp only [base, hh, hc]
  · cases side <;> simp [Channel.feerates, hrole, hfh, hfc, hack, hp]

/-- Collecting an HTLC moves its effect into the base balances. -/
theorem eases_gc (ch : Channel) : Eases ch ch.gcHtlcs where
  role := rfl
  feerates _ := List.Subset.refl _
  unremoved _ := List.filter_sublist.countP_le
  leftover side := by
    have hbase : (ch.base ch.opener : Int) +
        Htlc.effects (fun _ => .gone) (ch.htlcs.filter Htlc.isGone) ch.opener ≤
        ch.gcHtlcs.base ch.opener := by
      obtain ⟨h1, h2⟩ := Htlc.le_foldl_applyBalance (fun _ => .gone) (ch.htlcs.filter Htlc.isGone)
        (ch.toHolderMsat, ch.toCounterpartyMsat)
      cases ch.opener
      · exact h2
      · exact h1
    have hgone : Htlc.effects (fun h => (h.phase side).entered) (ch.htlcs.filter Htlc.isGone)
        ch.opener = Htlc.effects (fun _ => .gone) (ch.htlcs.filter Htlc.isGone) ch.opener := by
      unfold Htlc.effects
      congr 1
      refine List.map_congr_left fun h hh => ?_
      have hg : h.phaseHolder = .gone ∧ h.phaseCounterparty = .gone := by
        simpa [Htlc.isGone] using (List.mem_filter.1 hh).2
      have hp : h.phase side = .gone := by cases side <;> simp [Htlc.phase, hg]
      show h.effect (h.phase side).entered ch.opener = h.effect .gone ch.opener
      rw [hp]
      rfl
    have hsum : Htlc.effects (fun h => (h.phase side).entered) (ch.htlcs.filter Htlc.isGone)
        ch.opener + Htlc.effects (fun h => (h.phase side).entered)
        (ch.htlcs.filter fun h => !h.isGone) ch.opener =
        Htlc.effects (fun h => (h.phase side).entered) ch.htlcs ch.opener :=
      Ledger.sum_filter_add Htlc.isGone _ ch.htlcs
    have hrest : ch.gcHtlcs.leftover side = ch.gcHtlcs.base ch.opener + Htlc.effects
        (fun h => (h.phase side).entered) (ch.htlcs.filter fun h => !h.isGone) ch.opener := rfl
    rw [hrest, leftover]
    omega

theorem eases_sign (point : PublicKey) (b : Built) : Eases ch (ch.sign point b) := by
  refine .of_later (List.forall₂_same.2 fun x _ => .refl x) rfl rfl fun side => ?_
  cases side with
  | false => exact List.Subset.refl _
  | true =>
    intro f hf
    simp only [Channel.feerates, sign, feeUpdate, Option.bind_some, List.mem_cons, List.mem_append,
      Option.mem_toList] at hf ⊢
    rcases hf with hf | hf | hf
    · exact .inl hf
    · split at hf
      · next hr => simp_all
      · cases hf
    · exact .inr (.inr hf)

/-- The opener has no feerate of the peer to acknowledge. -/
theorem eases_accept (hack : ch.role = .opener → ch.pendingFeeAck = none) (number : Nat) (b : Built)
    (msg : Wire.CommitmentSigned) : Eases ch (ch.acceptCommitment number b msg).gcHtlcs := by
  refine Eases.trans (.of_later ((advances_acceptCommitment number b msg).imp fun _ _ ha => ha.later)
    rfl rfl fun side => ?_) (eases_gc _)
  cases side with
  | true =>
    by_cases hr : ch.role = .opener
    · simp [Channel.feerates, acceptCommitment, hr, hack hr]
    · simp [Channel.feerates, acceptCommitment, hr]
  | false => cases hp : ch.pendingFeeAck <;> simp [Channel.feerates, acceptCommitment, hp]

theorem eases_revoked {pending : PendingCounterpartyCommitment}
    (hp : ch.pendingCounterpartyCommitment = some pending) (secrets : Shachain.SecretStore)
    (nextPoint : PublicKey) : Eases ch (ch.revoked pending secrets nextPoint) := by
  have hrevoked : Eases ch (ch.acceptRevocation pending secrets nextPoint) := by
    refine .of_later ((advances_acceptRevocation pending secrets nextPoint).imp fun _ _ ha => ha.later)
      rfl rfl fun side => ?_
    cases side with
    | true => cases hfee : pending.feeUpdate <;> simp [Channel.feerates, acceptRevocation, hp, hfee]
    | false => exact List.Subset.refl _
  refine (hrevoked.trans (eases_gc _)).trans (.of_later ?_ rfl rfl fun _ => List.Subset.refl _)
  show List.Forall₂ Htlc.Later _ (List.map Htlc.process _)
  rw [List.forall₂_map_right_iff]
  exact List.forall₂_same.2 fun x _ => (Htlc.advances_process x).later

theorem eases_resolveInbound {id : HtlcId} {x : Htlc} (hx : ch.inboundCommitted id = .ok x)
    (r : HtlcResolution) : Eases ch (ch.resolveInbound id r) :=
  .of_later (later_resolveInbound hx r) rfl rfl fun _ => List.Subset.refl _

theorem eases_resolveOutbound {id : HtlcId} {x : Htlc} (hx : ch.outboundCommitted id = .ok x)
    (r : HtlcResolution) : Eases ch (ch.resolveOutbound id r) :=
  .of_later (later_resolveOutbound hx r) rfl rfl fun _ => List.Subset.refl _

/-! ## Adds and feerates -/

/-- An add uses up its part. -/
theorem Pays.push {x : Htlc} (h : ch.Pays (n + 1) (ch.openerPart x.outbound x.amountMsat + spent))
    (hs : ch'.htlcs = ch.htlcs ++ [x]) (hx : ∀ side, (x.phase side).entered = .pending)
    (hrole : ch'.role = ch.role) (hbase : ch'.base = ch.base) (hf : ch'.feerates = ch.feerates) :
    ch'.Pays n spent := by
  intro side feerate hmem
  rw [hf] at hmem
  have hold := h side feerate hmem
  have hcredited : (x.phase side).credited = false := by
    have hxs := hx side
    cases hp : x.phase side <;> simp_all [HtlcPhase.entered, HtlcPhase.credited]
  have hcount : ch'.unremoved side = ch.unremoved side + 1 := by
    unfold unremoved
    rw [hs, List.countP_append]
    simp [hcredited]
  have hpart : x.effect (x.phase side).entered ch.opener =
      -(ch.openerPart x.outbound x.amountMsat : Int) := by
    rw [hx side]
    unfold Htlc.effect openerPart
    cases x.outbound <;> cases ch.opener <;> simp [HtlcPhase.included]
  have heffects : Htlc.effects (fun h => (h.phase side).entered) ch'.htlcs ch.opener =
      Htlc.effects (fun h => (h.phase side).entered) ch.htlcs ch.opener +
        x.effect (x.phase side).entered ch.opener := by
    rw [hs]
    simp [Htlc.effects]
  have hleft : ch'.leftover side =
      ch.leftover side - ch.openerPart x.outbound x.amountMsat := by
    unfold leftover
    rw [opener_congr hrole, hbase, heffects, hpart]
    omega
  unfold Affords at *
  rw [hcount, hleft, Nat.add_right_comm, Nat.add_assoc]
  push_cast at hold
  omega

theorem openerPart_add (outbound : Bool) (a b : Msat) :
    ch.openerPart outbound (a + b) = ch.openerPart outbound a + ch.openerPart outbound b := by
  unfold openerPart
  split <;> rfl

theorem Pays.weaken {k : Nat} {less : Msat} (h : ch.Pays n spent) (hk : k ≤ n) (hs : less ≤ spent) :
    ch.Pays k less := by
  intro side feerate hmem
  have hfee := commitmentFee_mono feerate (Nat.add_le_add_left hk (ch.unremoved side))
  exact Int.le_trans (Int.add_le_add (Int.ofNat_le.2 hfee) (Int.ofNat_le.2 hs)) (h side feerate hmem)

/-- Fewer adds cost less. -/
theorem Pays.sublist {xs ys : List Msat} (h : ch.Pays ys.length (ch.openerPart true ys.sum))
    (hs : xs.Sublist ys) : ch.Pays xs.length (ch.openerPart true xs.sum) := by
  refine h.weaken hs.length_le ?_
  have hsum : xs.sum ≤ ys.sum := hs.sum_le_sum fun _ _ => Nat.zero_le _
  unfold openerPart
  split
  · exact hsum
  · exact Nat.le_refl _

/-- A feerate the opener can pay. -/
theorem Pays.rate {feerate : FeeRatePerKw} (h : ch.Pays n spent)
    (hnew : ∀ side, ch.Affords n spent feerate side) (hs : ch'.htlcs = ch.htlcs)
    (hrole : ch'.role = ch.role) (hbase : ch'.base = ch.base)
    (hf : ∀ side, ch'.feerates side ⊆ feerate :: ch.feerates side) : ch'.Pays n spent := by
  intro side f hmem
  have hold : ch.Affords n spent f side := by
    rcases List.mem_cons.1 (hf side hmem) with rfl | hin
    · exact hnew side
    · exact h side f hin
  unfold Affords unremoved leftover at *
  rw [hs, opener_congr hrole, hbase]
  exact hold

/-- The opener can pay, and only the accepter has a feerate to acknowledge. -/
structure Solvable (ch : Channel) : Prop where
  pays : ch.Pays 0 0
  acked : ch.role = .opener → ch.pendingFeeAck = none

theorem Solvable.eases (h : Solvable ch) (e : Eases ch ch')
    (hack : ch'.pendingFeeAck = ch.pendingFeeAck ∨ ch'.pendingFeeAck = none) : Solvable ch' where
  pays := e.pays h.pays
  acked hr := by
    rcases hack with hack | hack
    · exact hack.trans (h.acked (e.role.symm.trans hr))
    · exact hack

theorem FlushesOps.solvable {ops : List HoldingCellOp} {os : List RaaOutcome}
    (h : FlushesOps C ch ops os ch') (hc : Solvable ch)
    (hpays : ch.Pays (cellAmounts ops).length (ch.openerPart true (cellAmounts ops).sum)) :
    Solvable ch' := by
  induction h with
  | nil => exact hc
  | @cons ch ch₁ ch₂ op ops o os hop _ ih =>
    have htail := hpays.sublist (cellAmounts_tail op ops)
    cases hop with
    | @offered amountMsat hash cltv onion source _ _ =>
      have hadd : ch.Pays ((cellAmounts ops).length + 1)
          (ch.openerPart true amountMsat + ch.openerPart true (cellAmounts ops).sum) := by
        rw [← openerPart_add]
        exact hpays
      have hrest : (ch.offer amountMsat hash cltv onion source).Pays (cellAmounts ops).length
          (ch.openerPart true (cellAmounts ops).sum) :=
        hadd.push rfl (fun side => by cases side <;> rfl) rfl rfl rfl
      exact ih ⟨hrest.weaken (Nat.zero_le _) (Nat.zero_le _), hc.acked⟩ hrest
    | refused | dropped => exact ih hc htail
    | fulfilled hx | failed hx | failedMalformed hx =>
      have he := eases_resolveInbound hx
      exact ih (hc.eases (he _) (.inl rfl)) ((he _).pays htail)

/-! ## Every step -/

theorem MaySign.solvable {cs : Option Wire.CommitmentSigned} (hs : MaySign C ch cs ch')
    (h : Solvable ch) : Solvable ch' := by
  cases hs with
  | none => exact h
  | some => exact h.eases (eases_sign _ _) (.inl rfl)

theorem Updated.solvable {i : Input} (hu : Updated C ch i ch') (hfunded : ch.Funded i)
    (h : Solvable ch) : Solvable ch' := by
  cases hu with
  | same _ _ hc => exact h.eases (.of_books hc) (.inl (congrArg Books.pendingFeeAck hc))
  | refused => exact h
  | parked => exact h.eases (.of_books rfl) (.inl rfl)
  | offered _ ha hv =>
    exact ⟨(hfunded ha hv).push rfl (fun side => by cases side <;> rfl) rfl rfl rfl, h.acked⟩
  | resolvedInbound _ hx => exact h.eases (eases_resolveInbound hx _) (.inl rfl)
  | changedFee hr hst ha hf =>
    refine ⟨h.pays.rate (hfunded hr hst ha hf) rfl rfl rfl fun side f hmem => ?_, h.acked⟩
    cases side
    · simp only [Channel.feerates, List.mem_cons] at hmem ⊢
      tauto
    · simp only [Channel.feerates, hr, if_true, List.mem_cons, List.mem_append, List.not_mem_nil,
        or_false] at hmem ⊢
      tauto
  | received hc =>
    exact ⟨(hfunded hc).push rfl (fun side => by cases side <;> rfl) rfl rfl rfl, h.acked⟩
  | resolvedOutbound hx => exact h.eases (eases_resolveOutbound hx _) (.inl rfl)
  | receivedFee hr hlo hhi =>
    refine ⟨h.pays.rate (hfunded hr hlo hhi) rfl rfl rfl fun side => ?_, fun hopener =>
      absurd hopener hr⟩
    cases side <;> simp [Channel.feerates, hr]
  | signed => exact h.eases (eases_sign _ _) (.inl rfl)
  | accepted => exact h.eases (eases_accept h.acked _ _ _) (.inr rfl)
  | @revoked msg pending secrets os ch₁ _ cs ha hp hos hcs =>
    have he := eases_revoked hp secrets msg.nextPerCommitmentPoint
    have hrevoked := h.eases he (.inl rfl)
    refine hcs.solvable (hos.solvable hrevoked ?_)
    rw [openerPart_congr he.role]
    exact he.pays (hfunded ha)

/-- The fees of both next commitments are paid. -/
structure FeePayable (C : Crypto) (ch : Channel) : Prop where
  holder : ∀ cp keys funding number, (ch.holderParams cp keys funding number).PaysFee C
  counterparty : ∀ keys funding number, (ch.counterpartyParams keys funding number).PaysFee C

theorem Pays.balance (h : ch.Pays 0 0) {side : Bool} {feerate : FeeRatePerKw}
    (hf : feerate ∈ ch.feerates side) :
    commitmentFee feerate (ch.unremoved side) ≤ ch.balance side ch.opener := by
  have hafford := h side feerate hf
  have hbalance : (ch.base ch.opener : Int) + Htlc.effects (·.phase side) ch.htlcs ch.opener ≤
      ch.balance side ch.opener := by
    obtain ⟨h1, h2⟩ := Htlc.le_foldl_applyBalance (·.phase side) ch.htlcs
      (ch.toHolderMsat, ch.toCounterpartyMsat)
    cases ch.opener
    · exact h2
    · exact h1
  have heffects : Htlc.effects (fun h => (h.phase side).entered) ch.htlcs ch.opener ≤
      Htlc.effects (·.phase side) ch.htlcs ch.opener :=
    List.sum_le_sum fun h _ => h.effect_entered_le _ _
  unfold Affords leftover at hafford
  have hgoal : (commitmentFee feerate (ch.unremoved side) : Int) ≤ ch.balance side ch.opener := by
    refine Int.le_trans ?_ hbalance
    refine Int.le_trans ?_ (Int.add_le_add_left heffects _)
    simpa using hafford
  exact Int.ofNat_le.1 hgoal

theorem commitmentHtlcs_length (ch : Channel) (side : Bool) :
    (ch.commitmentHtlcs side).length ≤ ch.unremoved side := by
  unfold commitmentHtlcs unremoved
  rw [List.length_map, ← List.countP_eq_length_filter]
  refine List.countP_mono_left fun h _ hin => ?_
  cases hp : h.phase side <;> simp_all [HtlcPhase.included, HtlcPhase.credited]

theorem Solvable.feePayable (h : Solvable ch) (C : Crypto) : FeePayable C ch := by
  have hpays : ∀ (p : CommitmentTxParams) (side : Bool), p.htlcs = ch.commitmentHtlcs side →
      p.feerate ∈ ch.feerates side → p.funderMsat = ch.balance side ch.opener → p.PaysFee C := by
    intro p side hs hf hfunder
    refine CommitmentTxParams.paysFee C ?_
    have hfee := CommitmentTxParams.baseFee_le (hs ▸ commitmentHtlcs_length ch side)
    rw [hfunder]
    exact (Nat.le_div_iff_mul_le (by decide)).2 (Nat.le_trans hfee (h.pays.balance hf))
  refine ⟨fun cp keys funding number => hpays _ true rfl List.mem_cons_self ?_,
    fun keys funding number => hpays _ false rfl List.mem_cons_self ?_⟩
  · unfold CommitmentTxParams.funderMsat holderParams balance opener
    cases ch.role <;> rfl
  · unfold CommitmentTxParams.funderMsat counterpartyParams balance opener
    cases ch.role <;> rfl

/-- A step that meets the condition keeps the channel solvable. -/
theorem step_solvable {i : Input} (huse : InUse ch) (hfunded : ch.Funded i) (h : Solvable ch) :
    Act.Ends (step C i) ch fun ch' => InUse ch' ∧ Solvable ch' := by
  have hconnected : i ≠ .disconnect := fun hi => by
    subst hi
    exact hfunded
  refine Act.wp_mono (Act.wp_and (step_stepped i ch) (step_updated huse hconnected)) ?_ ?_
  · exact fun _ _ hs => ⟨hs.1.inUse huse, hs.2.solvable hfunded h⟩
  · exact fun _ _ hs e' he => ⟨(hs.1 e' he).inUse huse, (hs.2 e' he).solvable hfunded h⟩

theorem Fresh.solvable (h₀ : Fresh C ch₀) (hpays : ch₀.Pays 0 0) : Solvable ch₀ := by
  refine ⟨hpays, fun _ => ?_⟩
  cases h₀ with
  | outbound h =>
    unfold newOutbound at h
    split at h
    · cases h
    · obtain ⟨rfl, -⟩ := Prod.mk.inj (Except.ok.inj h)
      rfl
  | inbound h =>
    simp only [newInbound, Fault.bind_eq_ok, pure, Except.pure, Except.ok.injEq] at h
    obtain ⟨_, -, h⟩ := h
    obtain ⟨rfl, -⟩ := Prod.mk.inj h
    rfl

end Channel

namespace Pair

variable {C : Crypto} {p p₀ : Pair}

/-- The end that takes the input meets the condition. -/
def Meets (A : Channel → Channel.Input → Prop) (p : Pair) : Input → Prop
  | .command s i => A (p.chan s) i
  | .deliver s => ∀ i ∈ (p.inbox s).head?.bind (·.toInput), A (p.chan s) i

instance (A : Channel → Channel.Input → Prop) [∀ ch i, Decidable (A ch i)] (p : Pair) (i : Input) :
    Decidable (p.Meets A i) :=
  match i with
  | .command s i => inferInstanceAs (Decidable (A (p.chan s) i))
  | .deliver s => inferInstanceAs (Decidable (∀ i ∈ (p.inbox s).head?.bind (·.toInput), _))

/-- What a step of a channel keeps, a step of the pair keeps at both ends. -/
theorem step_ends {A : Channel → Channel.Input → Prop} {I : Channel → Prop}
    (hstep : ∀ ch i, A ch i → I ch → Act.Ends (Channel.step C i) ch I) (i : Input)
    (hA : p.Meets A i) (h : ∀ s, I (p.chan s)) :
    Act.Ends (step C i) p fun p' => ∀ s, I (p'.chan s) := by
  have hside : ∀ (q : Pair) (s : Side) (j : Channel.Input), A (q.chan s) j → (∀ t, I (q.chan t)) →
      Act.Ends (onSide s (Channel.step C j)) q fun p' => ∀ t, I (p'.chan t) := by
    intro q s j hj hq
    have hends := hstep (q.chan s) j hj (hq s)
    simp only [Act.Ends, Act.wp, onSide] at hends ⊢
    cases hx : Channel.step C j (q.chan s) with
    | ok ms ch =>
      rw [hx] at hends
      intro t
      rw [send, chan_setInbox, chan_setChan]
      split
      · exact hends
      · exact hq t
    | error e ch =>
      rw [hx] at hends
      intro e' he t
      rw [chan_setChan]
      split
      · exact hends e' he
      · exact hq t
  cases i with
  | command s j => exact hside p s j hA h
  | deliver s =>
    simp only [Act.Ends, step, Act.wp_bind, Act.wp_get]
    rcases hin : p.inbox s with _ | ⟨m, ms⟩
    · exact h
    · simp only [Act.wp_bind, Act.wp_set]
      rcases hm : m.toInput with _ | j
      · simpa using h
      · refine hside _ s j ?_ (by simpa using h)
        rw [chan_setInbox]
        exact hA j (by simp [hin, hm])

/-- Two new channels whose opener can pay for an empty commitment, and the messages between them: as
long as every add and every change of the feerate that the code admits leaves the opener, with all
the HTLCs that are not removed yet, enough for the fee at every feerate under way, both next
commitments of both ends pay the fee they report. -/
theorem fees_payable {tr : Trace Input ChannelError (List Wire.Message)}
    (h₀ : ∀ s, Channel.Fresh C (p₀.chan s)) (hpays : ∀ s, (p₀.chan s).Pays 0 0)
    (hr : Run.Within (step C) (Meets Channel.Funded) p₀ tr p) (s : Side) :
    (p.chan s).FeePayable C := by
  have huse : ∀ t, Channel.InUse (p₀.chan t) := fun t => Channel.inUse_of_run (h₀ t) .nil
  have hboth : ∀ t, Channel.InUse (p.chan t) ∧ Channel.Solvable (p.chan t) :=
    hr.invariant (I := fun p => ∀ t, Channel.InUse (p.chan t) ∧ Channel.Solvable (p.chan t))
      (fun t => ⟨huse t, (h₀ t).solvable (hpays t)⟩)
      fun p i hA h => step_ends (fun ch j hj hch => Channel.step_solvable hch.1 hj hch.2) i hA h
  exact (hboth s).2.feePayable C

/-- A payment and a higher feerate, both committed. -/
theorem fees_payable_demo :
    ∃ tr p, Run.Within (step Demo.C) (Meets Channel.Funded) Demo.start tr p ∧
      p.chanB.feerateHolder = 2000 ∧ ∀ s, (p.chan s).FeePayable Demo.C := by
  obtain ⟨tr, p, hr, hfee⟩ := Run.Within.exists_of_exec (f := step Demo.C)
    (A := Meets Channel.Funded) (s := Demo.start)
    (Demo.handshake ++ Demo.payment ++ [.command .a (.sendUpdateFee 2000), .deliver .b])
    (·.chanB.feerateHolder = 2000) (by
      rw [Demo.start_tabled]
      decide +kernel)
  refine ⟨tr, p, hr, hfee, fees_payable (fun s => ?_) (fun s => ?_) hr⟩
  · cases s
    · exact Demo.alice_fresh
    · exact Demo.bob_fresh
  · cases s <;> decide +kernel

/-- An opener with a million satoshi raises the feerate: the accepter takes it, and the commitment it
then accepts reports a fee of 1448000 satoshi. -/
theorem fees_unpayable :
    ∃ tr p, Run (step Demo.C) Demo.start tr p ∧ (∀ x ∈ tr, ∀ s, x.1 ≠ .command s .disconnect) ∧
      p.chanB.currentHolderCommitment.map (·.built.feeSat) = some 1448000 ∧
      p.chanB.balance true p.chanB.opener = 1000000000 ∧ ¬ p.chanB.FeePayable Demo.C := by
  let is : List Input := Demo.handshake ++ [.command .a (.sendUpdateFee 2000000),
    .command .a .sendCommitmentSigned, .deliver .b, .deliver .b]
  let pk := Demo.bob.1.holderPubkeys.fundingPubkey
  let params (p : Pair) := p.chanB.holderParams Demo.bob.1.holderPubkeys ⟨pk, pk, pk, pk, pk⟩
    ⟨Demo.bytes 9, 0⟩ 1
  have hexec : ((Run.exec (step Demo.C) Demo.start is).any fun r =>
      r.2.chanB.currentHolderCommitment.map (·.built.feeSat) = some 1448000 ∧
      r.2.chanB.balance true r.2.chanB.opener = 1000000000 ∧
      Msat.toSatFloor (params r.2).funderMsat < (params r.2).baseFee) = true := by
    rw [Demo.start_tabled]
    decide +kernel
  obtain ⟨r, hr, hp⟩ := (Option.any_eq_true _ _).1 hexec
  obtain ⟨hfee, hbalance, hless⟩ := of_decide_eq_true hp
  refine ⟨r.1, r.2, Run.of_exec hr, fun x hx s hdis => ?_, hfee, hbalance, fun hpay => ?_⟩
  · have hmem : x.1 ∈ is := by
      rw [← Run.exec_inputs hr]
      exact List.mem_map_of_mem hx
    simp [is, Demo.handshake, hdis] at hmem
  · exact Nat.not_le_of_lt hless (hpay.holder _ _ _ _).covers

end Pair
