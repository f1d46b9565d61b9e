import Keraunos.Channel.Proof.Progress
import Mathlib.Algebra.Order.BigOperators.Group.List

/-!
# The HTLC limits of a commitment

The checks on an add count the HTLCs that are not resolved, and a commitment includes an HTLC until its
removal is locked in. So a commitment stays within its limits as long as every add finds either no
HTLC that is resolved and still included, or room beside those (`limits_respected`).
-/

open Bitcoin Commitment

/-- The amounts of the HTLCs that the owner of a commitment receives. -/
def receivedAmounts (hs : List HtlcOutputInCommitment) : List Msat :=
  (hs.filter fun h => !h.offered).map (·.amountMsat)

/-- So many HTLCs of so much in total. -/
def Fits (limits : Nat × Msat) (amounts : List Msat) : Prop :=
  amounts.length ≤ limits.1 ∧ amounts.sum ≤ limits.2

instance (limits : Nat × Msat) (amounts : List Msat) : Decidable (Fits limits amounts) :=
  inferInstanceAs (Decidable (_ ∧ _))

theorem Fits.sublist {limits : Nat × Msat} {xs ys : List Msat} (h : Fits limits ys)
    (hs : xs.Sublist ys) : Fits limits xs :=
  ⟨Nat.le_trans hs.length_le h.1, Nat.le_trans (hs.sum_le_sum fun _ _ => Nat.zero_le _) h.2⟩

theorem fits_nil (limits : Nat × Msat) : Fits limits [] := ⟨Nat.zero_le _, Nat.zero_le _⟩

/-- What the next commitment of `side` pays its owner for this HTLC. -/
def Htlc.receivedBy (side : Bool) (h : Htlc) : Option Msat :=
  if h.outbound = !side ∧ (h.phase side).included then some h.amountMsat else none

/-- The same, of an HTLC that is resolved. -/
def Htlc.lingersBy (side : Bool) (h : Htlc) : Option Msat :=
  if h.resolution.isSome then h.receivedBy side else none

namespace Htlc

variable {h : Htlc}

/-- An HTLC is in its recipient's next commitment from the start. -/
theorem Disciplined.front (hd : h.Disciplined) : 1 ≤ (h.phase (!h.outbound)).rank := by
  rcases hd.stages with ⟨ho, h1 | h1 | h1 | h1 | h1⟩ | ⟨ho, h1 | h1 | h1 | h1 | h1 | h1⟩ <;>
    obtain ⟨hh, hc, -⟩ := h1 <;> simp [phase, ho, hh, hc, HtlcPhase.rank]

/-- Until it is resolved it stays there. -/
theorem Disciplined.receivedBy_live (hd : h.Disciplined) (hr : h.resolution = none) :
    h.receivedBy (!h.outbound) = some h.amountMsat := by
  rcases hd.stages with ⟨ho, h1 | h1 | h1 | h1 | h1⟩ | ⟨ho, h1 | h1 | h1 | h1 | h1 | h1⟩ <;>
    obtain ⟨hh, hc, hres⟩ := h1 <;>
    simp_all [receivedBy, phase, HtlcPhase.included]

end Htlc

namespace Channel

/-- The limits of the owner of a commitment: how many HTLCs it receives, and how much in total. -/
def limits (ch : Channel) (side : Bool) : Nat × Msat :=
  if side then (ch.params.holderMaxAcceptedHtlcs, ch.params.holderMaxHtlcValueInFlightMsat)
  else (ch.params.counterpartyMaxAcceptedHtlcs, ch.params.counterpartyMaxHtlcValueInFlightMsat)

/-- Every commitment of the channel, the next ones and those already signed, keeps the limits. -/
structure WithinLimits (ch : Channel) : Prop where
  next : ∀ side, Fits (ch.limits side) (receivedAmounts (ch.commitmentHtlcs side))
  holder : ∀ hc, ch.currentHolderCommitment = some hc →
    Fits (ch.limits true) (receivedAmounts hc.htlcs)
  counterparty : ∀ info, ch.currentCounterpartyCommitment = some info →
    Fits (ch.limits false) (receivedAmounts (info.htlcs.map Prod.fst))
  pending : ∀ pending, ch.pendingCounterpartyCommitment = some pending →
    Fits (ch.limits false) (receivedAmounts (pending.info.htlcs.map Prod.fst))

/-- The amounts the next commitment of `side` pays its owner. -/
def received (ch : Channel) (side : Bool) : List Msat := ch.htlcs.filterMap (Htlc.receivedBy side)

/-- The same, for the HTLCs that are resolved and still included. -/
def lingering (ch : Channel) (side : Bool) : List Msat := ch.htlcs.filterMap (Htlc.lingersBy side)

/-- No HTLC lingers, or the adds fit beside those that do. -/
def HasRoom (ch : Channel) (side : Bool) (amounts : List Msat) : Prop :=
  ch.lingering side = [] ∨ Fits (ch.limits side) (ch.received side ++ amounts)

/-- The amounts of the adds in a holding cell. -/
def cellAmounts (ops : List HoldingCellOp) : List Msat :=
  ops.filterMap fun
    | .add amountMsat .. => some amountMsat
    | _ => none

/-- The connection lasts, and every add that the code admits finds room. -/
def Roomy (ch : Channel) : Input → Prop
  | .updateAddHtlc msg => ch.checkUpdateAddHtlc msg = .ok () → ch.HasRoom true [msg.amountMsat]
  | .sendAddHtlc amountMsat _ cltvExpiry _ _ => ch.awaitingRaa = false →
      ch.validateOutboundAdd amountMsat cltvExpiry = .ok () → ch.HasRoom false [amountMsat]
  | .revokeAndAck _ => ch.awaitingRaa = true → ch.HasRoom false (cellAmounts ch.holdingCell)
  | .disconnect => False
  | _ => True

instance (ch : Channel) (side : Bool) (amounts : List Msat) : Decidable (ch.HasRoom side amounts) :=
  inferInstanceAs (Decidable (_ ∨ _))

instance (ch : Channel) (i : Input) : Decidable (ch.Roomy i) :=
  match i with
  | .updateAddHtlc _ | .sendAddHtlc .. | .revokeAndAck _ => inferInstanceAs (Decidable (_ → _))
  | .disconnect => .isFalse id
  | .acceptChannel _ | .createFunding .. | .fundingCreated _ | .fundingSigned _ | .confirmFunding _
  | .channelReady _ | .channelReestablish _ | .sendShutdown _ | .shutdown ..
  | .maybeSendClosingSigned _ | .closingSigned .. | .sendFulfillHtlc .. | .sendFailHtlc ..
  | .sendFailMalformedHtlc .. | .sendUpdateFee _ | .sendCommitmentSigned | .updateFulfillHtlc _
  | .updateFailHtlc _ | .updateFailMalformedHtlc _ | .updateFee _ | .commitmentSigned _ =>
    .isTrue trivial

variable {C : Crypto} {ch ch' ch₀ : Channel} {side : Bool} {amounts : List Msat}

/-! ## Next commitments -/

theorem receivedAmounts_next (ch : Channel) (side : Bool) :
    receivedAmounts (ch.commitmentHtlcs side) = ch.received side := by
  unfold receivedAmounts commitmentHtlcs received
  rw [List.filter_map, List.map_map, List.filter_filter, ← List.filterMap_eq_map,
    ← List.filterMap_eq_filter, List.filterMap_filterMap]
  refine List.filterMap_congr fun h _ => ?_
  unfold Htlc.receivedBy
  cases side <;> cases ho : h.outbound <;> cases hp : (h.phase _).included <;>
    simp [Htlc.inCommitment, Option.guard, ho, hp]

/-- An HTLC that its recipient's commitment does not include never enters it again. -/
theorem receivedBy_later {h h' : Htlc} (hd : h.Disciplined) (hl : Htlc.Later h h') {side : Bool}
    {amount : Msat} (hr : h'.receivedBy side = some amount) : h.receivedBy side = some amount := by
  unfold Htlc.receivedBy at hr ⊢
  split at hr
  · next hin =>
    obtain ⟨ho, hp⟩ := hin
    have hside : h.outbound = !side := hl.outbound.symm.trans ho
    have hfront := hd.front
    rw [hside, Bool.not_not] at hfront
    have hback := Nat.le_trans (hl.phase side) ((HtlcPhase.included_iff _).1 hp).2
    rw [if_pos ⟨hside, (HtlcPhase.included_iff _).2 ⟨hfront, hback⟩⟩, ← hl.amountMsat]
    exact hr
  · cases hr

/-- What a commitment pays its owner shrinks as its HTLCs move on. -/
theorem received_later {side : Bool} {hs hs' : List Htlc} (hd : ∀ h ∈ hs, h.Disciplined)
    (hl : List.Forall₂ Htlc.Later hs hs') :
    (hs'.filterMap (Htlc.receivedBy side)).Sublist (hs.filterMap (Htlc.receivedBy side)) :=
  List.filterMap_sublist_of_forall₂ hl fun h hh _ hlater _ hr => receivedBy_later (hd h hh) hlater hr

/-! ## Steps that admit nothing -/

/-- The limits are kept, by a channel that has no commitment before it is negotiated. -/
structure Limited (ch : Channel) : Prop where
  within : WithinLimits ch
  caps : ∀ side, (ch.limits side).1 < 2 ^ 16
  unopened : ch.state = .openSent → ch.htlcs = [] ∧ ch.currentHolderCommitment = none ∧
    ch.currentCounterpartyCommitment = none ∧ ch.pendingCounterpartyCommitment = none

theorem Limited.received (h : Limited ch) (side : Bool) : Fits (ch.limits side) (ch.received side) := by
  rw [← receivedAmounts_next]
  exact h.within.next side

/-- The next commitments pay no more than before. -/
theorem Limited.next (h : Limited ch) (hlimits : ch'.limits = ch.limits)
    (hs : ∀ side, (ch'.received side).Sublist (ch.received side)) (side : Bool) :
    Fits (ch'.limits side) (receivedAmounts (ch'.commitmentHtlcs side)) := by
  rw [receivedAmounts_next, hlimits]
  exact (h.received side).sublist (hs side)

theorem counterpartyInfo_htlcs (number : Nat) (point : PublicKey) (built : BuiltCommitmentTx)
    (htlcs : List HtlcOutputInCommitment) :
    (ch.counterpartyInfoFromBuilt number point built htlcs).htlcs.map Prod.fst = htlcs := by
  simp [counterpartyInfoFromBuilt, Function.comp_def]

theorem builtCounterparty_htlcs {number : Nat} {point : PublicKey} {b : Built}
    (hb : ch.buildCounterpartyCommitmentAt C number point = .ok b) :
    b.htlcs = ch.commitmentHtlcs false := by
  simp only [buildCounterpartyCommitmentAt, Fault.bind_eq_ok] at hb
  obtain ⟨_, -, _, -, _, -, _, -, hb⟩ := hb
  cases hb
  rfl

theorem builtHolder_htlcs {number : Nat} {b : Built}
    (hb : ch.buildHolderCommitmentAt C number = .ok b) : b.htlcs = ch.commitmentHtlcs true := by
  simp only [buildHolderCommitmentAt, Fault.bind_eq_ok] at hb
  obtain ⟨_, -, _, -, _, -, _, -, hb⟩ := hb
  cases hb
  rfl

/-- The commitment a signature covers. -/
theorem Limited.signs (h : Limited ch) {number : Nat} {point : PublicKey} {b : Built}
    (hb : ch.buildCounterpartyCommitmentAt C number point = .ok b) :
    Fits (ch.limits false) (receivedAmounts
      ((ch.counterpartyInfoFromBuilt number point b.built b.htlcs).htlcs.map Prod.fst)) := by
  rw [counterpartyInfo_htlcs, builtCounterparty_htlcs hb]
  exact h.within.next false

theorem Limited.sign (h : Limited ch) (hst : ch.state ≠ .openSent) {point : PublicKey} {b : Built}
    (hb : ch.buildCounterpartyCommitmentAt C (ch.counterpartyCommitmentNumber + 1) point = .ok b) :
    Limited (ch.sign point b) where
  within :=
    { next := h.within.next
      holder := h.within.holder
      counterparty := h.within.counterparty
      pending := fun pending hp => by
        obtain rfl := Option.some.inj hp
        exact h.signs hb }
  caps := h.caps
  unopened hopen := absurd hopen hst

/-- A resolution leaves the signed commitments alone. -/
theorem Limited.resolve (h : Limited ch) (hph : Phased ch) {hs : List Htlc}
    (hl : List.Forall₂ Htlc.Later ch.htlcs hs) {dirty : Bool} :
    Limited { ch with htlcs := hs, counterpartyDirty := dirty } where
  within :=
    { next := h.next rfl fun _ => received_later hph.disciplined hl
      holder := h.within.holder
      counterparty := h.within.counterparty
      pending := h.within.pending }
  caps := h.caps
  unopened hopen := by
    obtain ⟨hnil, hrest⟩ := h.unopened hopen
    rw [hnil] at hl
    exact ⟨List.forall₂_nil_left_iff.1 hl, hrest⟩

theorem received_gc (ch : Channel) (side : Bool) :
    (ch.gcHtlcs.received side).Sublist (ch.received side) :=
  List.filter_sublist.filterMap _

theorem received_processed (ch : Channel) (side : Bool) :
    ch.processed.received side = ch.received side := by
  show (ch.htlcs.map Htlc.process).filterMap _ = ch.htlcs.filterMap _
  rw [List.filterMap_map]
  refine List.filterMap_congr fun h _ => ?_
  simp only [Function.comp_apply, Htlc.process]
  split <;> rfl

/-- An accepted commitment becomes our current one. -/
theorem Limited.accept (h : Limited ch) (hph : Phased ch) (hst : ch.state ≠ .openSent) {number : Nat}
    {b : Built} (hb : ch.buildHolderCommitmentAt C number = .ok b) (msg : Wire.CommitmentSigned) :
    Limited (ch.acceptCommitment number b msg).gcHtlcs where
  within :=
    { next := h.next rfl fun side => (received_gc _ side).trans
        (received_later hph.disciplined ((advances_acceptCommitment number b msg).imp
          fun _ _ ha => ha.later))
      holder := fun hc hhc => by
        obtain rfl := Option.some.inj hhc
        show Fits (ch.limits true) (receivedAmounts b.htlcs)
        rw [builtHolder_htlcs hb]
        exact h.within.next true
      counterparty := h.within.counterparty
      pending := h.within.pending }
  caps := h.caps
  unopened hopen := absurd hopen hst

theorem received_revoked (hph : Phased ch) (pending : PendingCounterpartyCommitment)
    (secrets : Shachain.SecretStore) (nextPoint : PublicKey) (side : Bool) :
    ((ch.acceptRevocation pending secrets nextPoint).gcHtlcs.processed.received side).Sublist
      (ch.received side) := by
  rw [received_processed]
  exact (received_gc _ side).trans (received_later hph.disciplined
    ((advances_acceptRevocation pending secrets nextPoint).imp fun _ _ ha => ha.later))

/-- The commitment in flight becomes their current one. -/
theorem Limited.revoke (h : Limited ch) (hph : Phased ch) (hst : ch.state ≠ .openSent)
    {pending : PendingCounterpartyCommitment} (hp : ch.pendingCounterpartyCommitment = some pending)
    (secrets : Shachain.SecretStore) (nextPoint : PublicKey) :
    Limited (ch.acceptRevocation pending secrets nextPoint).gcHtlcs.processed where
  within :=
    { next := h.next rfl (received_revoked hph pending secrets nextPoint)
      holder := h.within.holder
      counterparty := fun info hinfo => by
        obtain rfl := Option.some.inj hinfo
        exact h.within.pending pending hp
      pending := nofun }
  caps := h.caps
  unopened hopen := absurd hopen hst

theorem Limited.negotiate (h : Limited ch) {msg : Wire.AcceptChannel}
    (hcheck : ch.checkAcceptChannel msg = .ok ()) (hlimits : ch'.limits true = ch.limits true)
    (hcap : (ch'.limits false).1 = msg.maxAcceptedHtlcs) (hs : ch'.htlcs = ch.htlcs)
    (hh : ch'.currentHolderCommitment = ch.currentHolderCommitment)
    (hc : ch'.currentCounterpartyCommitment = ch.currentCounterpartyCommitment)
    (hp : ch'.pendingCounterpartyCommitment = ch.pendingCounterpartyCommitment) : Limited ch' := by
  simp only [checkAcceptChannel, Fault.bind_eq_ok, Fault.require_eq_ok] at hcheck
  obtain ⟨_, hst, _, -, _, -, _, -, _, -, _, -, hmax⟩ := hcheck
  obtain ⟨hnil, hholder, hcounterparty, hpending⟩ := h.unopened hst
  refine ⟨⟨fun side => ?_, fun _ hx => ?_, fun _ hx => ?_, fun _ hx => ?_⟩, fun side => ?_,
    fun _ => ⟨hs.trans hnil, hh.trans hholder, hc.trans hcounterparty, hp.trans hpending⟩⟩
  · rw [receivedAmounts_next, Channel.received, hs, hnil]
    exact fits_nil _
  · cases (hh.trans hholder).symm.trans hx
  · cases (hc.trans hcounterparty).symm.trans hx
  · cases (hp.trans hpending).symm.trans hx
  · cases side
    · rw [hcap]
      exact Nat.lt_of_le_of_lt hmax (by decide)
    · rw [hlimits]
      exact h.caps true

/-- In use, a channel is open. -/
theorem Dormant.opened (h : Dormant ch)
    (hb : ch.counterpartyDirty = true ∨ ch.awaitingRaa = true) : ch.state ≠ .openSent := by
  intro hst
  obtain ⟨-, hd, ha⟩ := h (by simp [hst]) (by simp [hst])
  rcases hb with hb | hb
  · cases hd.symm.trans hb
  · cases ha.symm.trans hb

/-- A move that neither offers nor takes an HTLC. -/
theorem Move.limited (hm : Move C ch ch') (hout : ch'.nextHolderHtlcId = ch.nextHolderHtlcId)
    (hin : ch'.nextCounterpartyHtlcId = ch.nextCounterpartyHtlcId) (hph : Phased ch)
    (hdor : Dormant ch) (h : Limited ch) : Limited ch' := by
  cases hm with
  | negotiate msg hc => exact h.negotiate hc rfl rfl rfl rfl rfl rfl
  | bind | nextPoint | park | fee | receiveFee =>
    exact ⟨⟨h.within.next, h.within.holder, h.within.counterparty, h.within.pending⟩, h.caps,
      h.unopened⟩
  | storeInitial sig b hst hb =>
    refine ⟨⟨h.within.next, fun hc hhc => ?_, h.within.counterparty, h.within.pending⟩, h.caps,
      fun hopen => ?_⟩
    · obtain rfl := Option.some.inj hhc
      show Fits (ch.limits true) (receivedAmounts b.htlcs)
      rw [builtHolder_htlcs hb]
      exact h.within.next true
    · rcases hst with hst | hst <;> cases hst.symm.trans hopen
  | signInitial point b st _ hst _ hb =>
    refine ⟨⟨h.within.next, h.within.holder, fun info hinfo => ?_, h.within.pending⟩, h.caps,
      fun hopen => ?_⟩
    · obtain rfl := Option.some.inj hinfo
      exact h.signs hb
    · obtain rfl : st = .openSent := hopen
      cases hst
  | admin a ha =>
    refine ⟨⟨h.within.next, h.within.holder, h.within.counterparty, h.within.pending⟩, h.caps,
      fun hopen => ?_⟩
    replace hopen : a.state = .openSent := hopen
    rcases ha with ha | ⟨-, ha⟩
    · exact h.unopened (ha ▸ hopen)
    · rw [hopen] at ha
      cases ha
  | offer => exact absurd hout (Nat.succ_ne_self _)
  | receive => exact absurd hin (Nat.succ_ne_self _)
  | resolveInbound id r x _ hx => exact h.resolve hph (later_resolveInbound hx r)
  | resolveOutbound id r x hx => exact h.resolve hph (later_resolveOutbound hx r)
  | sign point b _ _ hb hd => exact h.sign (hdor.opened (.inl hd)) hb
  | revoke pending secret point secrets nextPoint ha hp =>
    exact h.revoke hph (hdor.opened (.inr ha)) hp secrets nextPoint

theorem Move.nextHolderHtlcId_le (hm : Move C ch ch') :
    ch.nextHolderHtlcId ≤ ch'.nextHolderHtlcId := by
  cases hm with
  | offer => exact Nat.le_succ _
  | _ => exact Nat.le_refl _

/-- Quiet moves that offer no HTLC. -/
theorem QuietMoves.limited (hm : QuietMoves C ch ch')
    (hout : ch'.nextHolderHtlcId = ch.nextHolderHtlcId) (hph : Phased ch) (hdor : Dormant ch)
    (h : Limited ch) : Limited ch' := by
  have hall : ch.nextHolderHtlcId ≤ ch'.nextHolderHtlcId ∧ Phased ch' ∧ Dormant ch' ∧
      (ch'.nextHolderHtlcId ≤ ch.nextHolderHtlcId → Limited ch') := by
    clear hout
    induction hm with
    | refl => exact ⟨Nat.le_refl _, hph, hdor, fun _ => h⟩
    | tail _ hq ih =>
      obtain ⟨hle, hphb, hdorb, hlim⟩ := ih
      have hstep := hq.1.nextHolderHtlcId_le
      refine ⟨Nat.le_trans hle hstep, hq.1.phased hphb, hq.1.dormant hdorb, fun hback => ?_⟩
      have hsame := Nat.le_antisymm (Nat.le_trans hback hle) hstep
      exact hq.1.limited hsame (congrArg Prod.fst hq.2) hphb hdorb (hlim (Nat.le_trans hstep hback))
  exact hall.2.2.2 (Nat.le_of_eq hout)

/-! ## Adds -/

theorem HasRoom.sublist {side : Bool} {xs ys : List Msat} (h : ch.HasRoom side ys)
    (hs : xs.Sublist ys) : ch.HasRoom side xs :=
  h.imp_right fun hfits => hfits.sublist (hs.append_left _)

/-- Where no HTLC lingers, a commitment pays its owner for the unresolved ones. -/
theorem received_eq_live (hph : Phased ch) {side : Bool} (hl : ch.lingering side = []) :
    ch.received side = (ch.live (!side)).map (·.amountMsat) := by
  unfold received live
  rw [← List.filterMap_eq_map, ← List.filterMap_eq_filter, List.filterMap_filterMap]
  refine List.filterMap_congr fun h hh => ?_
  by_cases ho : h.outbound = !side
  · cases hr : h.resolution with
    | none =>
      have hlive := (hph.disciplined h hh).receivedBy_live hr
      rw [ho, Bool.not_not] at hlive
      simp [hlive, ho, hr, Option.guard]
    | some r =>
      have hnone : h.receivedBy side = none := by
        have hlingers := List.filterMap_eq_nil_iff.1 hl h hh
        rwa [Htlc.lingersBy, hr, Option.isSome_some, if_pos rfl] at hlingers
      simp [hnone, hr, Option.guard]
  · simp [Htlc.receivedBy, ho, Option.guard]

/-- What the check of an add on the live HTLCs is worth for the commitment. -/
theorem Limited.admits (h : Limited ch) (hph : Phased ch) (side : Bool) {amount : Msat}
    {rest : List Msat} (hcount : (ch.live (!side)).length % 2 ^ 16 < (ch.limits side).1)
    (hsum : ((ch.live (!side)).map (·.amountMsat)).sum + amount ≤ (ch.limits side).2)
    (hroom : ch.HasRoom side (amount :: rest)) :
    Fits (ch.limits side) (ch.received side ++ [amount]) := by
  rcases hroom with hl | hfits
  · have hlive := received_eq_live hph hl
    have hlen : (ch.live (!side)).length ≤ (ch.limits side).1 := by
      have hle := (h.received side).1
      rwa [hlive, List.length_map] at hle
    rw [Nat.mod_eq_of_lt (Nat.lt_of_le_of_lt hlen (h.caps side))] at hcount
    rw [hlive]
    constructor
    · rw [List.length_append, List.length_map]
      exact hcount
    · rw [List.sum_append, List.sum_singleton]
      exact hsum
  · exact hfits.sublist (List.Sublist.append_left (List.singleton_sublist.2 List.mem_cons_self) _)

/-- The channel with one more HTLC. -/
theorem Limited.add (h : Limited ch) (hst : ch.state = .normal) {x : Htlc} (side : Bool)
    (hlimits : ch'.limits = ch.limits) (hs : ch'.htlcs = ch.htlcs ++ [x])
    (hx : x.receivedBy side = some x.amountMsat) (hother : x.receivedBy (!side) = none)
    (hfits : Fits (ch.limits side) (ch.received side ++ [x.amountMsat]))
    (hstate : ch'.state = ch.state)
    (hh : ch'.currentHolderCommitment = ch.currentHolderCommitment)
    (hc : ch'.currentCounterpartyCommitment = ch.currentCounterpartyCommitment)
    (hp : ch'.pendingCounterpartyCommitment = ch.pendingCounterpartyCommitment) : Limited ch' where
  within :=
    { next := fun s => by
        have hreceived : ch'.received s = ch.received s ++ (x.receivedBy s).toList := by
          unfold Channel.received
          rw [hs, List.filterMap_append]
          cases hxs : x.receivedBy s <;> simp [hxs]
        rw [receivedAmounts_next, hreceived, hlimits]
        by_cases hside : s = side
        · subst hside
          rw [hx]
          exact hfits
        · rw [Bool.eq_not_of_ne hside, hother, Option.toList_none, List.append_nil]
          exact h.received _
      holder := fun hc' hhc => by
        rw [hlimits]
        exact h.within.holder hc' (hh ▸ hhc)
      counterparty := fun info hinfo => by
        rw [hlimits]
        exact h.within.counterparty info (hc ▸ hinfo)
      pending := fun pending hpending => by
        rw [hlimits]
        exact h.within.pending pending (hp ▸ hpending) }
  caps := by
    rw [hlimits]
    exact h.caps
  unopened hopen := by
    rw [hstate, hst] at hopen
    cases hopen

theorem Limited.receive (h : Limited ch) (hph : Phased ch) {msg : Wire.UpdateAddHtlc}
    (hcheck : ch.checkUpdateAddHtlc msg = .ok ()) (hroom : ch.HasRoom true [msg.amountMsat]) :
    Limited (ch.receive msg) := by
  simp only [checkUpdateAddHtlc, Fault.bind_eq_ok, Fault.require_eq_ok] at hcheck
  obtain ⟨_, hst, _, -, _, -, _, -, _, -, _, -, _, hcount, _, hsum, -⟩ := hcheck
  have hfits := h.admits hph true hcount hsum hroom
  exact h.add hst true rfl rfl (by simp [Htlc.receivedBy, Htlc.phase, HtlcPhase.included])
    (by simp [Htlc.receivedBy]) hfits rfl rfl rfl rfl

theorem Limited.offer (h : Limited ch) (hph : Phased ch) (hst : ch.state = .normal)
    {amountMsat : Msat} {cltvExpiry : Nat} {rest : List Msat}
    (hcheck : ch.validateOutboundAdd amountMsat cltvExpiry = .ok ())
    (hroom : ch.HasRoom false (amountMsat :: rest)) (hash : PaymentHash) (onion : List UInt8)
    (source : HtlcSource) : Limited (ch.offer amountMsat hash cltvExpiry onion source) := by
  simp only [validateOutboundAdd, Fault.bind_eq_ok, Fault.require_eq_ok] at hcheck
  obtain ⟨_, -, _, -, _, -, _, hcount, _, hsum, -⟩ := hcheck
  have hfits := h.admits hph false hcount hsum hroom
  exact h.add hst false rfl rfl (by simp [Htlc.receivedBy, Htlc.phase, HtlcPhase.included])
    (by simp [Htlc.receivedBy]) hfits rfl rfl rfl rfl

/-! ## The flush -/

/-- A step that resolves nothing at the recipient leaves as much room. -/
theorem HasRoom.of (h : ch.HasRoom side amounts) (hlimits : ch'.limits = ch.limits)
    (hl : (ch'.lingering side).Sublist (ch.lingering side))
    (hs : (ch'.received side).Sublist (ch.received side)) : ch'.HasRoom side amounts := by
  rcases h with hnone | hfits
  · rw [hnone] at hl
    exact .inl (List.sublist_nil.1 hl)
  · rw [← hlimits] at hfits
    exact .inr (hfits.sublist (hs.append_right amounts))

theorem HasRoom.resolveInbound (h : ch.HasRoom false amounts) (hph : Phased ch) {id : HtlcId}
    {x : Htlc} (hx : ch.inboundCommitted id = .ok x) (r : HtlcResolution) :
    (ch.resolveInbound id r).HasRoom false amounts := by
  refine h.of rfl ?_ (received_later hph.disciplined (later_resolveInbound hx r))
  -- An inbound HTLC never counts for their commitment.
  have hloses : List.Forall₂ (fun a b => ∀ c, Htlc.lingersBy false b = some c →
      Htlc.lingersBy false a = some c) ch.htlcs (ch.resolveInbound id r).htlcs := by
    refine List.forall₂_mutFirst (fun _ _ hc => hc) fun y hy c hc => ?_
    have hkey : y.key = (false, id) := findHtlc_key hy
    have ho : y.outbound = false := congrArg Prod.fst hkey
    simp [Htlc.lingersBy, Htlc.receivedBy, ho] at hc
  exact List.filterMap_sublist_of_forall₂ hloses fun _ _ _ hr c hc => hr c hc

theorem lingersBy_advances {h h' : Htlc} (hd : h.Disciplined) (ha : Htlc.Advances h h') {side : Bool}
    {amount : Msat} (hr : h'.lingersBy side = some amount) : h.lingersBy side = some amount := by
  unfold Htlc.lingersBy at hr ⊢
  rw [ha.resolution] at hr
  split at hr
  · next hres =>
    rw [if_pos hres]
    exact receivedBy_later hd ha.later hr
  · cases hr

theorem HasRoom.revoked (h : ch.HasRoom false amounts) (hph : Phased ch)
    (pending : PendingCounterpartyCommitment) (secrets : Shachain.SecretStore)
    (nextPoint : PublicKey) : (ch.revoked pending secrets nextPoint).HasRoom false amounts := by
  refine h.of rfl ?_ (received_revoked hph pending secrets nextPoint false)
  have hprocess : (ch.revoked pending secrets nextPoint).lingering false =
      (ch.acceptRevocation pending secrets nextPoint).gcHtlcs.lingering false := by
    show (List.map Htlc.process _).filterMap _ = List.filterMap _ _
    rw [List.filterMap_map]
    refine List.filterMap_congr fun x _ => ?_
    simp only [Function.comp_apply, Htlc.process]
    split <;> rfl
  rw [hprocess]
  refine (List.filter_sublist.filterMap _).trans ?_
  exact List.filterMap_sublist_of_forall₂ (advances_acceptRevocation pending secrets nextPoint)
    fun x hx _ ha _ hr => lingersBy_advances (hph.disciplined x hx) ha hr

/-- With the add the rest of the cell finds as much room. -/
theorem HasRoom.offer {amountMsat : Msat} (h : ch.HasRoom false (amountMsat :: amounts))
    (hash : PaymentHash) (cltvExpiry : Nat) (onion : List UInt8) (source : HtlcSource) :
    (ch.offer amountMsat hash cltvExpiry onion source).HasRoom false amounts := by
  rcases h with hnone | hfits
  · left
    have hsame : (ch.offer amountMsat hash cltvExpiry onion source).lingering false =
        ch.lingering false := by
      simp [lingering, Channel.offer, Htlc.lingersBy]
    exact hsame.trans hnone
  · right
    have hreceived : (ch.offer amountMsat hash cltvExpiry onion source).received false =
        ch.received false ++ [amountMsat] := by
      simp [received, Channel.offer, Htlc.receivedBy, Htlc.phase, HtlcPhase.included]
    rw [hreceived, List.append_assoc]
    exact hfits

theorem cellAmounts_tail (op : HoldingCellOp) (ops : List HoldingCellOp) :
    (cellAmounts ops).Sublist (cellAmounts (op :: ops)) :=
  (List.sublist_cons_self op ops).filterMap _

theorem FlushesOps.state {ops : List HoldingCellOp} {os : List RaaOutcome}
    (h : FlushesOps C ch ops os ch') : ch'.state = ch.state := by
  induction h with
  | nil => rfl
  | cons hop _ ih => cases hop <;> exact ih

theorem FlushesOps.limited {ops : List HoldingCellOp} {os : List RaaOutcome}
    (h : FlushesOps C ch ops os ch') (hph : Phased ch) (hl : Limited ch)
    (hroom : ch.HasRoom false (cellAmounts ops)) : Limited ch' := by
  induction h with
  | nil => exact hl
  | @cons ch ch₁ ch₂ op ops o os hop _ ih =>
    have htail := hroom.sublist (cellAmounts_tail op ops)
    cases hop with
    | offered hst hv =>
      exact ih (hph.offer _ _ _ _ _) (hl.offer hph hst hv hroom _ _ _) (hroom.offer _ _ _ _)
    | refused | dropped => exact ih hph hl htail
    | fulfilled hx | failed hx | failedMalformed hx =>
      exact ih (hph.resolveInbound hx _) (hl.resolve hph (later_resolveInbound hx _))
        (htail.resolveInbound hph hx _)

/-! ## Every step -/

theorem MaySign.limited {cs : Option Wire.CommitmentSigned} (hs : MaySign C ch cs ch')
    (hst : ch.state ≠ .openSent) (h : Limited ch) : Limited ch' := by
  cases hs with
  | none => exact h
  | some hsigns => exact h.sign hst hsigns.built

theorem Updated.limited {i : Input} (hu : Updated C ch i ch') (huse : InUse ch) (hph : Phased ch)
    (hroomy : ch.Roomy i) (h : Limited ch) : Limited ch' := by
  cases hu with
  | same _ hq hc => exact hq.limited (congrArg Books.nextHolderHtlcId hc) hph huse.dormant h
  | refused => exact h
  | parked | changedFee | receivedFee =>
    exact ⟨⟨h.within.next, h.within.holder, h.within.counterparty, h.within.pending⟩, h.caps,
      h.unopened⟩
  | offered hst ha hv => exact h.offer hph hst hv (hroomy ha hv) _ _ _
  | resolvedInbound _ hx => exact h.resolve hph (later_resolveInbound hx _)
  | received hc => exact h.receive hph hc (hroomy hc)
  | resolvedOutbound hx => exact h.resolve hph (later_resolveOutbound hx _)
  | signed hs => exact h.sign (huse.dormant.opened (.inl hs.dirty)) hs.built
  | accepted hst hb =>
    refine h.accept hph (fun hopen => ?_) hb _
    rw [hopen] at hst
    rcases hst with hst | hst <;> cases hst
  | @revoked msg pending secrets os ch₁ _ cs ha hp hos hcs =>
    have hopen := huse.dormant.opened (.inr ha)
    have hr := h.revoke hph hopen hp secrets msg.nextPerCommitmentPoint
    have hrevoked : Limited (ch.revoked pending secrets msg.nextPerCommitmentPoint) :=
      ⟨⟨hr.within.next, hr.within.holder, hr.within.counterparty, hr.within.pending⟩, hr.caps,
        hr.unopened⟩
    have hphr : Phased (ch.revoked pending secrets msg.nextPerCommitmentPoint) :=
      (hph.revoke hp secrets msg.nextPerCommitmentPoint).congr rfl rfl
    have hflushed := hos.limited hphr hrevoked ((hroomy ha).revoked hph pending secrets _)
    refine hcs.limited ?_ hflushed
    rw [hos.state]
    exact hopen

/-- A new channel is within its limits: it has no HTLC, and the peer's number of HTLCs is checked. -/
theorem Fresh.limited (h₀ : Fresh C ch₀) (hcap : ch₀.config.maxAcceptedHtlcs < 2 ^ 16) :
    Limited ch₀ := by
  have hinit := h₀.initial
  have hcaps : ∀ side, (ch₀.limits side).1 < 2 ^ 16 := by
    cases h₀ with
    | outbound h =>
      unfold newOutbound at h
      split at h
      · cases h
      · obtain ⟨rfl, -⟩ := Prod.mk.inj (Except.ok.inj h)
        intro side
        cases side
        · exact Nat.two_pow_pos 16
        · exact hcap
    | inbound h =>
      simp only [newInbound, Fault.bind_eq_ok, pure, Except.pure, Except.ok.injEq] at h
      obtain ⟨_, hcheck, h⟩ := h
      obtain ⟨rfl, -⟩ := Prod.mk.inj h
      simp only [checkOpenChannel, Fault.bind_eq_ok, Fault.require_eq_ok] at hcheck
      obtain ⟨_, -, _, -, _, -, _, -, _, hmax, -⟩ := hcheck
      intro side
      cases side
      · exact Nat.lt_of_le_of_lt hmax (by decide)
      · exact hcap
  refine ⟨⟨fun side => ?_, fun _ hc => ?_, fun _ hc => ?_, fun _ hc => ?_⟩, hcaps, fun _ =>
    ⟨hinit.htlcs, hinit.holderCommitment, hinit.counterpartyCommitment, hinit.pending⟩⟩
  · rw [receivedAmounts_next, Channel.received, hinit.htlcs]
    exact fits_nil _
  · cases hinit.holderCommitment.symm.trans hc
  · cases hinit.counterpartyCommitment.symm.trans hc
  · cases hinit.pending.symm.trans hc

end Channel

namespace Demo

open Channel

/-- An accepter that allows the opener a single HTLC. -/
def narrowBob : Channel × Wire.AcceptChannel :=
  (newInbound C (signer 2) { maxAcceptedHtlcs := 1 } .regtest alice.2).toOption.get
    (by decide +kernel)

theorem narrowBob_fresh : Fresh C narrowBob.1 := by
  have h : (newInbound C (signer 2) { maxAcceptedHtlcs := 1 } .regtest alice.2).toOption =
      some narrowBob := (Option.some_get _).symm
  exact .inbound (Fault.toOption_eq_some.1 h)

def narrow : Pair := ⟨alice.1, narrowBob.1, [.acceptChannel narrowBob.2], []⟩

end Demo

namespace Channel

end Channel
