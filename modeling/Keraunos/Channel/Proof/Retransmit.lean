import Keraunos.Channel.Proof.Calls
import Keraunos.Channel.Proof.Dirty
import Keraunos.Channel.Proof.Unique

/-!
# Retransmission

`signedHtlc` is an HTLC as the commitment in flight has it, with every update that commitment does
not cover undone. As long as it is in flight, the list of these HTLCs and the balances they leave do
not change, whatever crosses it (`Preserves`), and a disconnect brings the channel back to them. So a
channel that has lost its `commitment_signed` signs the same transaction again, unless the feerate has
moved on (`retransmits_lost_commitment`).
-/

open Bitcoin Commitment

namespace Htlc

/-- Added to their commitment and not gone from it. -/
def onTheirs (h : Htlc) : Bool := h.phaseCounterparty ≠ .notYet && h.phaseCounterparty ≠ .gone

end Htlc

namespace Channel

variable {C : Crypto} {ch ch' ch₀ r : Channel}

/-! ## The commitment in flight -/

/-- The phase on the commitment in flight: an update it does not cover is undone. -/
def signedPhase (ch : Channel) (h : Htlc) : HtlcPhase :=
  if h.phaseCounterparty = .pending ∧ h.key ∉ ch.snapshotIncluded then .notYet
  else if h.phaseCounterparty = .removing ∧ h.key ∉ ch.snapshotRemoved then .committed
  else h.phaseCounterparty

/-- An HTLC as the commitment in flight has it. -/
def signedHtlc (ch : Channel) (h : Htlc) : Htlc :=
  { h with
    resolution := if (ch.signedPhase h).credited then h.resolution else none
    phaseHolder := .notYet
    phaseCounterparty := ch.signedPhase h
    processed := false }

/-- The HTLCs as the commitment in flight has them. -/
def signedHtlcs (ch : Channel) : List Htlc := ch.htlcs.map ch.signedHtlc

/-- Those that the commitment in flight adds, holds or removes. -/
def signedView (ch : Channel) : List Htlc := ch.signedHtlcs.filter Htlc.onTheirs

/-- The balance the commitment in flight leaves to side `m`, if it is not negative. -/
def signedFunds (ch : Channel) (m : Bool) : Int :=
  ch.base m + Htlc.effects (·.phaseCounterparty) ch.signedHtlcs m

/-- The balances of the commitment in flight are computed without saturation. -/
def ExactSigned (ch : Channel) : Prop :=
  (ch.signedHtlcs.foldlM (fun bal (h : Htlc) => h.applyBalanceExact h.phaseCounterparty bal)
    (ch.toHolderMsat, ch.toCounterpartyMsat)).isSome = true

instance : Decidable (ExactSigned ch) := inferInstanceAs (Decidable (_ = true))

/-- Collecting the HTLCs that the peer's next `commitment_signed` settles is exact. -/
def CollectsExactly (ch : Channel) : Prop :=
  GcExact { ch with htlcs := (ch.htlcs.map Htlc.lockHolder).map Htlc.acknowledge }

instance : Decidable (CollectsExactly ch) := inferInstanceAs (Decidable (_ = some _))

/-- What else a signature for the peer depends on, the feerate apart. -/
structure Terms where
  signer : ChannelSigner
  role : ChannelRole
  params : ChannelParams
  channelId : ChannelId
  fundingOutpoint : Option OutPoint
  fundingAmountSat : Nat
  holderPubkeys : ChannelPublicKeys
  counterpartyPubkeys : Option ChannelPublicKeys
  obscureFactor : Nat
  counterpartyCommitmentNumber : Nat
  counterpartyNextPoint : Option PublicKey

def terms (ch : Channel) : Terms where
  signer := ch.signer
  role := ch.role
  params := ch.params
  channelId := ch.channelId
  fundingOutpoint := ch.fundingOutpoint
  fundingAmountSat := ch.fundingAmountSat
  holderPubkeys := ch.holderPubkeys
  counterpartyPubkeys := ch.counterpartyPubkeys
  obscureFactor := ch.obscureFactor
  counterpartyCommitmentNumber := ch.counterpartyCommitmentNumber
  counterpartyNextPoint := ch.counterpartyNextPoint

/-- In `ch` the commitment that `r` has just signed is still in flight. -/
structure Preserves (r ch : Channel) : Prop where
  awaiting : ch.awaitingRaa = true
  pending : ch.pendingCounterpartyCommitment = r.pendingCounterpartyCommitment
  terms : ch.terms = r.terms
  view : ch.signedView = r.signedView
  funds : ∀ m, ch.signedFunds m = r.signedFunds m
  included : ch.snapshotIncluded =
    (ch.signedView.filter fun h => h.phaseCounterparty = .pending).map Htlc.key
  removed : ch.snapshotRemoved =
    (ch.signedView.filter fun h => h.phaseCounterparty = .removing).map Htlc.key

theorem signedHtlc_congr (hp : ch'.pendingCounterpartyCommitment = ch.pendingCounterpartyCommitment) :
    ch'.signedHtlc = ch.signedHtlc := by
  have hi : ch'.snapshotIncluded = ch.snapshotIncluded := by simp only [snapshotIncluded, hp]
  have hr : ch'.snapshotRemoved = ch.snapshotRemoved := by simp only [snapshotRemoved, hp]
  funext h
  unfold signedHtlc signedPhase
  rw [hi, hr]

theorem signedHtlcs_eq (hp : ch'.pendingCounterpartyCommitment = ch.pendingCounterpartyCommitment) :
    ch'.signedHtlcs = ch'.htlcs.map ch.signedHtlc := by
  rw [signedHtlcs, signedHtlc_congr hp]

/-- A phase that no snapshot counts for. -/
theorem signedPhase_eq {h : Htlc} (h1 : h.phaseCounterparty = .pending → h.key ∈ ch.snapshotIncluded)
    (h2 : h.phaseCounterparty = .removing → h.key ∈ ch.snapshotRemoved) :
    ch.signedPhase h = h.phaseCounterparty := by
  unfold signedPhase
  rw [if_neg fun hc => hc.2 (h1 hc.1), if_neg fun hc => hc.2 (h2 hc.1)]

namespace Preserves

/-- A change that leaves the commitment in flight as it is. -/
theorem congr (h : Preserves r ch) (ha : ch'.awaitingRaa = ch.awaitingRaa)
    (hp : ch'.pendingCounterpartyCommitment = ch.pendingCounterpartyCommitment)
    (ht : ch'.terms = ch.terms) (hv : ch'.signedView = ch.signedView)
    (hf : ∀ m, ch'.signedFunds m = ch.signedFunds m) : Preserves r ch' where
  awaiting := ha.trans h.awaiting
  pending := hp.trans h.pending
  terms := ht.trans h.terms
  view := hv.trans h.view
  funds m := (hf m).trans (h.funds m)
  included := by
    rw [hv, ← h.included]
    simp only [snapshotIncluded, hp]
  removed := by
    rw [hv, ← h.removed]
    simp only [snapshotRemoved, hp]

/-- A change of other fields. -/
theorem same (h : Preserves r ch) (ha : ch'.awaitingRaa = ch.awaitingRaa)
    (hp : ch'.pendingCounterpartyCommitment = ch.pendingCounterpartyCommitment)
    (ht : ch'.terms = ch.terms) (hs : ch'.htlcs = ch.htlcs) (hb : ∀ m, ch'.base m = ch.base m) :
    Preserves r ch' := by
  have hl : ch'.signedHtlcs = ch.signedHtlcs := by rw [signedHtlcs_eq hp, hs, signedHtlcs]
  refine h.congr ha hp ht ?_ fun m => ?_
  · simp only [signedView, hl]
  · simp only [signedFunds, hl, hb]

/-- With distinct keys, a snapshot tells what the commitment in flight covers. -/
theorem signedPhase_of_included (h : Preserves r ch) (hd : (ch.htlcs.map Htlc.key).Nodup) {x : Htlc}
    (hx : x ∈ ch.htlcs) (hk : x.key ∈ ch.snapshotIncluded) : ch.signedPhase x = .pending := by
  rw [h.included] at hk
  obtain ⟨y, hy, hyk⟩ := List.mem_map.1 hk
  obtain ⟨hy, hyp⟩ := List.mem_filter.1 hy
  obtain ⟨z, hz, rfl⟩ := List.mem_map.1 (List.mem_filter.1 hy).1
  obtain rfl : z = x := List.inj_on_of_nodup_map hd hz hx hyk
  exact of_decide_eq_true hyp

theorem signedPhase_of_removed (h : Preserves r ch) (hd : (ch.htlcs.map Htlc.key).Nodup) {x : Htlc}
    (hx : x ∈ ch.htlcs) (hk : x.key ∈ ch.snapshotRemoved) : ch.signedPhase x = .removing := by
  rw [h.removed] at hk
  obtain ⟨y, hy, hyk⟩ := List.mem_map.1 hk
  obtain ⟨hy, hyp⟩ := List.mem_filter.1 hy
  obtain ⟨z, hz, rfl⟩ := List.mem_map.1 (List.mem_filter.1 hy).1
  obtain rfl : z = x := List.inj_on_of_nodup_map hd hz hx hyk
  exact of_decide_eq_true hyp

/-! ## What crosses it -/

theorem receive (h : Preserves r ch) (msg : Wire.UpdateAddHtlc) : Preserves r (ch.receive msg) := by
  obtain ⟨x, hx, hl⟩ : ∃ x : Htlc, x.phaseCounterparty = .notYet ∧
      (ch.receive msg).signedHtlcs = ch.signedHtlcs ++ [x] := by
    refine ⟨ch.signedHtlc ⟨false, msg.id, msg.amountMsat, msg.paymentHash, msg.cltvExpiry,
      msg.onionRoutingPacket, none, none, .pending, .notYet, false⟩, by simp [signedHtlc, signedPhase], ?_⟩
    have hp : (ch.receive msg).pendingCounterpartyCommitment = ch.pendingCounterpartyCommitment := rfl
    rw [signedHtlcs_eq hp]
    exact List.map_append
  refine h.congr rfl rfl rfl ?_ fun m => ?_
  · simp [signedView, hl, Htlc.onTheirs, hx]
  · simp only [signedFunds, hl, Htlc.effects, List.map_append, List.sum_append]
    simp [Htlc.effect, hx, HtlcPhase.included, HtlcPhase.credited]
    rfl

theorem resolveOutbound (h : Preserves r ch) {id : HtlcId} {x : Htlc}
    (hx : ch.outboundCommitted id = .ok x) (res : HtlcResolution) :
    Preserves r (ch.resolveOutbound id res) := by
  obtain ⟨hf, -, -, hc⟩ := outboundCommitted_eq_ok.1 hx
  have hl : (ch.resolveOutbound id res).signedHtlcs = ch.signedHtlcs := by
    have hp : (ch.resolveOutbound id res).pendingCounterpartyCommitment =
        ch.pendingCounterpartyCommitment := rfl
    rw [signedHtlcs_eq hp]
    refine List.map_mutFirst_of_find? fun a ha => ?_
    obtain rfl : x = a := Option.some.inj (hf.symm.trans ha)
    simp [signedHtlc, signedPhase, hc, HtlcPhase.credited]
  refine h.congr rfl rfl rfl ?_ fun m => ?_
  · simp only [signedView, hl]
  · simp only [signedFunds, hl]
    rfl

/-- HTLCs that the commitment in flight does not count are dropped, and the base takes over what they
did to the balances. -/
theorem drop (h : Preserves r ch) {q : Htlc → Bool} (ha : ch'.awaitingRaa = ch.awaitingRaa)
    (hp : ch'.pendingCounterpartyCommitment = ch.pendingCounterpartyCommitment)
    (ht : ch'.terms = ch.terms) (hl : ch'.signedHtlcs = (ch.htlcs.filter q).map ch.signedHtlc)
    (hq : ∀ x ∈ ch.htlcs, q x = false → (ch.signedHtlc x).onTheirs = false)
    (hb : ∀ m, (ch'.base m : Int) = ch.base m + Htlc.effects (·.phaseCounterparty)
      ((ch.htlcs.filter fun x => !q x).map ch.signedHtlc) m) : Preserves r ch' := by
  refine h.congr ha hp ht ?_ fun m => ?_
  · rw [signedView, hl, signedView, signedHtlcs, List.filter_map, List.filter_map, List.filter_filter]
    refine congrArg (List.map _) (List.filter_congr fun x hx => ?_)
    cases hqx : q x with
    | true => simp
    | false => simp [hq x hx hqx]
  · have hsum := Ledger.sum_filter_add q
      (fun x => (ch.signedHtlc x).effect (ch.signedHtlc x).phaseCounterparty m) ch.htlcs
    rw [signedFunds, signedFunds, hl, hb, signedHtlcs]
    simp only [Htlc.effects, List.map_map, Function.comp_def]
    omega

/-- With distinct keys, the peer's `commitment_signed` changes nothing in the commitment in flight. -/
theorem signedHtlc_accept (h : Preserves r ch) (hd : (ch.htlcs.map Htlc.key).Nodup) {x : Htlc}
    (hx : x ∈ ch.htlcs) (hdis : x.Disciplined) :
    ch.signedHtlc x.lockHolder.acknowledge = ch.signedHtlc x := by
  have hinc : x.phaseCounterparty = .notYet → x.key ∉ ch.snapshotIncluded := by
    intro hc hk
    have hphase := h.signedPhase_of_included hd hx hk
    simp [signedPhase, hc] at hphase
  have hrem : x.phaseCounterparty = .committed → x.key ∉ ch.snapshotRemoved := by
    intro hc hk
    have hphase := h.signedPhase_of_removed hd hx hk
    simp [signedPhase, hc] at hphase
  rcases hdis.stages with ⟨ho, h1 | h1 | h1 | h1 | h1⟩ | ⟨ho, h1 | h1 | h1 | h1 | h1 | h1⟩ <;>
  obtain ⟨hh, hc, hr⟩ := h1 <;>
  simp only [ho, hc, reduceCtorEq, forall_const, false_implies, Htlc.key] at hinc hrem <;>
  simp [signedHtlc, signedPhase, Htlc.lockHolder, Htlc.acknowledge, Htlc.acksAdd, Htlc.acksRemoval,
    ho, hh, hc, hr, hinc, hrem, Htlc.key, HtlcPhase.credited]

theorem accept (h : Preserves r ch) (hph : Phased ch) (hd : (ch.htlcs.map Htlc.key).Nodup)
    (hgc : CollectsExactly ch) (number : Nat) (b : Built) (msg : Wire.CommitmentSigned) :
    Preserves r (ch.acceptCommitment number b msg).gcHtlcs := by
  have hp : (ch.acceptCommitment number b msg).gcHtlcs.pendingCounterpartyCommitment =
      ch.pendingCounterpartyCommitment := rfl
  have hsigned : ∀ x ∈ ch.htlcs, ch.signedHtlc x.lockHolder.acknowledge = ch.signedHtlc x :=
    fun x hx => h.signedHtlc_accept hd hx (hph.disciplined x hx)
  -- What is collected has left the commitment in flight too.
  have hgone : ∀ x ∈ ch.htlcs, x.lockHolder.acknowledge.isGone = true →
      (ch.signedHtlc x).phaseCounterparty = .gone ∧
        ∀ m, (ch.signedHtlc x).effect .gone m = x.lockHolder.acknowledge.effect .gone m := by
    intro x hx hg
    simp only [Htlc.isGone, Bool.and_eq_true, decide_eq_true_eq] at hg
    rw [← hsigned x hx]
    have hphase : ch.signedPhase x.lockHolder.acknowledge = .gone := by
      simp [signedPhase, hg.2]
    refine ⟨hphase, fun m => ?_⟩
    simp [Htlc.effect, Htlc.isFulfilled, signedHtlc, hphase, HtlcPhase.credited, HtlcPhase.included]
  refine h.drop (q := fun x => !x.lockHolder.acknowledge.isGone) rfl rfl rfl ?_ ?_ ?_
  · rw [signedHtlcs_eq hp]
    show (List.filter _ ((ch.htlcs.map Htlc.lockHolder).map Htlc.acknowledge)).map _ = _
    rw [List.map_map, List.filter_map, List.map_map]
    refine List.map_congr_left fun x hx => ?_
    exact hsigned x (List.mem_filter.1 hx).1
  · intro x hx hq
    simp [Htlc.onTheirs, (hgone x hx (by simpa using hq)).1]
  · intro m
    have hlist : (ch.acceptCommitment number b msg).htlcs.filter Htlc.isGone =
        (ch.htlcs.filter fun x => x.lockHolder.acknowledge.isGone).map
          fun x => x.lockHolder.acknowledge := by
      show ((ch.htlcs.map Htlc.lockHolder).map Htlc.acknowledge).filter _ = _
      rw [List.map_map, List.filter_map]
      rfl
    obtain ⟨-, h1, h2⟩ := Htlc.foldlM_eq_some (fun _ => .gone) (show _ = some _ from hgc)
    have heff : Htlc.effects (fun _ => .gone)
        ((ch.acceptCommitment number b msg).htlcs.filter Htlc.isGone) m =
        Htlc.effects (·.phaseCounterparty)
          ((ch.htlcs.filter fun x => !!x.lockHolder.acknowledge.isGone).map ch.signedHtlc) m := by
      rw [hlist]
      simp only [Htlc.effects, List.map_map, Bool.not_not]
      refine congrArg List.sum (List.map_congr_left fun x hx => ?_)
      obtain ⟨hx, hg⟩ := List.mem_filter.1 hx
      obtain ⟨hphase, he⟩ := hgone x hx hg
      simp only [Function.comp_apply, hphase, he]
    rw [← heff]
    cases m
    · exact h2
    · exact h1

end Preserves

/-- What a disconnect keeps of an HTLC is what the commitment in flight says of it. -/
theorem RollsBack.signed {h : Htlc} {x : Rollback} (hr : RollsBack ch h x) :
    (∀ y, x.keep = some y → ch.signedHtlc y = ch.signedHtlc h ∧
      ch.signedPhase y = y.phaseCounterparty) ∧
      (x.keep = none → ch.signedPhase h = .notYet) := by
  cases hr with
  | keep hinc hrem =>
    refine ⟨fun y hy => ?_, fun h => by cases h⟩
    obtain rfl := Option.some.inj hy
    exact ⟨rfl, signedPhase_eq hinc hrem⟩
  | unoffer source ho hh hc hk => exact ⟨fun _ h => (by cases h), fun _ => by simp [signedPhase, hc, hk]⟩
  | forget ho hh hc => exact ⟨fun _ h => (by cases h), fun _ => by simp [signedPhase, hc]⟩
  | unacknowledge ho hh hc hk | unresolve ho hh hc hk | unacknowledgeRemoval ho hh hc hk =>
    refine ⟨fun y hy => ?_, fun h => by cases h⟩
    obtain rfl := Option.some.inj hy
    simp [signedHtlc, signedPhase, hc, hk, HtlcPhase.credited]
  | unremove ho hh hc =>
    refine ⟨fun y hy => ?_, fun h => by cases h⟩
    obtain rfl := Option.some.inj hy
    simp [signedHtlc, signedPhase, hc, HtlcPhase.credited]

section
variable {rs : List Rollback}

/-- After a disconnect. -/
theorem Phased.signedHtlcs_rolledBack (hph : Phased ch) (hrs : ch.htlcs.mapM ch.rollback = some rs) :
    (ch.rolledBack rs).signedHtlcs =
      (ch.htlcs.filter fun x => ((ch.rollback x).bind (·.keep)).isSome).map ch.signedHtlc := by
  have hp : (ch.rolledBack rs).pendingCounterpartyCommitment = ch.pendingCounterpartyCommitment := rfl
  have hlist : (ch.rolledBack rs).htlcs = ch.htlcs.filterMap fun x => (ch.rollback x).bind (·.keep) :=
    List.filterMap_of_mapM hrs
  rw [signedHtlcs_eq hp, hlist]
  refine List.map_filterMap_of_some fun x hx y hy => ?_
  obtain ⟨k, hk, hkeep⟩ := Option.bind_eq_some_iff.1 hy
  exact ((hph.rollsBack hx hk).signed.1 y hkeep).1

theorem Phased.signedPhase_dropped (hph : Phased ch) {x : Htlc} (hx : x ∈ ch.htlcs)
    (hq : ((ch.rollback x).bind (·.keep)).isSome = false) : ch.signedPhase x = .notYet := by
  obtain ⟨k, hk, hrb⟩ := rollback_spec ch (hph.disciplined x hx) (hph.sourced x hx)
  refine hrb.signed.2 ?_
  simpa [hk] using hq

theorem Preserves.rolledBack (h : Preserves r ch) (hph : Phased ch)
    (hrs : ch.htlcs.mapM ch.rollback = some rs) : Preserves r (ch.rolledBack rs) := by
  refine h.drop rfl rfl rfl (hph.signedHtlcs_rolledBack hrs) ?_ ?_
  · intro x hx hq
    have hphase : (ch.signedHtlc x).phaseCounterparty = .notYet := hph.signedPhase_dropped hx hq
    simp [Htlc.onTheirs, hphase]
  · intro m
    have hzero : Htlc.effects (·.phaseCounterparty) ((ch.htlcs.filter fun x =>
        !((ch.rollback x).bind (·.keep)).isSome).map ch.signedHtlc) m = 0 := by
      refine List.sum_eq_zero fun n hn => ?_
      rw [List.map_map] at hn
      obtain ⟨x, hx, rfl⟩ := List.mem_map.1 hn
      obtain ⟨hx, hq⟩ := List.mem_filter.1 hx
      have hphase := hph.signedPhase_dropped hx (by simpa using hq)
      simp [Htlc.effect, signedHtlc, hphase, HtlcPhase.included, HtlcPhase.credited]
    rw [hzero, Int.add_zero]
    rfl

/-- The HTLCs that are dropped do nothing to the balances. -/
theorem Phased.exactSigned_rolledBack (hph : Phased ch) (hrs : ch.htlcs.mapM ch.rollback = some rs)
    (hex : ch.ExactSigned) : (ch.rolledBack rs).ExactSigned := by
  have hfold : (ch.rolledBack rs).signedHtlcs.foldlM
      (fun bal (h : Htlc) => h.applyBalanceExact h.phaseCounterparty bal)
      (ch.toHolderMsat, ch.toCounterpartyMsat) = ch.signedHtlcs.foldlM
      (fun bal (h : Htlc) => h.applyBalanceExact h.phaseCounterparty bal)
      (ch.toHolderMsat, ch.toCounterpartyMsat) := by
    rw [hph.signedHtlcs_rolledBack hrs, signedHtlcs, List.foldlM_map, List.foldlM_map]
    refine List.foldlM_filter_of_skip fun x hx hq bal => ?_
    have hphase := hph.signedPhase_dropped hx hq
    simp [Htlc.applyBalanceExact, signedHtlc, hphase, HtlcPhase.included, HtlcPhase.credited]
  unfold ExactSigned
  exact hfold ▸ hex

end

/-! ## What is signed -/

/-- The commitment in flight covers every update. -/
def Covered (ch : Channel) : Prop := ∀ x ∈ ch.htlcs, ch.signedPhase x = x.phaseCounterparty

theorem covered_sign (point : PublicKey) (b : Built) : Covered (ch.sign point b) := by
  intro x hx
  refine signedPhase_eq (fun hc => ?_) fun hc => ?_ <;>
  exact List.mem_map_of_mem (List.mem_filter.2 ⟨hx, decide_eq_true hc⟩)

theorem Phased.covered_rolledBack (hph : Phased ch) {rs : List Rollback}
    (hrs : ch.htlcs.mapM ch.rollback = some rs) : Covered (ch.rolledBack rs) := by
  intro y hy
  have hlist : (ch.rolledBack rs).htlcs = ch.htlcs.filterMap fun x => (ch.rollback x).bind (·.keep) :=
    List.filterMap_of_mapM hrs
  rw [hlist] at hy
  obtain ⟨x, hx, hxy⟩ := List.mem_filterMap.1 hy
  obtain ⟨k, hk, hkeep⟩ := Option.bind_eq_some_iff.1 hxy
  exact ((hph.rollsBack hx hk).signed.1 y hkeep).2

namespace Covered

/-- The HTLCs of the commitment in flight. -/
theorem filter_signedView (h : Covered ch) {P : HtlcPhase → Bool} (h1 : P .notYet = false)
    (h2 : P .gone = false) : ch.signedView.filter (fun x => P x.phaseCounterparty) =
      (ch.htlcs.filter fun x => P x.phaseCounterparty).map ch.signedHtlc := by
  rw [signedView, signedHtlcs, List.filter_filter, List.filter_map]
  refine congrArg (List.map _) (List.filter_congr fun x hx => ?_)
  have hphase : (ch.signedHtlc x).phaseCounterparty = x.phaseCounterparty := h x hx
  simp only [Function.comp_apply, Htlc.onTheirs, hphase]
  cases hc : x.phaseCounterparty <;> simp [h1, h2]

theorem commitmentHtlcs_eq (h : Covered ch) : ch.commitmentHtlcs false =
    (ch.signedView.filter fun x => x.phaseCounterparty.included).map (·.inCommitment false) := by
  rw [h.filter_signedView rfl rfl, List.map_map]
  rfl

/-- The balances are those of the commitment in flight. -/
theorem balance_eq (h : Covered ch) (hex : ch.ExactSigned) (m : Bool) :
    (ch.balance false m : Int) = ch.signedFunds m := by
  obtain ⟨bal, hbal⟩ := Option.isSome_iff_exists.1 hex
  obtain ⟨hfold, h1, h2⟩ := Htlc.foldlM_eq_some (·.phaseCounterparty) hbal
  have hsame : ch.balancesFor false = bal := by
    rw [hfold, signedHtlcs, List.foldl_map]
    refine List.foldl_ext _ _ _ fun acc x hx => ?_
    have hphase : (ch.signedHtlc x).phaseCounterparty = x.phaseCounterparty := h x hx
    rw [hphase]
    show x.applyBalance x.phaseCounterparty acc = _
    unfold Htlc.applyBalance
    simp only [signedHtlc, h x hx]
    cases x.phaseCounterparty <;> rfl
  unfold balance
  rw [hsame]
  cases m
  · exact h2
  · exact h1

end Covered

/-- Two channels that cover the same have the same commitment to sign, the feerate apart. -/
theorem Preserves.nextContent_eq (h : Preserves r ch) (hr : Covered r) (hc : Covered ch)
    (hxr : r.ExactSigned) (hxc : ch.ExactSigned)
    (hfee : ch.feerateCounterparty = r.feerateCounterparty) : ch.nextContent = r.nextContent := by
  have hbal : ∀ m, ch.balance false m = r.balance false m := by
    intro m
    have hint := (hc.balance_eq hxc m).trans ((h.funds m).trans (hr.balance_eq hxr m).symm)
    exact_mod_cast hint
  have hpair : ch.balancesFor false = r.balancesFor false := Prod.ext (hbal true) (hbal false)
  simp only [nextContent, hfee, hpair, hc.commitmentHtlcs_eq, hr.commitmentHtlcs_eq, h.view]

section
variable {number : Nat} {point : PublicKey} {b : Built}

theorem buildCounterpartyCommitmentAt_congr (ht : ch'.terms = ch.terms)
    (hn : ch'.nextContent = ch.nextContent) : ch'.buildCounterpartyCommitmentAt C number point =
      ch.buildCounterpartyCommitmentAt C number point := by
  simp only [terms, Terms.mk.injEq] at ht
  simp only [nextContent, Content.mk.injEq] at hn
  simp only [buildCounterpartyCommitmentAt, counterparty, counterpartyParams, ht, hn]

theorem signCounterpartyCommitmentTx_congr (ht : ch'.terms = ch.terms) (built : BuiltCommitmentTx) :
    ch'.signCounterpartyCommitmentTx C built = ch.signCounterpartyCommitmentTx C built := by
  simp only [terms, Terms.mk.injEq] at ht
  simp only [signCounterpartyCommitmentTx, fundingSighash, counterparty, ht]

theorem signHtlcs_congr (ht : ch'.terms = ch.terms) (hn : ch'.nextContent = ch.nextContent) :
    ch'.signHtlcs C b point = ch.signHtlcs C b point := by
  simp only [terms, Terms.mk.injEq] at ht
  simp only [nextContent, Content.mk.injEq] at hn
  simp only [signHtlcs, ht, hn]

end

/-- The message of an add of ours. -/
def addMessage (ch : Channel) (h : Htlc) : Wire.Message :=
  .updateAddHtlc ⟨ch.channelId, h.id, h.amountMsat, h.paymentHash, h.cltvExpiry, h.onion⟩

/-- Our own updates that a commitment signed now covers: adds, removals, the fee. -/
def ownUpdates (ch : Channel) : List Wire.Message :=
  ((ch.htlcs.filter fun h => h.phaseCounterparty = .pending).filter (·.outbound)).map
      ch.addMessage ++
    ((ch.htlcs.filter fun h => h.phaseCounterparty = .removing).filter (!·.outbound)).filterMap
      ch.removalMessage ++
    (ch.feeUpdate.map fun fee => Wire.Message.updateFee ⟨ch.channelId, fee⟩).toList

/-- The HTLCs of one direction that a snapshot names. -/
theorem IdsUnique.filterMap_find (h : IdsUnique ch) (p : HtlcPhase) (o : Bool → Bool) :
    ((ch.keysInPhase p).filter fun k => o k.1).filterMap ch.findHtlc =
      (ch.htlcs.filter fun x => x.phaseCounterparty = p).filter fun x => o x.outbound := by
  have hfind : ∀ l : List Htlc, (∀ x ∈ l, x ∈ ch.htlcs) → (l.map Htlc.key).filterMap ch.findHtlc = l := by
    intro l hl
    induction l with
    | nil => rfl
    | cons x l ih =>
      rw [List.map_cons, List.filterMap_cons, h.found x (hl x List.mem_cons_self),
        ih fun y hy => hl y (List.mem_cons_of_mem _ hy)]
  rw [keysInPhase, List.filter_map]
  exact hfind _ fun x hx => (List.mem_filter.1 (List.mem_filter.1 hx).1).1

/-- The updates sent again, for a snapshot of what is pending and leaving now. -/
theorem Numbered.coveredUpdates_eq (h : Numbered ch) {pending : PendingCounterpartyCommitment}
    (hinc : pending.included = ch.keysInPhase .pending)
    (hrem : pending.removed = ch.keysInPhase .removing) : ch.coveredUpdates pending =
    ((ch.htlcs.filter fun h => h.phaseCounterparty = .pending).filter (·.outbound)).map
        ch.addMessage ++
      ((ch.htlcs.filter fun h => h.phaseCounterparty = .removing).filter (!·.outbound)).filterMap
        ch.removalMessage ++
      (pending.feeUpdate.map fun fee => Wire.Message.updateFee ⟨ch.channelId, fee⟩).toList := by
  have hu := h.idsUnique
  have hsorted : ((ch.htlcs.filter fun h => h.phaseCounterparty = .pending).filter
      (·.outbound)).Pairwise fun a b => a.id ≤ b.id := by
    have hord := (List.pairwise_map.1 h.order).sublist
      (List.filter_sublist.trans List.filter_sublist : List.Sublist
        ((ch.htlcs.filter fun h => h.phaseCounterparty = .pending).filter (·.outbound)) ch.htlcs)
    refine hord.imp_of_mem fun {a b} ha hb hab => ?_
    have hao := (List.mem_filter.1 ha).2
    have hbo := (List.mem_filter.1 hb).2
    exact Nat.le_of_lt (hab (hao.trans hbo.symm)).1
  have hadds : ((ch.keysInPhase .pending).filter (·.1)).filterMap ch.findHtlc = _ :=
    hu.filterMap_find .pending id
  simp only [coveredUpdates, hinc, hrem]
  rw [hadds, hu.filterMap_find .removing (!·)]
  erw [List.Pairwise.insertionSort_eq hsorted]
  rfl

namespace Covered

theorem keysInPhase_eq (h : Covered ch) {p : HtlcPhase} (h1 : p ≠ .notYet) (h2 : p ≠ .gone) :
    ch.keysInPhase p = (ch.signedView.filter fun x => x.phaseCounterparty = p).map Htlc.key := by
  rw [h.filter_signedView (P := fun q => q = p) (by simp [h1.symm]) (by simp [h2.symm]), List.map_map]
  rfl

theorem adds_eq (h : Covered ch) :
    ((ch.htlcs.filter fun x => x.phaseCounterparty = .pending).filter (·.outbound)).map ch.addMessage =
      ((ch.signedView.filter fun x => x.phaseCounterparty = .pending).filter (·.outbound)).map
        ch.addMessage := by
  rw [h.filter_signedView (P := fun q => q = .pending) rfl rfl, List.filter_map, List.map_map]
  rfl

theorem removals_eq (h : Covered ch) :
    ((ch.htlcs.filter fun x => x.phaseCounterparty = .removing).filter (!·.outbound)).filterMap
        ch.removalMessage =
      ((ch.signedView.filter fun x => x.phaseCounterparty = .removing).filter
        (!·.outbound)).filterMap ch.removalMessage := by
  rw [h.filter_signedView (P := fun q => q = .removing) rfl rfl, List.filter_map, List.filterMap_map]
  refine List.filterMap_congr fun x hx => ?_
  obtain ⟨hx, hph⟩ := List.mem_filter.1 (List.mem_filter.1 hx).1
  have hphase : ch.signedPhase x = .removing := (h x hx).trans (of_decide_eq_true hph)
  simp [removalMessage, signedHtlc, hphase, HtlcPhase.credited]

end Covered

/-- What is sent again is what was covered. -/
theorem Preserves.coveredUpdates_eq (h : Preserves r ch) (hr : Covered r) (hc : Covered ch)
    (hn : Numbered ch) {pending : PendingCounterpartyCommitment}
    (hp : ch.pendingCounterpartyCommitment = some pending) (hfee : pending.feeUpdate = r.feeUpdate) :
    ch.coveredUpdates pending = r.ownUpdates := by
  have hid : ch.channelId = r.channelId := congrArg Terms.channelId h.terms
  have hadd : ch.addMessage = r.addMessage := by
    funext x
    simp only [addMessage, hid]
  have hrem : ch.removalMessage = r.removalMessage := by
    funext x
    simp only [removalMessage, hid]
  have hinc : pending.included = ch.keysInPhase .pending := by
    rw [hc.keysInPhase_eq (p := .pending) nofun nofun, ← h.included, snapshotIncluded, hp]
    rfl
  have hout : pending.removed = ch.keysInPhase .removing := by
    rw [hc.keysInPhase_eq (p := .removing) nofun nofun, ← h.removed, snapshotRemoved, hp]
    rfl
  rw [hn.coveredUpdates_eq hinc hout, ownUpdates, hc.adds_eq, hc.removals_eq, hr.adds_eq,
    hr.removals_eq, h.view, hadd, hrem, hid, hfee]

theorem Preserves.sign (point : PublicKey) (b : Built) :
    Preserves (ch.sign point b) (ch.sign point b) where
  awaiting := rfl
  pending := rfl
  terms := rfl
  view := rfl
  funds _ := rfl
  included := (covered_sign point b).keysInPhase_eq (p := .pending) nofun nofun
  removed := (covered_sign point b).keysInPhase_eq (p := .removing) nofun nofun

/-! ## Runs -/

/-- The `commitment_signed` a call returns. -/
def Input.signedBy : (i : Input) → i.Outcome → Option Wire.CommitmentSigned
  | .sendCommitmentSigned, m => some m
  | .revokeAndAck _, o => RaaOutcome.commitmentSigned o
  | _, _ => none

/-- One step: the `commitment_signed` to send. -/
def signing (C : Crypto) (i : Input) : ChannelAct (Option Wire.CommitmentSigned) :=
  i.signedBy <$> perform C i

/-- The last `commitment_signed` of a run. -/
def lastSigned (tr : Trace Input ChannelError (Option Wire.CommitmentSigned)) :
    Option Wire.CommitmentSigned :=
  (tr.filterMap fun x => x.2.toOption.join).getLast?

/-- With a commitment in flight no balance saturates, and a disconnect forgets the newest of the
peer's HTLCs. -/
def Orderly (ch : Channel) (i : Input) : Prop :=
  (ch.awaitingRaa = true → ch.ExactSigned ∧ ch.CollectsExactly) ∧
    (i.disconnects = true → ch.ForgetsNewest)

instance (i : Input) : Decidable (ch.Orderly i) := inferInstanceAs (Decidable (_ ∧ _))

/-- The last `commitment_signed` is that of the commitment in flight. -/
def InTransit (C : Crypto) (tr : Trace Input ChannelError (Option Wire.CommitmentSigned))
    (ch : Channel) : Prop :=
  ch.awaitingRaa = true → ∃ chₛ m point b, lastSigned tr = some m ∧ Signs C chₛ m point b ∧
    Preserves (chₛ.sign point b) ch ∧
    ((chₛ.sign point b).ExactSigned ∨ ch.htlcs = chₛ.htlcs ∧ ∀ s, ch.base s = chₛ.base s)

section
variable {tr tr' : Trace Input ChannelError (Option Wire.CommitmentSigned)}

theorem exactSigned_congr (hp : ch'.pendingCounterpartyCommitment = ch.pendingCounterpartyCommitment)
    (hs : ch'.htlcs = ch.htlcs) (hb : ∀ s, ch'.base s = ch.base s) (h : ch'.ExactSigned) :
    ch.ExactSigned := by
  have h1 : ch'.toHolderMsat = ch.toHolderMsat := hb true
  have h2 : ch'.toCounterpartyMsat = ch.toCounterpartyMsat := hb false
  unfold ExactSigned at h ⊢
  rw [signedHtlcs_eq hp, hs, h1, h2] at h
  exact h

/-- A step that signs nothing and leaves the commitment in flight as it is. -/
theorem InTransit.keep (h : InTransit C tr ch) (hlast : lastSigned tr' = lastSigned tr)
    (hex : ch.awaitingRaa = true → ch.ExactSigned)
    (ha : ch'.awaitingRaa = true → ch.awaitingRaa = true)
    (hpres : ∀ r, Preserves r ch → Preserves r ch') : InTransit C tr' ch' := by
  intro ha'
  obtain ⟨chₛ, m, point, b, hm, hs, hp, hx⟩ := h (ha ha')
  refine ⟨chₛ, m, point, b, hlast.trans hm, hs, hpres _ hp, .inl ?_⟩
  rcases hx with hx | ⟨hhs, hb⟩
  · exact hx
  · show (chₛ.sign point b).ExactSigned
    exact exactSigned_congr hp.pending hhs hb (hex (ha ha'))

theorem Quiet.preserves (hm : Quiet C ch ch') (hdor : Dormant ch) (h : Preserves r ch) :
    Preserves r ch' := by
  obtain ⟨hm, hq⟩ := hm
  have hrank : ch.state.rank ≤ 2 → False := by
    intro hr
    obtain ⟨hn, hs⟩ := dormant_of_rank (.inl hr)
    cases h.awaiting.symm.trans (hdor hn hs).2.2
  cases hm with
  | negotiate msg hc =>
    simp only [checkAcceptChannel, Fault.bind_eq_ok, Fault.require_eq_ok] at hc
    obtain ⟨_, hst, -⟩ := hc
    exact absurd (by rw [hst]; decide) hrank
  | bind f hst => exact absurd (by rw [hst]; decide) hrank
  | nextPoint _ _ _ ha | offer _ _ _ _ _ _ ha | resolveInbound _ _ _ ha | fee _ ha | sign _ _ ha =>
    cases h.awaiting.symm.trans ha
  | receive msg => exact h.receive msg
  | resolveOutbound id res x hx => exact h.resolveOutbound hx res
  | revoke =>
    have hone : ch.counterpartyCommitmentNumber + 1 = ch.counterpartyCommitmentNumber :=
      congrArg (·.2.1) hq
    omega
  | storeInitial | signInitial | admin | park | receiveFee =>
    exact h.same rfl rfl rfl rfl fun _ => rfl

theorem QuietMoves.preserves (hm : QuietMoves C ch ch') (hdor : Dormant ch) (h : Preserves r ch) :
    Preserves r ch' :=
  (hm.invariant (I := fun ch => Dormant ch ∧ Preserves r ch)
    (fun _ _ hm h => ⟨hm.1.dormant h.1, hm.preserves h.1 h.2⟩) ⟨hdor, h⟩).2

theorem QuietMoves.taken_eq (hm : QuietMoves C ch ch') : ch'.taken = ch.taken :=
  hm.invariant (I := fun c => c.taken = ch.taken) (fun _ _ hm h => hm.2.trans h) (Eq.refl _)

theorem InTransit.quiet (h : InTransit C tr ch) (hm : QuietMoves C ch ch') (hdor : Dormant ch)
    (hex : ch.awaitingRaa = true → ch.ExactSigned) (hlast : lastSigned tr' = lastSigned tr) :
    InTransit C tr' ch' := by
  refine h.keep hlast hex (fun ha => ?_) fun r hp => hm.preserves hdor hp
  have heq : ch'.awaitingRaa = ch.awaitingRaa := congrArg (·.2.2) hm.taken_eq
  exact heq ▸ ha

theorem signedBy_of_quiet {i : Input} (hq : i.Quiet) (o : i.Outcome) : i.signedBy o = none := by
  cases i <;> first | rfl | exact hq.elim

theorem lastSigned_none (i : Input) : lastSigned (tr ++ [(i, .ok none)]) = lastSigned tr := by
  simp [lastSigned, Except.toOption]

theorem lastSigned_error (i : Input) (e : ChannelError) :
    lastSigned (tr ++ [(i, .error e)]) = lastSigned tr := by
  simp [lastSigned, Except.toOption]

theorem lastSigned_some (i : Input) (m : Wire.CommitmentSigned) :
    lastSigned (tr ++ [(i, .ok (some m))]) = some m := by
  simp [lastSigned, Except.toOption]

theorem InTransit.calls (h : InTransit C tr ch) (huse : InUse ch) (hph : Phased ch) (hn : Numbered ch)
    {i : Input} {o : i.Outcome} (hA : Orderly ch i) (hc : Calls C ch i o ch') :
    InTransit C (tr ++ [(i, .ok (i.signedBy o))]) ch' := by
  have hex : ch.awaitingRaa = true → ch.ExactSigned := fun ha => (hA.1 ha).1
  cases hc with
  | quiet hq hm =>
    rw [signedBy_of_quiet hq o]
    exact h.quiet hm huse.dormant hex (lastSigned_none i)
  | received msg => exact h.keep (lastSigned_none _) hex (fun ha => ha) fun r hp => hp.receive msg
  | signed hs => exact fun _ => ⟨ch, _, _, _, lastSigned_some _ _, hs, .sign _ _, .inr ⟨rfl, fun _ => rfl⟩⟩
  | accepted msg m b =>
    intro ha
    refine h.keep (lastSigned_none _) hex (fun ha => ha) (fun r hp => ?_) ha
    exact hp.accept hph hn.idsUnique.distinct (hA.1 ha).2 _ b msg
  | revoked msg o pending secrets ha hp hm hs =>
    intro ha'
    have hidle : _ = false := congrArg (·.2.2) hm.taken_eq
    cases hcs : o.commitmentSigned with
    | none =>
      rw [hcs] at hs
      cases hs
      cases ha'.symm.trans hidle
    | some m =>
      rw [hcs] at hs
      cases hs with
      | some hs =>
        refine ⟨_, m, _, _, ?_, hs, .sign _ _, .inr ⟨rfl, fun _ => rfl⟩⟩
        rw [show Input.signedBy (.revokeAndAck msg) o = some m from hcs]
        exact lastSigned_some _ _
  | lost rs hrs =>
    exact h.keep (lastSigned_none _) hex (fun ha => ha) fun r hp => hp.rolledBack hph hrs

theorem inTransit_of_run (h₀ : Fresh C ch₀) (hr : Run.Within (signing C) Orderly ch₀ tr ch) :
    InTransit C tr ch ∧ InUse ch ∧ Phased ch ∧ Numbered ch := by
  have hinv : ∀ {tr ch}, Run.Within (signing C) Orderly ch₀ tr ch →
      InUse ch ∧ Phased ch ∧ Numbered ch := by
    intro tr ch hr
    obtain ⟨tr', hr'⟩ := Run.Within.relabel (p := perform C) (a := Input.signedBy)
      (b := Input.toSend) (B := fun ch i => i.disconnects = true → ch.ForgetsNewest)
      (fun _ _ hA => hA.2) hr
    exact ⟨inUse_of_run h₀ hr'.run, phased_of_run h₀ hr'.run, numbered_of_run h₀ hr'⟩
  refine ⟨?_, hinv hr⟩
  induction hr with
  | nil => exact fun ha => nomatch h₀.initial.awaiting.symm.trans ha
  | @ok tr ch ch' i a hr hA hf ih =>
    obtain ⟨huse, hph, hn⟩ := hinv hr
    obtain ⟨o, ho, rfl⟩ := Act.map_eq_ok.1 hf
    exact ih.calls huse hph hn hA (Act.wp_ok (perform_calls huse i) ho)
  | @err tr ch ch' i e hr hA hf ih =>
    obtain ⟨huse, hph, hn⟩ := hinv hr
    have hm := Act.wp_error (perform_calls huse i) (Act.map_eq_error.1 hf) e rfl
    exact ih.quiet hm huse.dormant (fun ha => (hA.1 ha).1) (lastSigned_error i e)

/-- `ch'`, which has lost the connection, sends the commitment in flight of `ch` again: it is the one
that `chₛ` signed with `m`, and what is sent is `m` after our own updates that it covers. -/
structure Reproduces (C : Crypto) (chₛ : Channel) (m : Wire.CommitmentSigned) (ch ch' : Channel) :
    Prop where
  signed : ∃ point b pending, Signs C chₛ m point b ∧
    ch.pendingCounterpartyCommitment = some pending ∧
    (chₛ.sign point b).pendingCounterpartyCommitment = some pending ∧
    ch'.buildCounterpartyCommitmentAt C (ch'.counterpartyCommitmentNumber + 1) point = .ok b ∧
    ch'.signCounterpartyCommitmentTx C b.built = .ok m.signature ∧
    b.built.txid = pending.info.txid
  resent : ch'.retransmitCommitment C = .ok (chₛ.ownUpdates ++ [.commitmentSigned m])
  reestablished : ∀ msg actions, ch'.onChannelReestablish C msg = .ok actions →
    msg.nextCommitmentNumber = ch'.ourLastSent → actions.dataLossDetected = false →
    ∃ before, actions.messages = before ++ (chₛ.ownUpdates ++ [.commitmentSigned m]) ∧
      ∀ x ∈ before, (∃ raa, x = .revokeAndAck raa) ∨ ∃ ready, x = .channelReady ready

/-- Where the peer asks for the commitment in flight. -/
theorem onChannelReestablish_resent (ha : ch.awaitingRaa = true) {resent : List Wire.Message}
    (hre : ch.retransmitCommitment C = .ok resent) {msg : Wire.ChannelReestablish}
    {actions : ReestablishActions} (hok : ch.onChannelReestablish C msg = .ok actions)
    (hnum : msg.nextCommitmentNumber = ch.ourLastSent) (hloss : actions.dataLossDetected = false) :
    ∃ before, actions.messages = before ++ resent ∧
      ∀ x ∈ before, (∃ raa, x = .revokeAndAck raa) ∨ ∃ ready, x = .channelReady ready := by
  have hcommit : ∀ messages, ch.reestablishCommitment C msg messages = .ok actions →
      ∃ ready, actions.messages = ready ++ messages ++ resent ∧
        ∀ x ∈ ready, ∃ r, x = Wire.Message.channelReady r := by
    intro messages hok
    simp only [reestablishCommitment, Fault.bind_eq_ok, hnum, ha, true_and, if_true, hre,
      Except.ok.injEq, pure, Except.pure] at hok
    obtain ⟨_, -, _, rfl, rfl⟩ := hok
    unfold withChannelReady
    split
    · exact ⟨[.channelReady ⟨ch.channelId, ch.signer.perCommitmentPoint 1, none⟩], by simp,
        fun x hx => ⟨_, List.mem_singleton.1 hx⟩⟩
    · exact ⟨[], by simp, fun _ h => by cases h⟩
  unfold onChannelReestablish at hok
  simp only at hok
  split at hok
  · obtain ⟨ready, hm, hready⟩ := hcommit _ hok
    refine ⟨ready ++ [_], by simpa using hm, fun x hx => ?_⟩
    rcases List.mem_append.1 hx with hx | hx
    · exact .inr (hready x hx)
    · exact .inl ⟨_, List.mem_singleton.1 hx⟩
  · split at hok
    · obtain rfl := Except.ok.inj hok
      cases hloss
    · split at hok
      · cases hok
      · obtain ⟨ready, hm, hready⟩ := hcommit _ hok
        exact ⟨ready, by simpa using hm, fun x hx => .inr (hready x hx)⟩

/-- As long as no balance saturates and every disconnect forgets the newest of the peer's HTLCs, a
commitment in flight whose feerate is still the channel's is sent again as it was: the same
transaction, the same signatures, our own updates that it covers. -/
theorem retransmits_lost_commitment (h₀ : Fresh C ch₀)
    (hr : Run.Within (signing C) Orderly ch₀ tr ch) (ha : ch.awaitingRaa = true)
    (hA : Orderly ch .disconnect)
    (hfee : ∀ pending, ch.pendingCounterpartyCommitment = some pending →
      pending.info.feerate = ch.feerateCounterparty) :
    ∃ m chₛ ch', lastSigned tr = some m ∧ onDisconnect ch = .ok () ch' ∧
      Reproduces C chₛ m ch ch' := by
  obtain ⟨hfl, -, hph, hn⟩ := inTransit_of_run h₀ hr
  obtain ⟨chₛ, m, point, b, hm, hs, hp, hx⟩ := hfl ha
  obtain ⟨rs, hrs, -⟩ := hph.rollbacks
  obtain ⟨pending, hpend, htxid, hrate, hupdate⟩ : ∃ pending,
      (chₛ.sign point b).pendingCounterpartyCommitment = some pending ∧
      b.built.txid = pending.info.txid ∧ pending.info.feerate = chₛ.feerateCounterparty ∧
      pending.feeUpdate = chₛ.feeUpdate := ⟨_, rfl, rfl, rfl, rfl⟩
  have hex := (hA.1 ha).1
  have hexr : (chₛ.sign point b).ExactSigned := by
    rcases hx with hx | ⟨hhs, hb⟩
    · exact hx
    · show (chₛ.sign point b).ExactSigned
      exact exactSigned_congr hp.pending hhs hb hex
  have hp' := hp.rolledBack hph hrs
  have hcov := hph.covered_rolledBack hrs
  have hnext : (ch.rolledBack rs).nextContent = chₛ.nextContent :=
    hp'.nextContent_eq (covered_sign point b) hcov hexr (hph.exactSigned_rolledBack hrs hex)
      ((hfee pending (hp.pending.trans hpend)).symm.trans hrate)
  have ht : (ch.rolledBack rs).terms = chₛ.terms := hp'.terms
  have hnum : (ch.rolledBack rs).counterpartyCommitmentNumber = chₛ.counterpartyCommitmentNumber :=
    congrArg Terms.counterpartyCommitmentNumber ht
  have hbuilt : (ch.rolledBack rs).buildCounterpartyCommitmentAt C
      ((ch.rolledBack rs).counterpartyCommitmentNumber + 1) point = .ok b := by
    rw [hnum, buildCounterpartyCommitmentAt_congr ht hnext]
    exact hs.built
  have hsig : (ch.rolledBack rs).signCounterpartyCommitmentTx C b.built = .ok m.signature :=
    (signCounterpartyCommitmentTx_congr ht _).trans hs.signature
  have hresent : (ch.rolledBack rs).retransmitCommitment C =
      .ok (chₛ.ownUpdates ++ [.commitmentSigned m]) := by
    have hnumbered := hn.rolledBack hph hrs (hA.2 rfl)
    have hupd : (ch.rolledBack rs).coveredUpdates pending = chₛ.ownUpdates :=
      hp'.coveredUpdates_eq (covered_sign point b) hcov hnumbered (hp'.pending.trans hpend) hupdate
    have hpoint : (ch.rolledBack rs).counterpartyNextPoint = some point :=
      (congrArg Terms.counterpartyNextPoint ht).trans hs.next
    have hsigs : (ch.rolledBack rs).signHtlcs C b point = some m.htlcSignatures :=
      (signHtlcs_congr ht hnext).trans hs.htlcSignatures
    have hid : (ch.rolledBack rs).channelId = m.channelId :=
      (congrArg Terms.channelId ht).trans hs.channelId.symm
    simp only [retransmitCommitment, hp'.pending.trans hpend, hpoint, hbuilt, hsig, hsigs, hupd, hid,
      Fault.expect, Fault.okOr, pure, Except.pure, bind, Except.bind]
  refine ⟨m, chₛ, ch.rolledBack rs, hm, onDisconnect_ok hrs, ?_, hresent, ?_⟩
  · exact ⟨point, b, pending, hs, hp.pending.trans hpend, hpend, hbuilt, hsig, htxid⟩
  · intro msg actions hok hnum hloss
    have ha' : (ch.rolledBack rs).awaitingRaa = true := ha
    exact onChannelReestablish_resent ha' hresent hok hnum hloss

end

/-- The accepter has signed; a second add of the opener, signed and acknowledged, crosses it. -/
theorem retransmits_lost_commitment_bob :
    ∃ tr ch m chₛ ch', Run.Within (signing Demo.C) Orderly Demo.bob.1 tr ch ∧
      ch.htlcs.map (·.phaseCounterparty) = [.pending, .pending] ∧ lastSigned tr = some m ∧
      onDisconnect ch = .ok () ch' ∧ Reproduces Demo.C chₛ m ch ch' := by
  obtain ⟨tr, ch, hr, hph, ha, hA, hfee⟩ := Run.Within.exists_of_exec (f := signing Demo.C)
    (A := Orderly) (s := Demo.bob.1)
    (Pair.inputs Demo.C .b Demo.start (Demo.handshake ++ Demo.payment.take 5 ++ [.deliver .a,
      .command .a (.sendAddHtlc 4000000 (paymentHash Demo.C (Demo.bytes 4)) 100 []
        (.outbound (Demo.bytes 1))), .command .a .sendCommitmentSigned, .deliver .b, .deliver .b]))
    (fun ch => ch.htlcs.map (·.phaseCounterparty) = [.pending, .pending] ∧ ch.awaitingRaa = true ∧
      Orderly ch .disconnect ∧ ch.pendingCounterpartyCommitment.all fun pending =>
        pending.info.feerate = ch.feerateCounterparty) (by
      rw [Demo.bob_tabled, Demo.start_tabled]
      decide +kernel)
  obtain ⟨m, chₛ, ch', hm, hdis, hrep⟩ := retransmits_lost_commitment Demo.bob_fresh hr ha hA
    fun pending hp => by simpa [hp] using hfee
  exact ⟨tr, ch, m, chₛ, ch', hr, hph, hm, hdis, hrep⟩

/-- An `update_fee` of the opener, signed and acknowledged, crosses the accepter's commitment: after a
disconnect the accepter builds another one, at the new feerate. -/
theorem crossing_fee_resigned :
    ∃ tr ch m ch', Run (signing Demo.C) Demo.bob.1 tr ch ∧ ch.awaitingRaa = true ∧
      lastSigned tr = some m ∧ onDisconnect ch = .ok () ch' ∧
      ∀ chₛ, ¬ Reproduces Demo.C chₛ m ch ch' := by
  have hany : ((Run.exec (signing Demo.C) Demo.bob.1 (Pair.inputs Demo.C .b Demo.start
      (Demo.handshake ++ Demo.payment.take 5 ++ [.deliver .a, .command .a (.sendUpdateFee 2000),
        .command .a .sendCommitmentSigned, .deliver .b, .deliver .b]))).any fun r =>
      r.2.awaitingRaa = true ∧ (lastSigned r.1).isSome = true ∧
      Act.wp onDisconnect r.2 (fun _ ch' => (r.2.pendingCounterpartyCommitment.all fun pending =>
        (ch'.buildCounterpartyCommitmentAt Demo.C (ch'.counterpartyCommitmentNumber + 1)
          pending.info.perCommitmentPoint).toOption.all fun b =>
            b.built.txid ≠ pending.info.txid) = true) fun _ _ => False) = true := by
    rw [Demo.bob_tabled, Demo.start_tabled]
    decide +kernel
  obtain ⟨⟨tr, ch⟩, hexec, hp⟩ := (Option.any_eq_true _ _).1 hany
  obtain ⟨ha, hm, hdis⟩ := of_decide_eq_true hp
  obtain ⟨m, hm⟩ := Option.isSome_iff_exists.1 hm
  obtain ⟨_, ch', hdis, htxid⟩ := Act.wp_total hdis
  refine ⟨tr, ch, m, ch', Run.of_exec hexec, ha, hm, hdis, fun chₛ hrep => ?_⟩
  obtain ⟨point, b, pending, -, hpend, hsnap, hb, -, heq⟩ := hrep.signed
  have hpoint : pending.info.perCommitmentPoint = point := by
    cases hsnap
    rfl
  rw [hpend, Option.all_some, hpoint, hb] at htxid
  exact absurd heq (by simpa [Except.toOption] using htxid)

end Channel
