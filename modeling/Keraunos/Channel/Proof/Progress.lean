import Keraunos.Channel.Proof.Updates

/-!
# HTLCs only move forward

While the connection lasts, an HTLC keeps its direction and its amount, and its phases never go back;
its resolution is set once, before it leaves a commitment (`Htlc.Later`). The handlers that lock in a
commitment set none (`Htlc.Advances`).
-/

open Bitcoin

/-- The order of the phases. -/
def HtlcPhase.rank : HtlcPhase → Nat
  | .notYet => 0
  | .pending => 1
  | .committed => 2
  | .removing => 3
  | .gone => 4

theorem HtlcPhase.credited_iff (p : HtlcPhase) : p.credited = true ↔ 3 ≤ p.rank := by
  cases p <;> decide

theorem HtlcPhase.included_iff (p : HtlcPhase) : p.included = true ↔ 1 ≤ p.rank ∧ p.rank ≤ 2 := by
  cases p <;> decide

namespace Htlc

/-- `h'` is the HTLC `h` at a later time. -/
structure Later (h h' : Htlc) : Prop where
  outbound : h'.outbound = h.outbound
  amountMsat : h'.amountMsat = h.amountMsat
  phase : ∀ side, (h.phase side).rank ≤ (h'.phase side).rank
  resolution : ∀ side, (h.phase side).credited = true → h'.resolution = h.resolution

/-- The same, without a resolution in between. -/
structure Advances (h h' : Htlc) : Prop where
  outbound : h'.outbound = h.outbound
  amountMsat : h'.amountMsat = h.amountMsat
  phase : ∀ side, (h.phase side).rank ≤ (h'.phase side).rank
  resolution : h'.resolution = h.resolution

variable {h h' h'' : Htlc}

theorem Later.refl (h : Htlc) : Later h h := ⟨rfl, rfl, fun _ => Nat.le_refl _, fun _ _ => rfl⟩

theorem Advances.refl (h : Htlc) : Advances h h := ⟨rfl, rfl, fun _ => Nat.le_refl _, rfl⟩

theorem Advances.trans (a : Advances h h') (b : Advances h' h'') : Advances h h'' where
  outbound := b.outbound.trans a.outbound
  amountMsat := b.amountMsat.trans a.amountMsat
  phase side := Nat.le_trans (a.phase side) (b.phase side)
  resolution := b.resolution.trans a.resolution

theorem Advances.later (a : Advances h h') : Later h h' :=
  ⟨a.outbound, a.amountMsat, a.phase, fun _ _ => a.resolution⟩

/-- A change of phases alone. -/
theorem advances_phases {p q : HtlcPhase} (hp : h.phaseHolder.rank ≤ p.rank)
    (hq : h.phaseCounterparty.rank ≤ q.rank) :
    Advances h { h with phaseHolder := p, phaseCounterparty := q } := by
  refine ⟨rfl, rfl, fun side => ?_, rfl⟩
  cases side
  · exact hq
  · exact hp

theorem advances_lockHolder (h : Htlc) : Advances h h.lockHolder := by
  unfold lockHolder
  split
  · next hp => exact advances_phases (by simp [hp, HtlcPhase.rank]) (Nat.le_refl _)
  · next hp => exact advances_phases (by simp [hp, HtlcPhase.rank]) (Nat.le_refl _)
  · exact .refl h

theorem advances_acknowledge (h : Htlc) : Advances h h.acknowledge := by
  unfold acknowledge
  split
  · next ha =>
    simp only [acksAdd, Bool.and_eq_true, decide_eq_true_eq] at ha
    exact advances_phases (Nat.le_refl _) (by simp [ha.1.2, HtlcPhase.rank])
  · split
    · next ha =>
      simp only [acksRemoval, Bool.and_eq_true, decide_eq_true_eq] at ha
      exact advances_phases (Nat.le_refl _) (by simp [ha.2, HtlcPhase.rank])
    · exact .refl h

theorem advances_lockIncluded (h : Htlc) : Advances h h.lockIncluded := by
  have hfirst : Advances h
      (if h.phaseCounterparty = .pending then { h with phaseCounterparty := .committed } else h) := by
    split
    · next hp => exact advances_phases (Nat.le_refl _) (by simp [hp, HtlcPhase.rank])
    · exact .refl h
  refine hfirst.trans ?_
  unfold lockIncluded
  generalize (if h.phaseCounterparty = .pending then { h with phaseCounterparty := .committed }
    else h) = x
  dsimp only
  split
  · next hx => exact advances_phases (by simp [hx.2, HtlcPhase.rank]) (Nat.le_refl _)
  · exact .refl x

theorem advances_lockRemoved (h : Htlc) : Advances h h.lockRemoved := by
  have hfirst : Advances h
      (if h.phaseCounterparty = .removing then { h with phaseCounterparty := .gone } else h) := by
    split
    · next hp => exact advances_phases (Nat.le_refl _) (by simp [hp, HtlcPhase.rank])
    · exact .refl h
  refine hfirst.trans ?_
  unfold lockRemoved
  generalize (if h.phaseCounterparty = .removing then { h with phaseCounterparty := .gone }
    else h) = x
  dsimp only
  split
  · next hx => exact advances_phases (by simp [hx.2, HtlcPhase.rank]) (Nat.le_refl _)
  · exact .refl x

theorem advances_process (h : Htlc) : Advances h h.process := by
  unfold process
  split
  · exact ⟨rfl, rfl, fun side => by cases side <;> exact Nat.le_refl _, rfl⟩
  · exact .refl h

/-- The resolution of an HTLC that is committed on both sides, as it leaves a commitment. -/
theorem later_resolve {p q : HtlcPhase} (r : HtlcResolution) (hh : h.phaseHolder = .committed)
    (hc : h.phaseCounterparty = .committed) (hp : 2 ≤ p.rank) (hq : 2 ≤ q.rank) :
    Later h { h with resolution := some r, phaseHolder := p, phaseCounterparty := q } := by
  refine ⟨rfl, rfl, fun side => ?_, fun side hs => ?_⟩
  · cases side
    · show h.phaseCounterparty.rank ≤ q.rank
      rw [hc]
      exact hq
    · show h.phaseHolder.rank ≤ p.rank
      rw [hh]
      exact hp
  · cases side
    · cases (congrArg HtlcPhase.credited hc).symm.trans hs
    · cases (congrArg HtlcPhase.credited hh).symm.trans hs

end Htlc

namespace Channel

variable {ch : Channel}

theorem later_resolveInbound {id : HtlcId} {x : Htlc} (hx : ch.inboundCommitted id = .ok x)
    (r : HtlcResolution) : List.Forall₂ Htlc.Later ch.htlcs (ch.resolveInbound id r).htlcs := by
  obtain ⟨hf, -, hh, hc⟩ := inboundCommitted_eq_ok.1 hx
  refine List.forall₂_mutFirst Htlc.Later.refl fun y hy => ?_
  obtain rfl := Option.some.inj (hf.symm.trans hy)
  exact Htlc.later_resolve r hh hc (by rw [hh]; decide) (by decide)

theorem later_resolveOutbound {id : HtlcId} {x : Htlc} (hx : ch.outboundCommitted id = .ok x)
    (r : HtlcResolution) : List.Forall₂ Htlc.Later ch.htlcs (ch.resolveOutbound id r).htlcs := by
  obtain ⟨hf, -, hh, hc⟩ := outboundCommitted_eq_ok.1 hx
  refine List.forall₂_mutFirst Htlc.Later.refl fun y hy => ?_
  obtain rfl := Option.some.inj (hf.symm.trans hy)
  exact Htlc.later_resolve r hh hc (by decide) (by rw [hc]; decide)

theorem advances_acceptCommitment (number : Nat) (b : Built) (msg : Wire.CommitmentSigned) :
    List.Forall₂ Htlc.Advances ch.htlcs (ch.acceptCommitment number b msg).htlcs := by
  show List.Forall₂ Htlc.Advances ch.htlcs ((ch.htlcs.map Htlc.lockHolder).map Htlc.acknowledge)
  rw [List.map_map, List.forall₂_map_right_iff]
  exact List.forall₂_same.2 fun h _ =>
    (Htlc.advances_lockHolder h).trans (Htlc.advances_acknowledge _)

theorem advances_acceptRevocation (pending : PendingCounterpartyCommitment)
    (secrets : Shachain.SecretStore) (nextPoint : PublicKey) :
    List.Forall₂ Htlc.Advances ch.htlcs
      (ch.acceptRevocation pending secrets nextPoint).htlcs := by
  have htrans : ∀ a b c, Htlc.Advances a b → Htlc.Advances b c → Htlc.Advances a c :=
    fun _ _ _ => Htlc.Advances.trans
  have hincluded : List.Forall₂ Htlc.Advances ch.htlcs
      (pending.included.foldl (fun hs k => htlcMut k Htlc.lockIncluded hs) ch.htlcs) :=
    List.forall₂_foldl_mutFirst Htlc.Advances.refl htrans Htlc.advances_lockIncluded _ _
  exact List.forall₂_trans htrans hincluded (List.forall₂_foldl_mutFirst Htlc.Advances.refl htrans
    Htlc.advances_lockRemoved _ _)

end Channel
