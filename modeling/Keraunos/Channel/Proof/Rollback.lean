import Keraunos.Channel.Proof.Flush

/-!
# What a disconnect does to our own operations

An add of ours or a removal of ours that no commitment we signed covers is undone by
`on_disconnect` and queued again, except a malformed failure, which is lost
(`disconnect_keeps_operations`). What is queued again with no commitment in flight stays in the
holding cell: no `revoke_and_ack` is to come that would flush it (`cell_awaits`).
-/

open Bitcoin

namespace Htlc

/-- The operation that resolves an HTLC this way. -/
def removal (id : HtlcId) : HtlcResolution → HoldingCellOp
  | .fulfill preimage => .fulfill id preimage
  | .fail reason => .fail id reason
  | .failMalformed sha code => .failMalformed id sha code

/-- The operation of ours an HTLC carries: its offer, or our resolution of it. -/
def operation (h : Htlc) : Option HoldingCellOp :=
  if h.outbound then
    h.source.map (HoldingCellOp.add h.amountMsat h.paymentHash h.cltvExpiry h.onion)
  else h.resolution.map (removal h.id)

/-- Our resolution of it is a malformed failure. -/
def failsMalformed (h : Htlc) : Bool :=
  match h.resolution with
  | some (.failMalformed _ _) => !h.outbound
  | _ => false

theorem operation_of_failsMalformed {h : Htlc} (hm : h.failsMalformed = true) :
    ∃ op, h.operation = some op := by
  unfold failsMalformed at hm
  split at hm
  · next hres =>
    have ho : h.outbound = false := by simpa using hm
    simp [operation, hres, ho]
  · cases hm

end Htlc

namespace Channel

variable {C : Crypto} {ch ch' ch₀ : Channel}

/-- It is offered or resolved by us, and no commitment we signed covers that. -/
def uncovered (ch : Channel) (h : Htlc) : Bool :=
  if h.outbound then h.phaseCounterparty = .pending && h.key ∉ ch.snapshotIncluded
  else h.phaseCounterparty = .removing && h.key ∉ ch.snapshotRemoved

/-- Every operation of ours that no signed commitment covers is in the holding cell, with what was
there before behind it; no other operation of ours is touched; and an HTLC whose removal is undone is
unresolved and back on both commitments. -/
structure KeepsOperations (ch ch' : Channel) : Prop where
  cell : ch'.holdingCell =
    (ch.htlcs.filter ch.uncovered).filterMap Htlc.operation ++ ch.holdingCell
  offered : ∀ h ∈ ch.htlcs, h.outbound = true → ch.uncovered h = false →
    ∃ h' ∈ ch'.htlcs, h'.key = h.key ∧ h'.operation = h.operation
  resolved : ∀ h ∈ ch.htlcs, h.outbound = false → h.resolution.isSome → ch.uncovered h = false →
    h ∈ ch'.htlcs
  undone : ∀ h ∈ ch.htlcs, h.resolution.isSome → h ∈ ch'.htlcs ∨
    { h with resolution := none, phaseHolder := .committed, phaseCounterparty := .committed } ∈
      ch'.htlcs

section
variable {h : Htlc} {r : Rollback}

/-- What is queued again: our operation, unless it is a malformed failure. -/
theorem RollsBack.requeue (hd : h.Disciplined) (hr : RollsBack ch h r) :
    r.requeue = if ch.uncovered h && !h.failsMalformed then h.operation.toList else [] := by
  cases hr with
  | keep hinc hrem =>
    have hno : ch.uncovered h = false := by
      unfold uncovered
      split
      · by_cases hc : h.phaseCounterparty = .pending <;> simp [hc, hinc]
      · by_cases hc : h.phaseCounterparty = .removing <;> simp [hc, hrem]
    simp [hno]
  | unoffer source ho hh hc hk hs =>
    have hres : h.resolution = none := by
      have hr := hd.resolved
      simpa [hh, hc, HtlcPhase.credited] using hr
    simp [uncovered, Htlc.failsMalformed, Htlc.operation, ho, hc, hk, hs, hres]
  | unresolve ho hh hc hk =>
    have hun : ch.uncovered h = true := by simp [uncovered, ho, hc, hk]
    rcases hres : h.resolution with _ | (p | reason | ⟨sha, code⟩) <;>
    simp [hun, requeuedRemoval, Htlc.failsMalformed, Htlc.operation, Htlc.removal, ho, hres]
  | unacknowledge ho _ hc | unacknowledgeRemoval ho _ hc | unremove ho _ hc | forget ho _ hc =>
    simp [uncovered, ho, hc]

/-- Our other operations stay. -/
theorem RollsBack.offered (hr : RollsBack ch h r) (ho : h.outbound = true)
    (hu : ch.uncovered h = false) : ∃ h', r.keep = some h' ∧ h'.key = h.key ∧
      h'.operation = h.operation := by
  cases hr with
  | keep => exact ⟨h, rfl, rfl, rfl⟩
  | unoffer source _ _ hc hk => simp [uncovered, ho, hc, hk] at hu
  | unacknowledge ho' | unresolve ho' | forget ho' => cases ho.symm.trans ho'
  | unacknowledgeRemoval | unremove => exact ⟨_, rfl, rfl, by simp [Htlc.operation, ho]⟩

theorem RollsBack.resolved (hd : h.Disciplined) (hr : RollsBack ch h r) (ho : h.outbound = false)
    (hres : h.resolution.isSome) (hu : ch.uncovered h = false) : r.keep = some h := by
  cases hr with
  | keep => rfl
  | unoffer _ ho' | unacknowledgeRemoval ho' | unremove ho' => cases ho.symm.trans ho'
  | unresolve _ _ hc hk => simp [uncovered, ho, hc, hk] at hu
  | unacknowledge _ hh hc | forget _ hh hc =>
    simp [hd.resolved, hh, hc, HtlcPhase.credited] at hres

theorem RollsBack.undone (hd : h.Disciplined) (hr : RollsBack ch h r) (hres : h.resolution.isSome) :
    r.keep = some h ∨ r.keep = some { h with
      resolution := none, phaseHolder := .committed, phaseCounterparty := .committed } := by
  cases hr with
  | keep => exact .inl rfl
  | unresolve _ hh => exact .inr (by simp [hh])
  | unacknowledgeRemoval => exact .inr rfl
  | unremove _ _ hc => exact .inr (by simp [hc])
  | unoffer _ _ hh hc | unacknowledge _ hh hc | forget _ hh hc =>
    simp [hd.resolved, hh, hc, HtlcPhase.credited] at hres

end

/-- The cell after a disconnect. -/
theorem Phased.requeued (h : Phased ch) {rs : List Rollback}
    (hrs : ch.htlcs.mapM ch.rollback = some rs) : rs.flatMap (·.requeue) = ch.htlcs.flatMap fun x =>
      if ch.uncovered x && !x.failsMalformed then x.operation.toList else [] := by
  rw [List.flatMap_of_mapM hrs]
  refine List.flatMap_congr fun x hx => ?_
  obtain ⟨r, hr, hrb⟩ := rollback_spec ch (h.disciplined x hx) (h.sourced x hx)
  rw [hr]
  exact hrb.requeue (h.disciplined x hx)

/-- What the rollback of an HTLC keeps is in the channel after the disconnect. -/
theorem mem_rolledBack {rs : List Rollback} (hrs : ch.htlcs.mapM ch.rollback = some rs) {x y : Htlc}
    (hx : x ∈ ch.htlcs) {r : Rollback} (hr : ch.rollback x = some r) (hk : r.keep = some y) :
    y ∈ (ch.rolledBack rs).htlcs := by
  show y ∈ rs.filterMap (·.keep)
  rw [List.filterMap_of_mapM hrs]
  exact List.mem_filterMap.2 ⟨x, hx, by rw [hr]; exact hk⟩

theorem onDisconnect_ok {rs : List Rollback} (hrs : ch.htlcs.mapM ch.rollback = some rs) :
    onDisconnect ch = .ok () (ch.rolledBack rs) := by
  have htotal : Act.wp onDisconnect ch (fun _ ch' => ch' = ch.rolledBack rs) fun _ _ => False := by
    simp [onDisconnect, hrs]
  obtain ⟨_, _, hrun, rfl⟩ := Act.wp_total htotal
  exact hrun

/-- In every run, a disconnect keeps our operations exactly when no malformed failure of ours is still
unsigned. -/
theorem disconnect_keeps_operations {tr : Trace Input ChannelError (List Wire.Message)}
    (h₀ : Fresh C ch₀) (hr : Run (step C) ch₀ tr ch) :
    ∃ ch', onDisconnect ch = .ok () ch' ∧ (KeepsOperations ch ch' ↔
      ∀ h ∈ ch.htlcs, ch.uncovered h = true → h.failsMalformed = false) := by
  have hph := phased_of_run h₀ hr
  obtain ⟨rs, hrs, -⟩ := hph.rollbacks
  refine ⟨_, onDisconnect_ok hrs, ?_⟩
  have hcell : (ch.rolledBack rs).holdingCell =
      (ch.htlcs.filter ch.uncovered).filterMap Htlc.operation ++ ch.holdingCell ↔
      ∀ h ∈ ch.htlcs, ch.uncovered h = true → h.failsMalformed = false := by
    have hall : (ch.htlcs.filter ch.uncovered).filterMap Htlc.operation =
        ch.htlcs.flatMap fun x => if ch.uncovered x then x.operation.toList else [] := by
      rw [List.filterMap_filter, List.filterMap_eq_flatMap_toList]
      refine List.flatMap_congr fun x _ => ?_
      split <;> rfl
    show rs.flatMap (·.requeue) ++ ch.holdingCell = _ ↔ _
    rw [List.append_left_inj, hph.requeued hrs, hall, List.flatMap_eq_iff]
    · refine forall₂_congr fun x hx => ?_
      cases hu : ch.uncovered x with
      | false => simp
      | true =>
        cases hm : x.failsMalformed with
        | false => simp
        | true =>
          obtain ⟨op, hop⟩ := Htlc.operation_of_failsMalformed hm
          simp [hop]
    · intro x _
      cases ch.uncovered x <;> cases x.failsMalformed <;> simp
  refine ⟨fun hk => hcell.1 hk.cell, fun hn => ⟨hcell.2 hn, ?_, ?_, ?_⟩⟩
  · intro x hx ho hu
    obtain ⟨r, hr, hrb⟩ := rollback_spec ch (hph.disciplined x hx) (hph.sourced x hx)
    obtain ⟨y, hy, hkey, hop⟩ := hrb.offered ho hu
    exact ⟨y, mem_rolledBack hrs hx hr hy, hkey, hop⟩
  · intro x hx ho hres hu
    obtain ⟨r, hr, hrb⟩ := rollback_spec ch (hph.disciplined x hx) (hph.sourced x hx)
    exact mem_rolledBack hrs hx hr (hrb.resolved (hph.disciplined x hx) ho hres hu)
  · intro x hx hres
    obtain ⟨r, hr, hrb⟩ := rollback_spec ch (hph.disciplined x hx) (hph.sourced x hx)
    exact (hrb.undone (hph.disciplined x hx) hres).imp (mem_rolledBack hrs hx hr)
      (mem_rolledBack hrs hx hr)

/-- The accepter of a payment has fulfilled it and not signed yet when the connection is lost. -/
theorem disconnect_keeps_operations_bob :
    ∃ tr ch ch', Run (step Demo.C) Demo.bob.1 tr ch ∧ (ch.htlcs.map ch.uncovered) = [true] ∧
      onDisconnect ch = .ok () ch' ∧ KeepsOperations ch ch' := by
  obtain ⟨tr, ch, hr, ⟨hun, hn⟩, -⟩ := Demo.exists_chan
    (Demo.handshake ++ Demo.payment ++ [.command .b (.sendFulfillHtlc 0 (Demo.bytes 3))]) .b
    (fun ch => (ch.htlcs.map ch.uncovered) = [true] ∧
      ∀ h ∈ ch.htlcs, ch.uncovered h = true → h.failsMalformed = false) (by decide +kernel)
  obtain ⟨ch', hdis, hk⟩ := disconnect_keeps_operations Demo.bob_fresh hr
  exact ⟨tr, ch, ch', hr, hun, hdis, hk.2 hn⟩

/-- A malformed failure that is not signed yet when the connection is lost is forgotten. -/
theorem malformed_failure_lost :
    ∃ tr ch ch', Run (step Demo.C) Demo.bob.1 tr ch ∧ onDisconnect ch = .ok () ch' ∧
      ¬ KeepsOperations ch ch' := by
  obtain ⟨tr, ch, hr, hdis, -⟩ := Demo.exists_chan
    (Demo.handshake ++ Demo.payment ++
      [.command .b (.sendFailMalformedHtlc 0 (Demo.bytes 0) 0xc000)]) .b
    (fun ch => Act.wp onDisconnect ch (fun _ ch' => ¬ ch'.holdingCell =
      (ch.htlcs.filter ch.uncovered).filterMap Htlc.operation ++ ch.holdingCell) fun _ _ => False)
    (by decide +kernel)
  obtain ⟨_, ch', hrun, hne⟩ := Act.wp_total hdis
  exact ⟨tr, ch, ch', hr, hrun, fun hk => hne hk.cell⟩

/-! ## The cell awaits a revocation -/

/-- In use, a channel with something in its holding cell awaits the `revoke_and_ack` that flushes
it. -/
def NotStranded (ch : Channel) : Prop :=
  ch.state = .normal ∨ ch.state = .shuttingDown → ch.holdingCell ≠ [] → ch.awaitingRaa = true

/-- A disconnect now queues an operation of ours again. -/
def Requeues (ch : Channel) : Prop :=
  ∃ h ∈ ch.htlcs, ch.uncovered h = true ∧ h.failsMalformed = false

instance : Decidable (Requeues ch) :=
  inferInstanceAs (Decidable (∃ h ∈ ch.htlcs, _))

/-- A disconnect finds a commitment in flight, or nothing of ours to queue again. -/
def Awaited (ch : Channel) (i : Input) : Prop :=
  i.disconnects = true → ch.awaitingRaa = true ∨ ¬ ch.Requeues

instance (i : Input) : Decidable (ch.Awaited i) :=
  inferInstanceAs (Decidable (_ → _))

/-- Something in the holding cell awaits its flush. -/
def Awaits (ch : Channel) : Prop := ch.holdingCell ≠ [] → ch.awaitingRaa = true

theorem Move.awaits (hm : Move C ch ch') (h : Awaits ch) : Awaits ch' := by
  cases hm with
  | park ops hops => exact fun hne => hops.resolve_left hne
  | sign => exact fun _ => rfl
  | revoke _ _ _ _ _ _ _ _ _ _ hcell => exact fun hne => absurd hcell hne
  | _ => exact h

/-- A disconnect queues nothing again, unless it `Requeues`. -/
theorem Phased.cell_rolledBack (h : Phased ch) {rs : List Rollback}
    (hrs : ch.htlcs.mapM ch.rollback = some rs) :
    (ch.rolledBack rs).holdingCell = [] ↔ ¬ ch.Requeues ∧ ch.holdingCell = [] := by
  show rs.flatMap (·.requeue) ++ ch.holdingCell = [] ↔ _
  rw [List.append_eq_nil_iff, h.requeued hrs, List.flatMap_eq_nil_iff]
  refine and_congr_left' ⟨fun hall hreq => ?_, fun hno x hx => ?_⟩
  · obtain ⟨x, hx, hu, hm⟩ := hreq
    have hop := hall x hx
    rw [hu, hm] at hop
    have hd := h.disciplined x hx
    cases ho : x.outbound with
    | true =>
      obtain ⟨source, hs⟩ := Option.isSome_iff_exists.1 (h.sourced x hx ho)
      simp [Htlc.operation, ho, hs] at hop
    | false =>
      have hc : x.phaseCounterparty = .removing := by
        simp only [uncovered, ho, Bool.false_eq_true, if_false, Bool.and_eq_true,
          decide_eq_true_eq] at hu
        exact hu.1
      have hres := hd.resolved
      simp only [hc, HtlcPhase.credited, Bool.or_true] at hres
      obtain ⟨r, hr⟩ := Option.isSome_iff_exists.1 hres
      simp [Htlc.operation, ho, hr] at hop
  · split
    · next hc =>
      simp only [Bool.and_eq_true, Bool.not_eq_true'] at hc
      exact absurd ⟨x, hx, hc⟩ hno
    · rfl

/-- As long as every disconnect finds a commitment in flight or nothing of ours to queue again, the
holding cell is empty unless a `revoke_and_ack` is to come; a disconnect that finds neither strands
the cell. -/
theorem cell_not_stranded {tr : Trace Input ChannelError (List Wire.Message)} (h₀ : Fresh C ch₀)
    (hr : Run.Within (step C) Awaited ch₀ tr ch) :
    NotStranded ch ∧ ∃ ch', onDisconnect ch = .ok () ch' ∧
      (NotStranded ch' ↔ ch.awaitingRaa = true ∨ ¬ ch.Requeues) := by
  have hcell : Awaits ch := by
    refine hr.invariant_of_run (fun hne => absurd h₀.initial.cell hne) ?_
    intro tr ch i hrun hA h
    refine (step_stepped i ch).mono fun ch' hs => ?_
    cases hs with
    | moves _ hm => exact hm.invariant (fun _ _ hm => hm.awaits) h
    | refused | accepted => exact h
    | rolledBack rs hrs =>
      intro hne
      show ch.awaitingRaa = true
      rcases hA rfl with ha | hno
      · exact ha
      · refine h fun hnil => hne ?_
        exact ((phased_of_run h₀ hrun).cell_rolledBack hrs).2 ⟨hno, hnil⟩
  have hph := phased_of_run h₀ hr.run
  obtain ⟨rs, hrs, -⟩ := hph.rollbacks
  refine ⟨fun _ => hcell, ch.rolledBack rs, onDisconnect_ok hrs, fun hns => ?_, fun hA _ hne => ?_⟩
  · by_contra hno
    obtain ⟨ha, hreq⟩ := not_or.1 hno
    have hne : (ch.rolledBack rs).holdingCell ≠ [] := fun hnil =>
      hreq ((hph.cell_rolledBack hrs).1 hnil).1
    refine ha (hns ?_ hne)
    by_contra hst
    obtain ⟨hn, hs⟩ := not_or.1 hst
    obtain ⟨x, hx, -⟩ := not_not.1 hreq
    rw [((inUse_of_run h₀ hr.run).dormant hn hs).1] at hx
    cases hx
  · rcases hA with ha | hno
    · exact ha
    · exact hcell fun hnil => hne ((hph.cell_rolledBack hrs).2 ⟨hno, hnil⟩)

/-- An add parked behind a commitment in flight when the connection is lost. -/
theorem cell_not_stranded_alice :
    ∃ tr ch, Run.Within (step Demo.C) Awaited Demo.alice.1 tr ch ∧ ch.holdingCell.length = 1 ∧
      NotStranded ch := by
  obtain ⟨tr, ch, hr, hlen⟩ := Run.Within.exists_of_exec (f := step Demo.C)
    (A := Awaited) (s := Demo.alice.1)
    (Pair.inputs Demo.C .a Demo.start
      (Demo.handshake ++ Demo.payment.take 2 ++ Demo.payment.take 1 ++ [.command .a .disconnect]))
    (·.holdingCell.length = 1) (by
      rw [Demo.alice_tabled, Demo.start_tabled]
      decide +kernel)
  exact ⟨tr, ch, hr, hlen, (cell_not_stranded Demo.alice_fresh hr).1⟩

/-- An add that is not signed yet when the connection is lost: it stays in the holding cell after the
two sides have reestablished the channel, in sync. -/
theorem add_stranded :
    ∃ tr ch msg actions, Run (step Demo.C) Demo.alice.1 tr ch ∧
      ch.onChannelReestablish Demo.C msg = .ok actions ∧ ¬ NotStranded ch := by
  let msg : Wire.ChannelReestablish :=
    ⟨channelIdFromFunding (Demo.bytes 9) 0, 1, 0, zeroBytes32, (Demo.signer 2).perCommitmentPoint 0⟩
  obtain ⟨tr, ch, hr, ⟨hok, hst, hcell, ha⟩, -⟩ := Demo.exists_chan
    (Demo.handshake ++ Demo.payment.take 1 ++
      [.command .a .disconnect, .command .a (.channelReestablish msg)]) .a
    (fun ch => (ch.onChannelReestablish Demo.C msg).toOption.isSome ∧ ch.state = .normal ∧
      ch.holdingCell.length = 1 ∧ ch.awaitingRaa = false) (by decide +kernel)
  obtain ⟨actions, hact⟩ := Option.isSome_iff_exists.1 hok
  refine ⟨tr, ch, msg, actions, hr, Fault.toOption_eq_some.1 hact, fun hns => ?_⟩
  cases ha.symm.trans (hns (.inl hst) fun hnil => by simp [hnil] at hcell)

end Channel
