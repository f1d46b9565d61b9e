import Keraunos.Channel.Pair
import Keraunos.Channel.Proof.Ids
import Keraunos.Channel.Proof.Phases

/-!
# The flush of the holding cell

`FlushesOp` says what re-issuing one operation does in the state it finds: an add is offered or
fails, a removal is sent or dropped because it does not apply. A flush finds no commitment in
flight, so it never parks an operation again (`flushOps_spec`), and what it sends is signed at once
because the channel is still in use (`Dormant`).
-/

open Bitcoin

namespace Channel

variable {C : Crypto} {ch ch' : Channel}

/-! ## One operation -/

/-- A removal that does not apply: the HTLC is unknown, resolved or not committed on both sides, or
the preimage is not its own. -/
def Inapplicable (C : Crypto) (ch : Channel) : HoldingCellOp → Prop
  | .add .. => False
  | .fulfill id preimage => ∀ x, ch.inboundCommitted id = .ok x → paymentHash C preimage ≠ x.paymentHash
  | .fail id _ | .failMalformed id _ _ => ∀ x, ch.inboundCommitted id ≠ .ok x

/-- The flush of one operation takes `ch` to the last argument and yields the outcome. -/
inductive FlushesOp (C : Crypto) (ch : Channel) : HoldingCellOp → RaaOutcome → Channel → Prop
  | offered {amountMsat : Msat} {paymentHash : PaymentHash} {cltvExpiry : Nat} {onion : List UInt8}
      {source : HtlcSource} : ch.state = .normal →
      ch.validateOutboundAdd amountMsat cltvExpiry = .ok () →
      FlushesOp C ch (.add amountMsat paymentHash cltvExpiry onion source)
        { messages := [.updateAddHtlc
            ⟨ch.channelId, ch.nextHolderHtlcId, amountMsat, paymentHash, cltvExpiry, onion⟩] }
        (ch.offer amountMsat paymentHash cltvExpiry onion source)
  | refused {amountMsat : Msat} {paymentHash : PaymentHash} {cltvExpiry : Nat} {onion : List UInt8}
      {source : HtlcSource} :
      FlushesOp C ch (.add amountMsat paymentHash cltvExpiry onion source)
        { failedAdds := [(source, "no longer routable on flush")] } ch
  | fulfilled {id : HtlcId} {preimage : PaymentPreimage} {x : Htlc} :
      ch.inboundCommitted id = .ok x → paymentHash C preimage = x.paymentHash →
      FlushesOp C ch (.fulfill id preimage)
        { messages := [.updateFulfillHtlc ⟨ch.channelId, id, preimage⟩] }
        (ch.resolveInbound id (.fulfill preimage))
  | failed {id : HtlcId} {reason : List UInt8} {x : Htlc} : ch.inboundCommitted id = .ok x →
      FlushesOp C ch (.fail id reason)
        { messages := [.updateFailHtlc ⟨ch.channelId, id, reason⟩] }
        (ch.resolveInbound id (.fail reason))
  | failedMalformed {id : HtlcId} {sha : Bytes32} {code : Nat} {x : Htlc} :
      ch.inboundCommitted id = .ok x →
      FlushesOp C ch (.failMalformed id sha code)
        { messages := [.updateFailMalformedHtlc ⟨ch.channelId, id, sha, code⟩] }
        (ch.resolveInbound id (.failMalformed sha code))
  | dropped {op : HoldingCellOp} : ch.Inapplicable C op → FlushesOp C ch op {} ch

/-- The flush of a list of operations, with the outcome of each. -/
inductive FlushesOps (C : Crypto) : Channel → List HoldingCellOp → List RaaOutcome → Channel → Prop
  | nil {ch : Channel} : FlushesOps C ch [] [] ch
  | cons {ch ch₁ ch₂ : Channel} {op : HoldingCellOp} {ops : List HoldingCellOp} {o : RaaOutcome}
      {os : List RaaOutcome} : FlushesOp C ch op o ch₁ → FlushesOps C ch₁ ops os ch₂ →
      FlushesOps C ch (op :: ops) (o :: os) ch₂

/-- An add is refused with `Ignore`. -/
theorem sendAddHtlc_error (amountMsat : Msat) (paymentHash : PaymentHash) (cltvExpiry : Nat)
    (onion : List UInt8) (source : HtlcSource) (ch : Channel) :
    Act.wp (sendAddHtlc amountMsat paymentHash cltvExpiry onion source) ch (fun _ _ => True)
      (fun e _ => ∃ m, e = .err (.ignore m)) := by
  simp only [sendAddHtlc, Act.wp_bind, Act.wp_get, Act.wp_lift, Act.wp_ite, Act.wp_set,
    Act.wp_pure, Fault.require_eq_error]
  refine ⟨fun _ _ => ⟨fun _ _ => ⟨fun _ => trivial, fun _ => ⟨fun _ _ => trivial, fun e he => ?_⟩⟩,
    fun e he => ⟨_, he.2⟩⟩, fun e he => ⟨_, he.2⟩⟩
  simp only [validateOutboundAdd, Fault.bind_eq_error, Fault.require_eq_error] at he
  grind

/-- A removal is refused with `InvalidState`, because it does not apply. -/
theorem sendRemoval_error {M : Type} (op : HoldingCellOp) (id : HtlcId) (r : HtlcResolution)
    {check : Htlc → ChannelResult Unit} (msg : ChannelId → M) (ch : Channel)
    (hcheck : ∀ x f, check x = .error f → ∃ m, f = .err (.invalidState m)) :
    Act.wp (sendRemoval op id r check msg) ch (fun _ _ => True)
      (fun e _ => (∃ m, e = .err (.invalidState m)) ∧
        ∀ x, ch.inboundCommitted id = .ok x → ∃ f, check x = .error f) := by
  simp only [sendRemoval, Act.wp_bind, Act.wp_get, Act.wp_lift, Act.wp_ite, Act.wp_set, Act.wp_pure]
  refine ⟨fun _ => trivial, fun _ => ⟨fun x hx => ⟨fun _ _ => trivial, fun e he => ⟨hcheck x e he, ?_⟩⟩,
    fun e he => ⟨?_, ?_⟩⟩⟩
  · intro y hy
    obtain rfl := Except.ok.inj (hx.symm.trans hy)
    exact ⟨e, he⟩
  · simp only [inboundCommitted, Fault.bind_eq_error, Fault.okOr_eq_error, Fault.require_eq_error,
      pure, Except.pure, reduceCtorEq, and_false, exists_false, or_false] at he
    grind
  · intro x hx
    cases he.symm.trans hx

/-- Re-issuing a removal, with no commitment in flight. -/
theorem flushRemoval_spec {M : Type} (wrap : M → Wire.Message) (op : HoldingCellOp) (id : HtlcId)
    (r : HtlcResolution) {check : Htlc → ChannelResult Unit} (msg : ChannelId → M)
    (ha : ch.awaitingRaa = false)
    (hcheck : ∀ x f, check x = .error f → ∃ m, f = .err (.invalidState m)) :
    Act.wp (flushRemoval wrap (sendRemoval op id r check msg)) ch
      (fun o ch' => (∃ x, ch.inboundCommitted id = .ok x ∧ check x = .ok () ∧
          o = { messages := [wrap (msg ch.channelId)] } ∧ ch' = ch.resolveInbound id r) ∨
        (∀ x, ch.inboundCommitted id = .ok x → ∃ f, check x = .error f) ∧ o = {} ∧ ch' = ch)
      (fun _ _ => False) := by
  simp only [flushRemoval, Act.wp_bind, Act.wp_attempt]
  refine Act.wp_mono (Act.wp_and (sendRemoval_spec op id r check msg ch)
    (sendRemoval_error op id r msg ch hcheck)) ?_ ?_
  · intro m ch' hm
    rcases hm.1 with ⟨ha', -⟩ | ⟨-, rfl, x, hx, hc, rfl⟩
    · cases ha.symm.trans ha'
    · exact .inl ⟨x, hx, hc, rfl, rfl⟩
  · intro e ch' he
    obtain ⟨rfl, ⟨m, rfl⟩, hno⟩ := he
    refine ⟨?_, fun hp => by cases hp⟩
    intro e' he'
    obtain rfl := Fault.err.inj he'
    exact .inr ⟨hno, rfl, rfl⟩

/-- With no commitment in flight an operation is never parked again. -/
theorem flushOp_spec (op : HoldingCellOp) (ha : ch.awaitingRaa = false) :
    Act.wp (flushOp C op) ch (fun o ch' => FlushesOp C ch op o ch') (fun _ _ => False) := by
  cases op with
  | add amountMsat hash cltvExpiry onion source =>
    simp only [flushOp, Act.wp_bind, Act.wp_attempt]
    refine Act.wp_mono (Act.wp_and (sendAddHtlc_spec _ _ _ _ _ _)
      (sendAddHtlc_error _ _ _ _ _ _)) ?_ ?_
    · intro m ch' hm
      rcases hm.1 with ⟨ha', -⟩ | ⟨-, hst, hv, rfl, rfl⟩
      · cases ha.symm.trans ha'
      · exact .offered hst hv
    · intro e ch' he
      obtain ⟨rfl, m, rfl⟩ := he
      refine ⟨?_, fun hp => by cases hp⟩
      intro e' he'
      obtain rfl := Fault.err.inj he'
      exact .refused
  | fulfill id preimage =>
    refine Act.wp_mono (flushRemoval_spec _ _ _ _ _ ha ?_) ?_ fun _ _ h => h
    · intro x f hf
      exact ⟨_, (Fault.require_eq_error.1 hf).2⟩
    · intro o ch' ho
      rcases ho with ⟨x, hx, hc, rfl, rfl⟩ | ⟨hno, rfl, rfl⟩
      · exact .fulfilled hx (Fault.require_eq_ok.1 hc)
      · refine .dropped fun x hx => ?_
        obtain ⟨f, hf⟩ := hno x hx
        exact (Fault.require_eq_error.1 hf).1
  | fail id reason =>
    refine Act.wp_mono (flushRemoval_spec _ _ _ _ _ ha fun _ _ hf => (by cases hf)) ?_ fun _ _ h => h
    intro o ch' ho
    rcases ho with ⟨x, hx, -, rfl, rfl⟩ | ⟨hno, rfl, rfl⟩
    · exact .failed hx
    · refine .dropped fun x hx => ?_
      obtain ⟨f, hf⟩ := hno x hx
      cases hf
  | failMalformed id sha code =>
    refine Act.wp_mono (flushRemoval_spec _ _ _ _ _ ha fun _ _ hf => (by cases hf)) ?_ fun _ _ h => h
    intro o ch' ho
    rcases ho with ⟨x, hx, -, rfl, rfl⟩ | ⟨hno, rfl, rfl⟩
    · exact .failedMalformed hx
    · refine .dropped fun x hx => ?_
      obtain ⟨f, hf⟩ := hno x hx
      cases hf

/-! ## The whole cell -/

/-- What re-issuing an operation leaves alone; a message leaves something to sign. -/
theorem FlushesOp.frame {op : HoldingCellOp} {o : RaaOutcome} (h : FlushesOp C ch op o ch') :
    ch'.awaitingRaa = ch.awaitingRaa ∧ ch'.holdingCell = ch.holdingCell ∧ ch'.state = ch.state ∧
      ch'.counterpartyNextPoint = ch.counterpartyNextPoint ∧
      (o.messages ≠ [] ∨ ch.counterpartyDirty = true → ch'.counterpartyDirty = true) := by
  cases h with
  | offered | fulfilled | failed | failedMalformed => exact ⟨rfl, rfl, rfl, rfl, fun _ => rfl⟩
  | refused | dropped =>
    refine ⟨rfl, rfl, rfl, rfl, fun hd => ?_⟩
    rcases hd with hm | hd
    · exact absurd rfl hm
    · exact hd

theorem FlushesOps.frame {ops : List HoldingCellOp} {os : List RaaOutcome}
    (h : FlushesOps C ch ops os ch') :
    ch'.awaitingRaa = ch.awaitingRaa ∧ ch'.holdingCell = ch.holdingCell ∧ ch'.state = ch.state ∧
      ch'.counterpartyNextPoint = ch.counterpartyNextPoint ∧
      (os.flatMap (·.messages) ≠ [] ∨ ch.counterpartyDirty = true → ch'.counterpartyDirty = true) := by
  induction h with
  | nil => exact ⟨rfl, rfl, rfl, rfl, fun hd => hd.elim (fun hm => absurd rfl hm) id⟩
  | @cons _ _ _ _ _ _ os hop _ ih =>
    obtain ⟨h1, h2, h3, h4, h5⟩ := hop.frame
    obtain ⟨i1, i2, i3, i4, i5⟩ := ih
    refine ⟨i1.trans h1, i2.trans h2, i3.trans h3, i4.trans h4, fun hd => i5 ?_⟩
    by_cases hm : os.flatMap (·.messages) = []
    · refine .inr (h5 (hd.imp_left fun hne ho => hne ?_))
      rw [List.flatMap_cons, ho, hm]
      rfl
    · exact .inl hm

/-- The id an `update_add_htlc` carries. -/
def addId : Wire.Message → Option HtlcId
  | .updateAddHtlc m => some m.id
  | _ => none

/-- The adds of a flush take consecutive ids. -/
theorem FlushesOps.addIds {ops : List HoldingCellOp} {os : List RaaOutcome}
    (h : FlushesOps C ch ops os ch') : ∃ n, ch'.nextHolderHtlcId = ch.nextHolderHtlcId + n ∧
      (os.flatMap (·.messages)).filterMap addId = List.range' ch.nextHolderHtlcId n := by
  induction h with
  | nil => exact ⟨0, rfl, rfl⟩
  | cons hop _ ih =>
    obtain ⟨n, hn, hids⟩ := ih
    rw [List.flatMap_cons, List.filterMap_append, hids]
    cases hop with
    | offered =>
      refine ⟨n + 1, hn.trans (Nat.add_right_comm _ _ _), ?_⟩
      rw [List.range'_succ]
      rfl
    | _ => exact ⟨n, hn, rfl⟩

theorem flushOps_spec (ops : List HoldingCellOp) (ha : ch.awaitingRaa = false) :
    Act.wp (flushOps C ops) ch
      (fun o ch' => ∃ os, FlushesOps C ch ops os ch' ∧
        o = { messages := os.flatMap (·.messages), failedAdds := os.flatMap (·.failedAdds) })
      (fun _ _ => False) := by
  induction ops generalizing ch with
  | nil => exact ⟨[], .nil, rfl⟩
  | cons op ops ih =>
    simp only [flushOps, Act.wp_bind, Act.wp_pure]
    refine Act.wp_mono (flushOp_spec op ha) (fun o ch₁ ho => ?_) fun _ _ h => h
    refine Act.wp_mono (ih (ho.frame.1.trans ha)) (fun o' ch₂ ho' => ?_) fun _ _ h => h
    obtain ⟨os, hos, rfl⟩ := ho'
    exact ⟨o :: os, .cons ho hos, rfl⟩

/-- The channel a flush starts from. -/
def revoked (ch : Channel) (pending : PendingCounterpartyCommitment) (secrets : Shachain.SecretStore)
    (nextPoint : PublicKey) : Channel :=
  { (ch.acceptRevocation pending secrets nextPoint).gcHtlcs.processed with holdingCell := [] }

/-- `on_revoke_and_ack` refuses and changes nothing, or accepts, flushes the cell and signs. -/
theorem onRevokeAndAck_spec (msg : Wire.RevokeAndAck) (ch : Channel) :
    Act.wp (onRevokeAndAck C msg) ch
      (fun o ch' => ∃ pending secrets os ch₁, ch.awaitingRaa = true ∧
        ch.pendingCounterpartyCommitment = some pending ∧
        FlushesOps C (ch.revoked pending secrets msg.nextPerCommitmentPoint) ch.holdingCell os ch₁ ∧
        maybeSendCommitmentSigned C ch₁ = .ok o.commitmentSigned ch' ∧
        o.messages = os.flatMap (·.messages) ∧ o.failedAdds = os.flatMap (·.failedAdds) ∧
        o.forwardable = ((ch.acceptRevocation pending secrets
          msg.nextPerCommitmentPoint).gcHtlcs.htlcs.filter Htlc.forwardable).map
            fun h => ⟨h.id, h.amountMsat, h.paymentHash, h.cltvExpiry, h.onion⟩)
      (fun e ch' => ch' = ch ∨ ∃ pending secrets os ch₁, ch.awaitingRaa = true ∧
        ch.pendingCounterpartyCommitment = some pending ∧
        FlushesOps C (ch.revoked pending secrets msg.nextPerCommitmentPoint) ch.holdingCell os ch₁ ∧
        maybeSendCommitmentSigned C ch₁ = .error e ch') := by
  simp only [onRevokeAndAck, collectForwardable, Act.wp_bind, Act.wp_get, Act.wp_lift,
    Act.wp_expect, Act.wp_set, Act.wp_modify, Act.wp_pure, Fault.require_eq_ok]
  refine ⟨fun _ ha => ⟨fun pending hp => ⟨fun point hpt => ⟨fun _ hrv => ⟨fun _ heq =>
    ⟨fun secrets hs => ?_, fun _ _ => .inl trivial⟩, fun _ _ => .inl trivial⟩,
    fun _ => .inl trivial⟩, fun _ => .inl trivial⟩, fun _ => .inl trivial⟩,
    fun _ _ => .inl trivial⟩
  have hflush : Act.wp (flushOps C ch.holdingCell) (ch.revoked pending secrets
      msg.nextPerCommitmentPoint) _ _ := flushOps_spec ch.holdingCell rfl
  refine Act.wp_mono hflush (fun o ch₁ ho => ?_) fun _ _ h => h.elim
  obtain ⟨os, hos, rfl⟩ := ho
  refine Act.wp_iff.2 ⟨fun cs ch' hcs => ?_, fun e ch' he => ?_⟩
  · exact ⟨pending, secrets, os, ch₁, ha, hp, hos, hcs, rfl, rfl, rfl⟩
  · exact .inr ⟨pending, secrets, os, ch₁, ha, hp, hos, he⟩

/-! ## A channel in use -/

/-- Outside of normal operation and shutdown there is nothing to commit. -/
def Dormant (ch : Channel) : Prop :=
  ch.state ≠ .normal → ch.state ≠ .shuttingDown →
    ch.htlcs = [] ∧ ch.counterpartyDirty = false ∧ ch.awaitingRaa = false

theorem Initial.dormant (h : Initial ch) : Dormant ch := fun _ _ => ⟨h.htlcs, h.dirty, h.awaiting⟩

theorem ready_dormant (h : ch.readyToNegotiateClose = true) :
    ch.htlcs = [] ∧ ch.counterpartyDirty = false ∧ ch.awaitingRaa = false := by
  simp only [readyToNegotiateClose, Bool.and_eq_true, Bool.not_eq_true', List.isEmpty_iff] at h
  exact ⟨h.1.1.1.2, h.1.2, h.1.1.2⟩

/-- A state that is not in use is before or after those that are. -/
theorem rank_dormant {s : ChannelState} (hn : s ≠ .normal) (hs : s ≠ .shuttingDown) :
    s.rank ≤ 2 ∨ 5 ≤ s.rank := by
  cases s <;> simp [ChannelState.rank] at *

theorem dormant_of_rank {s : ChannelState} (h : s.rank ≤ 2 ∨ 5 ≤ s.rank) :
    s ≠ .normal ∧ s ≠ .shuttingDown := by
  constructor <;> intro hs <;> subst hs <;> simp [ChannelState.rank] at h

theorem Move.dormant (hm : Move C ch ch') (h : Dormant ch) : Dormant ch' := by
  intro hn hs
  cases hm with
  | admin a ha h5 =>
    show ch.htlcs = [] ∧ ch.counterpartyDirty = false ∧ ch.awaitingRaa = false
    rcases ha with ha | ⟨-, hlt⟩
    · exact h (ha ▸ hn) (ha ▸ hs)
    · rcases rank_dormant hn hs with hr | hr
      · obtain ⟨h1, h2⟩ := dormant_of_rank (.inl (Nat.le_of_lt (Nat.lt_of_lt_of_le hlt hr)))
        exact h h1 h2
      · rcases h5 hr with h5 | hready
        · obtain ⟨h1, h2⟩ := dormant_of_rank (.inr h5)
          exact h h1 h2
        · exact ready_dormant hready
  | signInitial _ _ st hr =>
    obtain ⟨h1, h2⟩ := dormant_of_rank (s := ch.state) (.inl (by rw [hr]; exact Nat.zero_le _))
    exact h h1 h2
  | offer _ _ _ _ _ hst | fee _ _ _ hst => exact absurd hst hn
  | receive msg hc =>
    simp only [checkUpdateAddHtlc, Fault.bind_eq_ok, Fault.require_eq_ok] at hc
    exact absurd hc.choose_spec.1 hn
  | resolveInbound id r x ha hx =>
    have hmem := List.mem_of_find?_eq_some (inboundCommitted_eq_ok.1 hx).1
    rw [(h hn hs).1] at hmem
    cases hmem
  | resolveOutbound id r x hx =>
    have hmem := List.mem_of_find?_eq_some (outboundCommitted_eq_ok.1 hx).1
    rw [(h hn hs).1] at hmem
    cases hmem
  | sign _ _ _ _ _ hd => cases (h hn hs).2.1.symm.trans hd
  | revoke _ _ _ _ _ ha => cases (h hn hs).2.2.symm.trans ha
  | _ => exact h hn hs

/-- With a commitment in flight the peer's keys and the funding outpoint are known. -/
def Keyed (ch : Channel) : Prop :=
  ch.awaitingRaa = true → (∃ cp, ch.counterpartyPubkeys = some cp) ∧ ∃ f, ch.fundingOutpoint = some f

theorem Move.keyed (hm : Move C ch ch') (h : Keyed ch) : Keyed ch' := by
  cases hm with
  | negotiate => exact fun ha => ⟨⟨_, rfl⟩, (h ha).2⟩
  | bind f => exact fun ha => ⟨(h ha).1, f, rfl⟩
  | sign point b _ _ hb =>
    simp only [buildCounterpartyCommitmentAt, counterparty, Fault.bind_eq_ok, Fault.okOr_eq_ok] at hb
    obtain ⟨cp, hcp, _, -, f, hf, -⟩ := hb
    exact fun _ => ⟨⟨cp, hcp⟩, f, hf⟩
  | revoke => exact fun ha => nomatch ha
  | _ => exact h

/-- What the flush relies on, in every run. -/
structure InUse (ch : Channel) : Prop where
  dormant : Dormant ch
  keyed : Keyed ch

theorem Stepped.inUse {i : Input} (hs : Stepped C ch i ch') (h : InUse ch) : InUse ch' := by
  cases hs with
  | moves _ hm =>
    exact hm.invariant (I := InUse) (fun _ _ hm h => ⟨hm.dormant h.dormant, hm.keyed h.keyed⟩) h
  | refused => exact h
  | accepted _ _ hst => exact ⟨fun hn hs => (hst.elim (absurd · hn) (absurd · hs)), h.keyed⟩
  | rolledBack rs hrs =>
    refine ⟨fun hn hs => ?_, h.keyed⟩
    obtain ⟨hnil, hd, ha⟩ := h.dormant hn hs
    rw [hnil, List.mapM_nil] at hrs
    obtain rfl := Option.some.inj hrs
    exact ⟨rfl, hd, ha⟩

theorem inUse_of_run {ch₀ : Channel} {tr : Trace Input ChannelError (List Wire.Message)}
    (h₀ : Fresh C ch₀) (hr : Run (step C) ch₀ tr ch) : InUse ch :=
  Run.invariant (A := fun _ => True)
    ⟨h₀.initial.dormant, fun ha => nomatch h₀.initial.awaiting.symm.trans ha⟩
    (fun ch i _ h => (step_stepped i ch).mono fun _ hs => hs.inUse h) hr fun _ _ => trivial

/-- Signing in a channel whose keys are known can only panic. -/
theorem sendCommitmentSigned_error {cp : ChannelPublicKeys} {f : OutPoint}
    (hcp : ch.counterpartyPubkeys = some cp) (hf : ch.fundingOutpoint = some f)
    (hcan : ch.canSendCommitment = true) :
    Act.wp (sendCommitmentSigned C) ch (fun _ _ => True) (fun e _ => e = .panic) := by
  simp only [canSendCommitment, Bool.and_eq_true, Bool.not_eq_true', Option.isSome_iff_exists] at hcan
  obtain ⟨⟨⟨hd, ha⟩, point', hp'⟩, -⟩ := hcan
  simp only [sendCommitmentSigned, Act.wp_bind, Act.wp_get, Act.wp_lift, Act.wp_okOr,
    Act.wp_expect, Act.wp_set, Act.wp_pure, Fault.require_eq_error, ha, hd, hp']
  refine ⟨fun _ _ => ⟨fun _ _ => ⟨fun point _ => ⟨fun b _ => ⟨fun sig _ => ⟨fun _ _ => trivial,
    fun _ => trivial⟩, fun e he => ?_⟩, fun e he => ?_⟩, fun hp => by cases hp⟩,
    fun e he => absurd trivial he.1⟩, fun e he => absurd rfl he.1⟩
  · obtain ⟨sig, hsig⟩ := signCounterpartyCommitmentTx_ok (C := C) ch b.built hcp
    cases he.symm.trans hsig
  · exact buildCounterpartyCommitmentAt_error ch hcp hf he

theorem maybeSendCommitmentSigned_spec {cp : ChannelPublicKeys} {f : OutPoint}
    (hcp : ch.counterpartyPubkeys = some cp) (hf : ch.fundingOutpoint = some f) :
    Act.wp (maybeSendCommitmentSigned C) ch
      (fun cs ch' => (ch.canSendCommitment = true → cs.isSome) ∧ ch'.holdingCell = ch.holdingCell ∧
        ch'.nextHolderHtlcId = ch.nextHolderHtlcId)
      (fun e _ => e = .panic) := by
  simp only [maybeSendCommitmentSigned, Act.wp_bind, Act.wp_get, Act.wp_ite, Act.wp_map, Act.wp_pure]
  refine ⟨fun hcan => ?_, fun hcan => ⟨fun h => absurd h hcan, trivial, trivial⟩⟩
  refine Act.wp_mono (Act.wp_and (sendCommitmentSigned_spec ch)
    (sendCommitmentSigned_error hcp hf hcan)) ?_ fun _ _ h => h.2
  intro m ch' hm
  obtain ⟨⟨point, b, -, -, -, -, -, -, -, -, -, rfl⟩, -⟩ := hm
  exact ⟨fun _ => rfl, rfl, rfl⟩

/-! ## The theorem -/

/-- The peer's keys and the outpoint are not touched by a flush. -/
theorem FlushesOps.keys {ops : List HoldingCellOp} {os : List RaaOutcome}
    (h : FlushesOps C ch ops os ch') : ch'.counterpartyPubkeys = ch.counterpartyPubkeys ∧
      ch'.fundingOutpoint = ch.fundingOutpoint := by
  induction h with
  | nil => exact ⟨rfl, rfl⟩
  | cons hop _ ih =>
    refine ⟨ih.1.trans ?_, ih.2.trans ?_⟩ <;> cases hop <;> rfl

/-- A `revoke_and_ack` that is refused changes nothing. -/
theorem onRevokeAndAck_refused (huse : InUse ch) {msg : Wire.RevokeAndAck} {e : ChannelError}
    (herr : onRevokeAndAck C msg ch = .error (.err e) ch') : ch' = ch := by
  rcases Act.wp_error (onRevokeAndAck_spec msg ch) herr with h | h
  · exact h
  · obtain ⟨pending, secrets, os, ch₁, ha, -, hos, hcs⟩ := h
    obtain ⟨⟨cp, hcp⟩, f, hfund⟩ := huse.keyed ha
    have hpanic := Act.wp_error (maybeSendCommitmentSigned_spec
      (hos.keys.1.trans hcp) (hos.keys.2.trans hfund)) hcs
    cases hpanic

/-- An accepted `revoke_and_ack` flushes the whole holding cell, in order: each operation yields what
`FlushesOp` says and nothing else, the adds take consecutive ids, and what is sent is signed. A flush
never parks an operation again, from whatever state without a commitment in flight. And a
`revoke_and_ack` that is refused changes nothing. -/
theorem holding_cell_flush {ch₀ : Channel} {tr : Trace Input ChannelError (List Wire.Message)}
    (h₀ : Fresh C ch₀) (hr : Run (step C) ch₀ tr ch) (msg : Wire.RevokeAndAck) :
    (∀ o ch', onRevokeAndAck C msg ch = .ok o ch' →
      ch'.holdingCell = [] ∧
      (∃ pending secrets os ch₁, ch.pendingCounterpartyCommitment = some pending ∧
        FlushesOps C (ch.revoked pending secrets msg.nextPerCommitmentPoint) ch.holdingCell os ch₁ ∧
        o.messages = os.flatMap (·.messages) ∧ o.failedAdds = os.flatMap (·.failedAdds)) ∧
      (∃ n, o.messages.filterMap addId = List.range' ch.nextHolderHtlcId n ∧
        ch'.nextHolderHtlcId = ch.nextHolderHtlcId + n) ∧
      (o.messages ≠ [] → o.commitmentSigned.isSome)) ∧
    (∀ e ch', onRevokeAndAck C msg ch = .error (.err e) ch' → ch' = ch) ∧
    ∀ ops ch₁, ch₁.awaitingRaa = false →
      ∃ o ch₂, flushOps C ops ch₁ = .ok o ch₂ ∧ ch₂.awaitingRaa = false := by
  have huse := inUse_of_run h₀ hr
  refine ⟨fun o ch' hok => ?_, fun e ch' herr => onRevokeAndAck_refused huse herr,
    fun ops ch₁ ha => ?_⟩
  · obtain ⟨pending, secrets, os, ch₁, ha, hp, hos, hcs, hm, hf, -⟩ :=
      Act.wp_ok (onRevokeAndAck_spec msg ch) hok
    obtain ⟨⟨cp, hcp⟩, f, hfund⟩ := huse.keyed ha
    obtain ⟨h1, h2, h3, h4, h5⟩ := hos.frame
    obtain ⟨n, hn, hids⟩ := hos.addIds
    obtain ⟨hcan, hcell, hnext⟩ := Act.wp_ok (maybeSendCommitmentSigned_spec
      (hos.keys.1.trans hcp) (hos.keys.2.trans hfund)) hcs
    refine ⟨hcell.trans h2, ⟨pending, secrets, os, ch₁, hp, hos, hm, hf⟩, ⟨n, hm ▸ hids, ?_⟩,
      fun hne => hcan ?_⟩
    · exact hnext.trans hn
    · have hst : ch₁.state = .normal ∨ ch₁.state = .shuttingDown := by
        rw [h3]
        by_contra hno
        obtain ⟨hno1, hno2⟩ := not_or.1 hno
        cases ha.symm.trans (huse.dormant hno1 hno2).2.2
      have hd : ch₁.counterpartyDirty = true := h5 (.inl (hm ▸ hne))
      have ha₁ : ch₁.awaitingRaa = false := h1
      have hpt : ch₁.counterpartyNextPoint = some msg.nextPerCommitmentPoint := h4
      rcases hst with hst | hst <;> simp [canSendCommitment, hd, ha₁, hpt, hst]
  · obtain ⟨o, ch₂, hrun, os, hos, -⟩ := Act.wp_total (flushOps_spec (C := C) ops ha)
    exact ⟨o, ch₂, hrun, hos.frame.1.trans ha⟩

/-- The offerer of a payment has parked a second one; the `revoke_and_ack` it waits for. -/
theorem holding_cell_flush_alice :
    ∃ tr ch o ch', Run (step Demo.C) Demo.alice.1 tr ch ∧ ch.holdingCell.length = 1 ∧
      onRevokeAndAck Demo.C ⟨ch.channelId, (Demo.signer 2).releaseCommitmentSecret 0,
        (Demo.signer 2).perCommitmentPoint 2⟩ ch = .ok o ch' ∧
      ch'.holdingCell = [] ∧ o.messages ≠ [] ∧ o.commitmentSigned.isSome := by
  obtain ⟨tr, ch, hr, ⟨hlen, hraa⟩, -⟩ := Demo.exists_chan
    (Demo.handshake ++ Demo.payment.take 2 ++ Demo.payment.take 1) .a
    (fun ch => ch.holdingCell.length = 1 ∧
      Act.wp (onRevokeAndAck Demo.C ⟨ch.channelId, (Demo.signer 2).releaseCommitmentSecret 0,
        (Demo.signer 2).perCommitmentPoint 2⟩) ch (fun o _ => o.messages ≠ []) fun _ _ => False)
    (by decide +kernel)
  obtain ⟨o, ch', hok, hne⟩ := Act.wp_total hraa
  obtain ⟨hcell, -, -, hsigned⟩ := (holding_cell_flush Demo.alice_fresh hr _).1 o ch' hok
  exact ⟨tr, ch, o, ch', hr, hlen, hok, hcell, hne, hsigned hne⟩

end Channel
