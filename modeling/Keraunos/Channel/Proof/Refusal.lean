import Keraunos.Channel.Pair
import Keraunos.Channel.Proof.Flush

/-!
# Which refused operations leave a change behind

`Ignore` and `InvalidState` are refusals: the operation is not carried out and the channel goes on.
Two handlers write to the channel before a call of theirs is refused: `on_shutdown`, when our own
script is no witness program, and `on_closing_signed`, when the closing transaction has no outputs or
the fee ranges do not overlap. `refusals_clean_iff` is exact: every other refusal of every operation
leaves the channel as it was.
-/

open Bitcoin Commitment

/-- An operation that is not carried out. -/
def Fault.Refuses : Fault ChannelError → Prop
  | .err (.ignore _) | .err (.invalidState _) => True
  | _ => False

instance (e : Fault ChannelError) : Decidable e.Refuses :=
  match e with
  | .err (.ignore _) | .err (.invalidState _) => .isTrue trivial
  | .err (.close _) | .panic => .isFalse id

namespace Channel

variable {C : Crypto} {ch ch' ch₀ : Channel}

/-- When `x`, run from `s`, is refused it ends in `ch`. -/
abbrev RefusedIn {α : Type} (x : ChannelAct α) (s ch : Channel) : Prop :=
  x.wp s (fun _ _ => True) fun e ch' => e.Refuses → ch' = ch

/-- When `x` is refused it has changed nothing. -/
abbrev Clean {α : Type} (x : ChannelAct α) (ch : Channel) : Prop := RefusedIn x ch ch

theorem clean_of_error {α : Type} {x : ChannelAct α} {Q : α → Channel → Prop}
    (h : x.wp ch Q fun _ ch' => ch' = ch) : Clean x ch :=
  Act.wp_mono h (fun _ _ _ => trivial) fun _ _ h _ => h

theorem refusedIn_of_total {α : Type} {x : ChannelAct α} {s : Channel} {Q : α → Channel → Prop}
    (h : x.wp s Q fun _ _ => False) : RefusedIn x s ch :=
  Act.wp_mono h (fun _ _ _ => trivial) fun _ _ hf _ => hf.elim

/-- The first part is refused, or the second. -/
theorem refusedIn_bind {α β : Type} {x : ChannelAct α} {f : α → ChannelAct β} {s : Channel}
    (hx : RefusedIn x s ch) (hf : ∀ a s', RefusedIn (f a) s' ch) : RefusedIn (x >>= f) s ch :=
  (Act.wp_bind x f).2 (Act.wp_mono hx (fun a s' _ => hf a s') fun _ _ h => h)

theorem refusedIn_get {α : Type} {f : Channel → ChannelAct α} {s : Channel} :
    RefusedIn (get >>= f) s ch ↔ RefusedIn (f s) s ch := Act.wp_bind _ f

theorem refusedIn_require {α : Type} {c : Prop} [Decidable c] {e : ChannelError}
    {f : Unit → ChannelAct α} {s : Channel} :
    RefusedIn (Act.lift (Fault.require c e) >>= f) s ch ↔
      (c → RefusedIn (f ()) s ch) ∧ (¬ c → (Fault.err e).Refuses → s = ch) := by
  by_cases hc : c
  · simp only [RefusedIn, Fault.require, hc, if_true, Act.wp_bind, Act.wp_lift, not_true_eq_false,
      false_implies, and_true, true_implies, reduceCtorEq, implies_true]
    exact ⟨fun h => h (), fun h _ => h⟩
  · simp [RefusedIn, Fault.require, hc]

theorem close_not_refuses (m : String) : ¬ (Fault.err (ChannelError.close m)).Refuses := id

theorem panic_not_refuses : ¬ Fault.Refuses .panic := id

/-! ## Opening -/

/-- The accepter knows the peer's keys. -/
def Acquainted (ch : Channel) : Prop :=
  ch.state = .acceptSent → ∃ cp, ch.counterpartyPubkeys = some cp

theorem Fresh.acquainted (h : Fresh C ch) : Acquainted ch := by
  cases h with
  | outbound h =>
    unfold newOutbound at h
    split at h
    · cases h
    · cases h
      nofun
  | inbound h =>
    obtain ⟨_, -, h⟩ := Fault.bind_eq_ok.1 h
    cases h
    exact fun _ => ⟨_, rfl⟩

theorem Move.acquainted (hm : Move C ch ch') (h : Acquainted ch) : Acquainted ch' := by
  cases hm with
  | negotiate => exact fun _ => ⟨_, rfl⟩
  | signInitial _ _ st _ hst =>
    intro hacc
    obtain rfl : st = .acceptSent := hacc
    cases hst
  | admin a ha =>
    intro hacc
    replace hacc : a.state = .acceptSent := hacc
    rcases ha with ha | ⟨-, ha⟩
    · exact h (ha ▸ hacc)
    · rw [hacc] at ha
      cases ha
  | _ => exact h

theorem acquainted_of_run {tr : Trace Input ChannelError (List Wire.Message)} (h₀ : Fresh C ch₀)
    (hr : Run (step C) ch₀ tr ch) : Acquainted ch := by
  refine Run.invariant (A := fun _ => True) h₀.acquainted (fun ch i _ h => ?_) hr fun _ _ => trivial
  refine (step_stepped i ch).mono fun _ hs => ?_
  cases hs with
  | moves _ hm => exact hm.invariant (fun _ _ hm h => hm.acquainted h) h
  | refused => exact h
  | accepted | rolledBack => exact h

theorem buildHolderCommitmentAt_error {cp : ChannelPublicKeys} {f : OutPoint} {n : Nat}
    {e : Fault ChannelError} (hcp : ch.counterpartyPubkeys = some cp)
    (hf : ch.fundingOutpoint = some f) (h : ch.buildHolderCommitmentAt C n = .error e) :
    e = .panic := by
  simp only [buildHolderCommitmentAt, counterparty, Fault.bind_eq_error, Fault.okOr_eq_error,
    Fault.okOr_eq_ok, Fault.expect_eq_error, hcp, hf, reduceCtorEq, false_and, false_or] at h
  obtain ⟨_, -, ⟨-, he⟩ | ⟨keys, -, _, -, ⟨-, he⟩ | ⟨_, -, h⟩⟩⟩ := h
  · exact he
  · exact he
  · cases h

/-- A signature over a commitment is not refused: a bad one closes the channel. -/
theorem verifyCounterpartyFundingSig_error {cp : ChannelPublicKeys} {built : BuiltCommitmentTx}
    {sig : Signature} {e : Fault ChannelError} (hcp : ch.counterpartyPubkeys = some cp)
    (h : ch.verifyCounterpartyFundingSig C built sig = .error e) : ¬ e.Refuses := by
  simp only [verifyCounterpartyFundingSig, fundingSighash, counterparty, Fault.bind_eq_error,
    Fault.okOr_eq_error, Fault.require_eq_error, hcp, reduceCtorEq, false_and, false_or] at h
  obtain ⟨_, -, ⟨_, -, h⟩ | ⟨_, -, -, rfl⟩⟩ := h
  · cases h
  · exact close_not_refuses _

/-- With the peer's keys and the funding outpoint our commitment 0 is not refused. -/
theorem storeInitialHolderCommitment_error (ch : Channel) {cp : ChannelPublicKeys} {f : OutPoint}
    (hcp : ch.counterpartyPubkeys = some cp) (hf : ch.fundingOutpoint = some f) (sig : Signature) :
    Act.wp (storeInitialHolderCommitment C sig) ch (fun _ _ => True) fun e _ => ¬ e.Refuses := by
  simp only [storeInitialHolderCommitment, Act.wp_bind, Act.wp_get, Act.wp_lift, Act.wp_set]
  refine ⟨fun b _ => ⟨fun _ _ => trivial, fun e he => ?_⟩, fun e he => ?_⟩
  · exact verifyCounterpartyFundingSig_error hcp he
  · rw [buildHolderCommitmentAt_error hcp hf he]
    exact panic_not_refuses

theorem onFundingCreated_clean (h : Acquainted ch) (msg : Wire.FundingCreated) :
    Clean (onFundingCreated C msg) ch := by
  simp only [Clean, RefusedIn, onFundingCreated, Act.wp_bind, Act.wp_get, Act.wp_lift, Act.wp_set,
    Act.wp_modify, Act.wp_pure, Fault.require_eq_ok]
  refine ⟨fun _ hst => ?_, fun _ _ _ => trivial⟩
  obtain ⟨cp, hcp⟩ := h hst
  have hstored : Act.wp (storeInitialHolderCommitment C msg.signature) (ch.bound msg) _ _ :=
    Act.wp_and (storeInitialHolderCommitment_spec _ _)
      (storeInitialHolderCommitment_error (ch.bound msg) hcp rfl _)
  refine Act.wp_mono hstored ?_ fun _ _ he hr => absurd hr he.2
  intro _ ch₁ hstore
  obtain ⟨⟨b, -, -, rfl⟩, -⟩ := hstore
  refine Act.wp_mono (signInitialCounterpartyCommitment_error _ hcp rfl) (fun _ _ _ => trivial) ?_
  intro e _ he hr
  rw [he] at hr
  exact absurd hr panic_not_refuses

theorem onFundingSigned_clean (msg : Wire.FundingSigned) : Clean (onFundingSigned C msg) ch := by
  simp only [Clean, RefusedIn, onFundingSigned, Act.wp_bind, Act.wp_get, Act.wp_lift, Act.wp_modify]
  refine ⟨fun _ _ => ⟨fun _ _ => ?_, fun _ _ _ => trivial⟩, fun _ _ _ => trivial⟩
  exact Act.wp_mono (storeInitialHolderCommitment_spec _ _) (fun _ _ _ => trivial) fun _ _ he _ => he

theorem fundingCreated_clean (txid : Txid) (index : Nat) :
    Clean (fundingCreated C txid index) ch := by
  refine Act.wp_mono (fundingCreated_ids ch txid index) (fun _ _ _ => trivial) fun e ch' he hr => ?_
  cases e with
  | err e => exact he e rfl
  | panic => exact absurd hr panic_not_refuses

/-! ## Updates -/

theorem sendRemoval_clean {M : Type} (op : HoldingCellOp) (id : HtlcId) (r : HtlcResolution)
    (check : Htlc → ChannelResult Unit) (msg : ChannelId → M) :
    Clean (sendRemoval op id r check msg) ch :=
  clean_of_error (sendRemoval_spec op id r check msg ch)

theorem onRemoval_clean (id : HtlcId) (r : HtlcResolution) (check : Htlc → ChannelResult Unit) :
    Clean (onRemoval id r check) ch := by
  refine Act.wp_mono (onRemoval_spec id r check ch) (fun _ _ _ => trivial) fun e ch' he hr => ?_
  rcases he with he | ⟨rfl, -⟩
  · exact he
  · exact absurd hr panic_not_refuses

theorem onRevokeAndAck_clean (huse : InUse ch) (msg : Wire.RevokeAndAck) :
    Clean (onRevokeAndAck C msg) ch := by
  refine Act.wp_iff.2 ⟨fun _ _ _ => trivial, fun e ch' he hr => ?_⟩
  cases e with
  | err e => exact onRevokeAndAck_refused huse he
  | panic => exact absurd hr panic_not_refuses

/-! ## Shutdown -/

/-- The peer's `shutdown` is taken and our own script is refused. -/
def ShutdownHalfApplied (ch : Channel) (msg : Wire.Shutdown) (ourScript : Script) : Prop :=
  (ch.state = .normal ∨ ch.state = .awaitingChannelReady ∨ ch.state = .shuttingDown) ∧
    isWitnessProgram msg.scriptpubkey = true ∧ ch.shutdownSent = false ∧
    isWitnessProgram ourScript = false ∧
    ¬ (ch.state = .shuttingDown ∧ ch.shutdownReceived = true ∧
      ch.counterpartyShutdownScript = some msg.scriptpubkey)

/-- `send_shutdown` while shutting down refuses no more than the script. -/
theorem sendShutdown_refused (script : Script) {s : Channel} (hst : s.state = .shuttingDown)
    (hsent : s.shutdownSent = false) :
    RefusedIn (sendShutdown script) s ch ↔ (isWitnessProgram script = false → s = ch) := by
  simp only [RefusedIn, sendShutdown, Act.wp_bind, Act.wp_get, Act.wp_lift, Act.wp_set, Act.wp_pure,
    hst, hsent, Fault.require_eq_ok, Fault.require_eq_error]
  cases isWitnessProgram script <;> simp [Fault.Refuses]

/-- The channel with the peer's `shutdown`. -/
def withShutdown (ch : Channel) (script : Script) : Channel :=
  { ch with
    counterpartyShutdownScript := some script, shutdownReceived := true, state := .shuttingDown }

theorem withShutdown_eq (script : Script) : ch.withShutdown script = ch ↔
    ch.state = .shuttingDown ∧ ch.shutdownReceived = true ∧
      ch.counterpartyShutdownScript = some script := by
  constructor
  · intro h
    rw [← h]
    exact ⟨rfl, rfl, rfl⟩
  · intro ⟨hst, hrecv, hscript⟩
    rw [withShutdown, ← hst, ← hrecv, ← hscript]

theorem onShutdown_clean_iff (msg : Wire.Shutdown) (ourScript : Script) :
    Clean (onShutdown msg ourScript) ch ↔ ¬ ch.ShutdownHalfApplied msg ourScript := by
  have hours : ch.shutdownSent = false →
      (RefusedIn (sendShutdown ourScript) (ch.withShutdown msg.scriptpubkey) ch ↔
        (isWitnessProgram ourScript = false → ch.withShutdown msg.scriptpubkey = ch)) :=
    fun hsent => sendShutdown_refused ourScript rfl hsent
  have hpeer : Clean (onShutdown msg ourScript) ch ↔
      ((ch.state = .normal ∨ ch.state = .awaitingChannelReady ∨ ch.state = .shuttingDown) →
        isWitnessProgram msg.scriptpubkey = true → ch.shutdownSent = false →
        RefusedIn (sendShutdown ourScript) (ch.withShutdown msg.scriptpubkey) ch) := by
    simp only [Clean, RefusedIn, onShutdown, Act.wp_bind, Act.wp_get, Act.wp_lift, Act.wp_set,
      Act.wp_ite, Act.wp_map, Act.wp_pure, Fault.require_eq_ok, implies_true, and_true, true_and,
      Bool.not_eq_true]
    exact ⟨fun h hst hscript hsent => h () hst () hscript hsent, fun h _ hst _ hscript hsent =>
      h hst hscript hsent⟩
  rw [hpeer, ShutdownHalfApplied, ← withShutdown_eq]
  constructor
  · rintro h ⟨hst, hscript, hsent, hbad, hnew⟩
    exact hnew ((hours hsent).1 (h hst hscript hsent) hbad)
  · intro h hst hscript hsent
    refine (hours hsent).2 fun hbad => ?_
    by_contra hnew
    exact h ⟨hst, hscript, hsent, hbad, hnew⟩

/-! ## Closing -/

/-- A closing transaction with this fee can be built. -/
def Closes (C : Crypto) (ch : Channel) (feeSat : Nat) : Prop :=
  ∃ signed, ch.buildAndSignClosing C feeSat = .ok signed

theorem buildAndSignClosing_error {fee : Nat} {e : Fault ChannelError}
    (h : ch.buildAndSignClosing C fee = .error e) : e.Refuses := by
  simp only [buildAndSignClosing, fundingSighash, counterparty, Fault.bind_eq_error,
    Fault.okOr_eq_error, Fault.require_eq_error] at h
  obtain ⟨-, rfl⟩ | ⟨_, -, ⟨-, rfl⟩ | ⟨_, -, ⟨-, rfl⟩ | ⟨_, -, ⟨-, rfl⟩ | ⟨_, -, h⟩⟩⟩⟩ := h
  · trivial
  · trivial
  · trivial
  · trivial
  · obtain (⟨-, rfl⟩ | ⟨_, -, h⟩) | ⟨_, -, h⟩ := h
    · trivial
    · cases h
    · cases h

theorem Closes.counterparty {fee : Nat} (h : ch.Closes C fee) :
    ∃ cp, ch.counterpartyPubkeys = some cp := by
  obtain ⟨_, h⟩ := h
  simp only [buildAndSignClosing, fundingSighash, Channel.counterparty, Fault.bind_eq_ok,
    Fault.okOr_eq_ok] at h
  obtain ⟨_, -, _, -, _, -, _, -, _, ⟨cp, hcp, -⟩, -⟩ := h
  exact ⟨cp, hcp⟩

theorem finalizeClosing_total {fee : Nat} (h : ch.Closes C fee) (sig : Signature) :
    (finalizeClosing C fee sig).wp ch (fun _ ch' => ch'.Closes C fee) fun _ _ => False := by
  obtain ⟨cp, hcp⟩ := h.counterparty
  have hclose := h
  obtain ⟨signed, hs⟩ := h
  simp only [finalizeClosing, Act.wp_bind, Act.wp_get, Act.wp_lift, Act.wp_set, Act.wp_pure]
  refine ⟨fun _ _ => ⟨fun _ _ => hclose, fun e he => ?_⟩, fun e he => ?_⟩
  · rw [Channel.counterparty, hcp] at he
    cases he
  · cases hs.symm.trans he

theorem closingSigned_eq_error {fee : Nat} {range : Option (Nat × Nat)} {e : Fault ChannelError} :
    ch.closingSigned C fee range = .error e ↔ ch.buildAndSignClosing C fee = .error e := by
  simp only [closingSigned, Fault.bind_eq_error]
  refine or_iff_left ?_
  rintro ⟨_, _, h⟩
  cases h

/-- A fee that can be closed at is accepted. -/
theorem acceptClosingFee_total {fee : Nat} (h : ch.Closes C fee) (sig : Signature)
    (range : Option (Nat × Nat)) :
    (acceptClosingFee C fee sig range).wp ch (fun _ _ => True) fun _ _ => False := by
  simp only [acceptClosingFee, Act.wp_bind, Act.wp_get, Act.wp_lift, Act.wp_pure]
  refine Act.wp_mono (finalizeClosing_total h sig) ?_ fun _ _ hf => hf
  intro _ ch' hclose
  obtain ⟨signed, hs⟩ := hclose
  refine ⟨fun _ _ => trivial, fun e he => ?_⟩
  cases hs.symm.trans (closingSigned_eq_error.1 he)

/-- A fee is proposed unless it cannot be closed at. -/
theorem proposeClosingFee_refused {fee : Nat} (range : Option (Nat × Nat)) {s : Channel} :
    RefusedIn (proposeClosingFee C fee range) s ch ↔ (¬ s.Closes C fee → s = ch) := by
  simp only [RefusedIn, proposeClosingFee, Act.wp_bind, Act.wp_get, Act.wp_lift, Act.wp_pure,
    implies_true, true_and, closingSigned_eq_error]
  cases hb : s.buildAndSignClosing C fee with
  | ok signed => exact ⟨fun _ hn => absurd ⟨signed, hb⟩ hn, fun _ _ he => by cases he⟩
  | error e =>
    constructor
    · intro h _
      exact h e rfl (buildAndSignClosing_error hb)
    · intro h _ _ _
      refine h fun hcloses => ?_
      obtain ⟨_, hs⟩ := hcloses
      cases hb.symm.trans hs

/-- The channel once a `closing_signed` is taken. -/
def negotiating (ch : Channel) : Channel := { ch with state := .negotiatingClose }

theorem negotiating_eq (h : ch.readyToNegotiateClose = true) :
    ch.negotiating = ch ↔ ch.state ≠ .shuttingDown := by
  simp only [readyToNegotiateClose, Bool.and_eq_true, Bool.or_eq_true, decide_eq_true_eq] at h
  have hst : ch.state = .shuttingDown ∨ ch.state = .negotiatingClose := h.1.1.1.1.1.1
  rcases hst with hst | hst
  · refine iff_of_false (fun heq => ?_) (fun hne => hne hst)
    cases hst.symm.trans (congrArg Channel.state heq.symm)
  · refine iff_of_true ?_ fun hs => by cases hst.symm.trans hs
    rw [negotiating, ← hst]

/-- The channel once we propose a fee. -/
def proposing (ch : Channel) (fee : Nat) : Channel :=
  { ch.negotiating with lastClosingFeeProposal := some fee }

/-- The fee we propose inside the overlap of the ranges. -/
def overlapFee (bounds : Nat × Nat × Nat) (range : Wire.ClosingSignedFeeRange) : Nat :=
  max (max bounds.2.1 range.minFeeSatoshis) (min bounds.1 (min bounds.2.2 range.maxFeeSatoshis))

/-- A `closing_signed` with a range is refused: the ranges do not overlap, or there is no transaction
for the fee we pick. -/
def RangeHalfApplied (C : Crypto) (ch : Channel) (msg : Wire.ClosingSigned)
    (bounds : Nat × Nat × Nat) (range : Wire.ClosingSignedFeeRange) : Prop :=
  if max bounds.2.1 range.minFeeSatoshis ≤ min bounds.2.2 range.maxFeeSatoshis then
    ch.role ≠ .opener ∧ ch.lastClosingFeeProposal = none ∧
      overlapFee bounds range ≠ msg.feeSatoshis ∧ ¬ ch.Closes C (overlapFee bounds range)
  else ch.state = .shuttingDown

theorem negotiateInRange_refused {msg : Wire.ClosingSigned} (hready : ch.readyToNegotiateClose = true)
    (hclose : ch.Closes C msg.feeSatoshis) (bounds : Nat × Nat × Nat)
    (range : Wire.ClosingSignedFeeRange) :
    RefusedIn (negotiateInRange C msg bounds range) ch.negotiating ch ↔
      ¬ ch.RangeHalfApplied C msg bounds range := by
  have haccept : ∀ s : Channel, s.Closes C msg.feeSatoshis →
      RefusedIn (acceptClosingFee C msg.feeSatoshis msg.signature (some bounds.2)) s ch :=
    fun _ hs => refusedIn_of_total (acceptClosingFee_total hs _ _)
  have hfinal : ∀ s : Channel, s.Closes C msg.feeSatoshis →
      RefusedIn (finalizeClosing C msg.feeSatoshis msg.signature) s ch :=
    fun _ hs => refusedIn_of_total (finalizeClosing_total hs _)
  rw [negotiateInRange, refusedIn_get, refusedIn_require, RangeHalfApplied]
  by_cases hover : max bounds.2.1 range.minFeeSatoshis ≤ min bounds.2.2 range.maxFeeSatoshis
  · rw [if_pos hover, and_iff_left fun hn => absurd hover hn, forall_prop_of_true hover]
    by_cases hrole : ch.role = .opener
    · rw [if_pos (show ch.negotiating.role = .opener from hrole), refusedIn_require]
      refine iff_of_true ⟨fun _ => ?_, fun _ hr => absurd hr (close_not_refuses _)⟩
        fun h => h.1 hrole
      exact refusedIn_bind (haccept _ hclose) fun _ _ => trivial
    · rw [if_neg (show ch.negotiating.role ≠ .opener from hrole)]
      cases hlast : ch.lastClosingFeeProposal with
      | some sent =>
        rw [show ch.negotiating.lastClosingFeeProposal = some sent from hlast]
        refine iff_of_true ?_ fun h => by cases h.2.1
        refine refusedIn_require.2 ⟨fun _ => ?_, fun _ hr => absurd hr (close_not_refuses _)⟩
        exact refusedIn_bind (hfinal _ hclose) fun _ _ => trivial
      | none =>
        rw [show ch.negotiating.lastClosingFeeProposal = none from hlast]
        have hclamp : clamp bounds.1 (max bounds.2.1 range.minFeeSatoshis)
            (min bounds.2.2 range.maxFeeSatoshis) = some (overlapFee bounds range) := if_pos hover
        have hprop : ch.proposing (overlapFee bounds range) ≠ ch := fun heq =>
          (by cases hlast.symm.trans (congrArg Channel.lastClosingFeeProposal heq.symm))
        rw [hclamp]
        show RefusedIn (if overlapFee bounds range = msg.feeSatoshis then _ else _)
          (ch.proposing (overlapFee bounds range)) ch ↔ _
        by_cases hfee : overlapFee bounds range = msg.feeSatoshis
        · rw [if_pos hfee, hfee]
          exact iff_of_true (haccept _ hclose) fun h => h.2.2.1 rfl
        · rw [if_neg hfee, proposeClosingFee_refused]
          exact ⟨fun h hhalf => hprop (h hhalf.2.2.2), fun h hn =>
            absurd ⟨hrole, rfl, hfee, hn⟩ h⟩
  · rw [if_neg hover, and_iff_right fun hn => absurd hn hover]
    exact ⟨fun h => (negotiating_eq hready).1 (h hover trivial), fun h _ _ =>
      (negotiating_eq hready).2 h⟩

/-- The fee a `closing_signed` without a range is answered with. -/
def legacyFee (ch : Channel) (ourFee theirFee : Nat) : Nat :=
  match ch.lastClosingFeeProposal with
  | none => ourFee
  | some sent =>
    if (theirFee - sent) + (sent - theirFee) ≤ 1 then theirFee else (theirFee + sent) / 2

/-- A fee other than theirs is not the one we proposed before. -/
theorem legacyFee_ne {ourFee theirFee : Nat} (h : ch.legacyFee ourFee theirFee ≠ theirFee) :
    ch.lastClosingFeeProposal ≠ some (ch.legacyFee ourFee theirFee) := by
  intro hlast
  have hfee : ch.legacyFee ourFee theirFee = if (theirFee - ch.legacyFee ourFee theirFee) +
      (ch.legacyFee ourFee theirFee - theirFee) ≤ 1 then theirFee
      else (theirFee + ch.legacyFee ourFee theirFee) / 2 := by
    conv_lhs => rw [legacyFee, hlast]
  split at hfee
  · exact h hfee
  · omega

theorem negotiateLegacy_refused {msg : Wire.ClosingSigned} (hclose : ch.Closes C msg.feeSatoshis)
    (ourFee : Nat) :
    RefusedIn (negotiateLegacy C msg ourFee) ch.negotiating ch ↔
      ¬ (ch.legacyFee ourFee msg.feeSatoshis ≠ msg.feeSatoshis ∧
        ¬ ch.Closes C (ch.legacyFee ourFee msg.feeSatoshis)) := by
  show RefusedIn (if ch.legacyFee ourFee msg.feeSatoshis = msg.feeSatoshis then _ else _)
    (ch.proposing (ch.legacyFee ourFee msg.feeSatoshis)) ch ↔ _
  by_cases hfee : ch.legacyFee ourFee msg.feeSatoshis = msg.feeSatoshis
  · rw [if_pos hfee, hfee]
    have hprop : (ch.proposing msg.feeSatoshis).Closes C msg.feeSatoshis := hclose
    exact iff_of_true (refusedIn_of_total (acceptClosingFee_total hprop _ _)) fun h => h.1 rfl
  · rw [if_neg hfee, proposeClosingFee_refused]
    have hprop : ch.proposing (ch.legacyFee ourFee msg.feeSatoshis) ≠ ch := fun heq =>
      legacyFee_ne hfee (congrArg Channel.lastClosingFeeProposal heq.symm)
    exact ⟨fun h hhalf => hprop (h hhalf.2), fun h hn => absurd ⟨hfee, hn⟩ h⟩

/-- The `closing_signed` of a quiescent channel is refused after the negotiation has moved: there is
no transaction for their fee, or what we would answer is refused. -/
def ClosingHalfApplied (C : Crypto) (ch : Channel) (msg : Wire.ClosingSigned)
    (feerate : FeeRatePerKw) : Prop :=
  ch.readyToNegotiateClose = true ∧
    (ch.state = .shuttingDown ∧ ¬ ch.Closes C msg.feeSatoshis ∨
      ch.verifyTheirClosingSig C msg.feeSatoshis msg.signature = .ok () ∧
        some msg.feeSatoshis ≠ ch.lastClosingFeeProposal ∧
        ∃ bounds, ch.closingFeeBounds feerate = some bounds ∧
          match msg.feeRange with
          | some range => ch.RangeHalfApplied C msg bounds range
          | none => ch.legacyFee bounds.1 msg.feeSatoshis ≠ msg.feeSatoshis ∧
              ¬ ch.Closes C (ch.legacyFee bounds.1 msg.feeSatoshis))

theorem verifyTheirClosingSig_closes {fee : Nat} {sig : Signature}
    (h : ch.verifyTheirClosingSig C fee sig = .ok ()) : ch.Closes C fee := by
  simp only [verifyTheirClosingSig, Fault.bind_eq_ok] at h
  obtain ⟨signed, hs, -⟩ := h
  exact ⟨signed, hs⟩

/-- A closing signature is refused when there is no transaction; a bad one closes the channel. -/
theorem verifyTheirClosingSig_error {fee : Nat} {sig : Signature} {e : Fault ChannelError}
    (h : ch.verifyTheirClosingSig C fee sig = .error e) : e.Refuses ↔ ¬ ch.Closes C fee := by
  by_cases hc : ch.Closes C fee
  · obtain ⟨cp, hcp⟩ := hc.counterparty
    refine iff_of_false ?_ (not_not_intro hc)
    obtain ⟨signed, hs⟩ := hc
    simp only [verifyTheirClosingSig, fundingSighash, Channel.counterparty, hs, hcp,
      Fault.bind_eq_error, Fault.okOr_eq_error, Fault.require_eq_error, reduceCtorEq, false_and,
      false_or] at h
    obtain ⟨_, -, _, -, ⟨_, -, h⟩ | ⟨_, -, -, rfl⟩⟩ := h
    · cases h
    · exact close_not_refuses _
  · refine iff_of_true ?_ hc
    cases hb : ch.buildAndSignClosing C fee with
    | ok signed => exact absurd ⟨signed, hb⟩ hc
    | error e' =>
      rw [verifyTheirClosingSig, hb] at h
      cases h
      exact buildAndSignClosing_error hb

theorem onClosingSigned_clean_iff (msg : Wire.ClosingSigned) (feerate : FeeRatePerKw) :
    Clean (onClosingSigned C msg feerate) ch ↔ ¬ ch.ClosingHalfApplied C msg feerate := by
  rw [Clean, onClosingSigned, refusedIn_get, refusedIn_require, ClosingHalfApplied]
  by_cases hready : ch.readyToNegotiateClose = true
  · rw [and_iff_left fun hn => absurd hready hn, forall_prop_of_true hready, and_iff_right hready]
    show RefusedIn (Act.lift (ch.verifyTheirClosingSig C msg.feeSatoshis msg.signature) >>= _)
      ch.negotiating ch ↔ _
    cases hv : ch.verifyTheirClosingSig C msg.feeSatoshis msg.signature with
    | error e =>
      have hrefuses := verifyTheirClosingSig_error hv
      rw [or_iff_left fun h => by cases h.1]
      show (e.Refuses → ch.negotiating = ch) ↔ _
      rw [hrefuses, negotiating_eq hready]
      exact ⟨fun h hhalf => h hhalf.2 hhalf.1, fun h hn hst => h ⟨hst, hn⟩⟩
    | ok u =>
      have hclose := verifyTheirClosingSig_closes hv
      rw [or_iff_right fun h => h.2 hclose, and_iff_right rfl]
      show RefusedIn (if some msg.feeSatoshis = ch.lastClosingFeeProposal then _ else _)
        ch.negotiating ch ↔ _
      by_cases hlast : some msg.feeSatoshis = ch.lastClosingFeeProposal
      · have hneg : ch.negotiating.Closes C msg.feeSatoshis := hclose
        rw [if_pos hlast]
        refine iff_of_true ?_ fun h => h.1 hlast
        exact refusedIn_bind (refusedIn_of_total (finalizeClosing_total hneg _)) fun _ _ => trivial
      · rw [if_neg hlast, and_iff_right hlast]
        cases hbounds : ch.closingFeeBounds feerate with
        | none =>
          refine iff_of_true (fun hr => absurd hr panic_not_refuses) ?_
          rintro ⟨_, h, -⟩
          cases h
        | some bounds =>
          have hthese : ∀ P : Nat × Nat × Nat → Prop, (∃ b, some bounds = some b ∧ P b) ↔ P bounds :=
            fun P => by simp
          rw [hthese]
          cases hrange : msg.feeRange with
          | some range => exact negotiateInRange_refused hready hclose bounds range
          | none => exact negotiateLegacy_refused hclose bounds.1
  · exact iff_of_true ⟨fun h => absurd h hready, fun _ hr => absurd hr (close_not_refuses _)⟩
      fun h => hready h.1

/-! ## The theorem -/

/-- The input is refused when part of it is already applied. -/
def HalfApplied (C : Crypto) (ch : Channel) : Input → Prop
  | .shutdown msg ourScript => ch.ShutdownHalfApplied msg ourScript
  | .closingSigned msg feerate => ch.ClosingHalfApplied C msg feerate
  | _ => False

/-- In every reachable channel, every operation that is refused has changed nothing, the two that
write before they are refused apart. -/
theorem refusals_clean_iff (h₀ : Fresh C ch₀)
    {tr : Trace Input ChannelError (List Wire.Message)} (hr : Run (step C) ch₀ tr ch) (i : Input) :
    Clean (perform C i) ch ↔ ¬ HalfApplied C ch i := by
  cases i with
  | shutdown msg ours => exact onShutdown_clean_iff msg ours
  | closingSigned msg feerate => exact onClosingSigned_clean_iff msg feerate
  | acceptChannel msg =>
    refine iff_of_true ?_ id
    simp only [perform, onAcceptChannel, Clean, RefusedIn, Act.wp_bind, Act.wp_get, Act.wp_lift,
      Act.wp_set]
    exact ⟨fun _ _ => trivial, fun _ _ _ => trivial⟩
  | createFunding txid index => exact iff_of_true (fundingCreated_clean txid index) id
  | fundingCreated msg => exact iff_of_true (onFundingCreated_clean (acquainted_of_run h₀ hr) msg) id
  | fundingSigned msg => exact iff_of_true (onFundingSigned_clean msg) id
  | confirmFunding scid =>
    refine iff_of_true ?_ id
    simp only [perform, confirmFunding, Clean, RefusedIn, Act.wp_bind, Act.wp_get, Act.wp_lift,
      Act.wp_ite, Act.wp_set, Act.wp_pure]
    exact ⟨fun _ _ => ⟨fun _ => trivial, fun _ => trivial⟩, fun _ _ _ => trivial⟩
  | channelReady msg =>
    refine iff_of_true ?_ id
    simp only [perform, onChannelReady, Clean, RefusedIn, Act.wp_bind, Act.wp_get, Act.wp_lift,
      Act.wp_ite, Act.wp_set, Act.wp_pure]
    exact ⟨fun _ _ => ⟨fun _ => trivial, fun _ => trivial⟩, fun _ _ _ => trivial⟩
  | sendAddHtlc amount hash cltv onion source =>
    exact iff_of_true (clean_of_error (sendAddHtlc_spec amount hash cltv onion source ch)) id
  | sendFulfillHtlc id preimage =>
    show Clean (sendFulfillHtlc C id preimage) ch ↔ ¬ False
    exact iff_of_true (sendRemoval_clean _ _ _ _ _) not_false
  | sendFailHtlc id reason =>
    show Clean (sendFailHtlc id reason) ch ↔ ¬ False
    exact iff_of_true (sendRemoval_clean _ _ _ _ _) not_false
  | sendFailMalformedHtlc id sha code =>
    show Clean (sendFailMalformedHtlc id sha code) ch ↔ ¬ False
    exact iff_of_true (sendRemoval_clean _ _ _ _ _) not_false
  | sendUpdateFee feerate =>
    refine iff_of_true ?_ id
    simp only [perform, sendUpdateFee, Clean, RefusedIn, Act.wp_bind, Act.wp_get, Act.wp_lift,
      Act.wp_set, Act.wp_pure]
    exact ⟨fun _ _ => ⟨fun _ _ => ⟨fun _ _ => ⟨fun _ _ => trivial, fun _ _ _ => trivial⟩,
      fun _ _ _ => trivial⟩, fun _ _ _ => trivial⟩, fun _ _ _ => trivial⟩
  | sendCommitmentSigned => exact iff_of_true (clean_of_error (sendCommitmentSigned_spec ch)) id
  | updateAddHtlc msg =>
    refine iff_of_true ?_ id
    simp only [perform, onUpdateAddHtlc, Clean, RefusedIn, Act.wp_bind, Act.wp_get, Act.wp_lift,
      Act.wp_set]
    exact ⟨fun _ _ => trivial, fun _ _ _ => trivial⟩
  | updateFulfillHtlc msg => exact iff_of_true (onRemoval_clean _ _ _) id
  | updateFailHtlc msg => exact iff_of_true (onRemoval_clean _ _ _) id
  | updateFailMalformedHtlc msg =>
    refine iff_of_true ?_ id
    simp only [perform, onUpdateFailMalformedHtlc, Clean, RefusedIn, Act.wp_bind, Act.wp_lift]
    exact ⟨fun _ _ => onRemoval_clean _ _ _, fun _ _ _ => trivial⟩
  | updateFee msg =>
    refine iff_of_true ?_ id
    simp only [perform, onUpdateFee, Clean, RefusedIn, Act.wp_bind, Act.wp_get, Act.wp_lift,
      Act.wp_set]
    exact ⟨fun _ _ => ⟨fun _ _ => ⟨fun _ _ => trivial, fun _ _ _ => trivial⟩, fun _ _ _ => trivial⟩,
      fun _ _ _ => trivial⟩
  | commitmentSigned msg => exact iff_of_true (clean_of_error (onCommitmentSigned_spec msg ch)) id
  | revokeAndAck msg => exact iff_of_true (onRevokeAndAck_clean (inUse_of_run h₀ hr) msg) id
  | disconnect =>
    exact iff_of_true (clean_of_error (Act.wp_mono (onDisconnect_spec ch) (fun _ _ h => h)
      fun _ _ h => h.2)) id
  | channelReestablish msg =>
    refine iff_of_true ?_ id
    simp only [perform, Clean, RefusedIn, Act.wp_bind, Act.wp_get, Act.wp_lift]
    exact ⟨fun _ _ => trivial, fun _ _ _ => trivial⟩
  | sendShutdown script =>
    refine iff_of_true ?_ id
    simp only [perform, sendShutdown, Clean, RefusedIn, Act.wp_bind, Act.wp_get, Act.wp_lift,
      Act.wp_set, Act.wp_pure]
    exact ⟨fun _ _ => ⟨fun _ _ => ⟨fun _ _ => trivial, fun _ _ _ => trivial⟩, fun _ _ _ => trivial⟩,
      fun _ _ _ => trivial⟩
  | maybeSendClosingSigned feerate =>
    refine iff_of_true ?_ id
    simp only [perform, maybeSendClosingSigned, Clean, RefusedIn, Act.wp_bind, Act.wp_get,
      Act.wp_lift, Act.wp_ite, Act.wp_expect, Act.wp_set, Act.wp_pure]
    exact ⟨fun _ => trivial, fun _ => ⟨fun _ _ => ⟨fun _ _ => trivial, fun _ _ _ => trivial⟩,
      fun _ _ => trivial⟩⟩

/-- A `commitment_signed` that has nothing to sign. -/
theorem refusals_clean_alice :
    ∃ tr ch, Run (step Demo.C) Demo.alice.1 tr ch ∧ ch.state = .normal ∧
      Clean (perform Demo.C .sendCommitmentSigned) ch := by
  obtain ⟨tr, ch, hr, hst, -⟩ := Demo.exists_chan Demo.handshake .a
    (fun ch => ch.state = .normal) (by decide +kernel)
  exact ⟨tr, ch, hr, hst, (refusals_clean_iff Demo.alice_fresh hr .sendCommitmentSigned).2 id⟩

instance (msg : Wire.Shutdown) (ourScript : Script) :
    Decidable (ch.ShutdownHalfApplied msg ourScript) := inferInstanceAs (Decidable (_ ∧ _))

/-- The shutdown of a peer that we would answer with an empty script. -/
theorem shutdown_half_applied :
    ∃ tr ch, Run (step Demo.C) Demo.alice.1 tr ch ∧
      ¬ Clean (perform Demo.C (.shutdown ⟨ch.channelId, 0 :: 20 :: List.replicate 20 7⟩ [])) ch := by
  obtain ⟨tr, ch, hr, hhalf, -⟩ := Demo.exists_chan Demo.handshake .a
    (fun ch => ch.ShutdownHalfApplied ⟨ch.channelId, 0 :: 20 :: List.replicate 20 7⟩ [])
    (by decide +kernel)
  exact ⟨tr, ch, hr, fun hclean => (onShutdown_clean_iff _ _).1 hclean hhalf⟩

end Channel
