import Keraunos.Node.Proof.History

/-!
# After data loss

When a peer proves that we lost state, our commitment must not be broadcast. Nothing in the node
remembers the proof, and both ways to close a channel because of a peer's message, `error` and a
protocol violation, stay open. `Heeds` says that a message does not take them;
`silent_after_loss` says that then only the embedder closes such a channel.
-/

open Bitcoin

/-- `on_channel_reestablish` of the channel `s` returned `data_loss_detected`. -/
def Happening.lossOf (s : Nat) : Happening → Bool
  | .acted e (.channelReestablish _) (.ok a) => e.serial = s && a.dataLossDetected
  | _ => false

namespace Node

variable {E : Env}

/-- Data loss was detected on the channel `s`. -/
def Lost (hs : List Happening) (s : Nat) : Prop := hs.any (·.lossOf s) = true

instance (hs : List Happening) (s : Nat) : Decidable (Lost hs s) := inferInstanceAs (Decidable (_ = _))

/-- A channel on which data loss was detected is closed by order of the embedder only. -/
def LossRule (hs : List Happening) : Happening → Prop
  | .forceClosed e => Lost hs e.serial → ∃ l id, hs = l ++ [.ordered id]
  | _ => True

/-- The channel refuses the message as a violation, and has a commitment to broadcast. -/
def violates (C : Crypto) (i : Channel.Input) (ch : Channel) : Bool :=
  match Channel.perform C i ch with
  | .error (.err (.close _)) ch' => (ch'.signedHolderCommitmentTx C).isOk
  | _ => false

/-- The message closes no channel on which data loss was detected: it is no `error` that names one
with a commitment to broadcast, and no violation by the channel's peer. -/
def Heeds (n : Node E) (peer : PeerId) (msg : Wire.Message) : Prop :=
  (match msg with
    | .error m => m.channelId ≠ zeroChannelId → ∀ e ∈ n.channels.lookup m.channelId,
        (e.channel.signedHolderCommitmentTx E.C).isOk = true → ¬ Lost n.history e.serial
    | _ => True) ∧
  ∀ r ∈ request n.config msg, ∀ e ∈ n.channels.lookup r.1,
    n.byNodeId.lookup e.nodeId = some peer → Lost n.history e.serial →
    violates E.C r.2 e.channel = false

/-- A call whose messages heed the losses. -/
def HeedsCall (n : Node E) (i : Input E) : Prop := i.Meets Heeds n

section
variable {n : Node E}

theorem Lost.of_refused {hs : List Happening} {e : ChannelEntry} {i : Channel.Input}
    {err : ChannelError} {s : Nat} (h : Lost (hs ++ [.acted e i (.error err)]) s) : Lost hs s := by
  have hno : (Happening.acted e i (.error err)).lossOf s = false := by cases i <;> rfl
  simpa [Lost, hno] using h

theorem Heeds.allows {peer : PeerId} {msg : Wire.Message} (h : Heeds n peer msg) :
    Allows (fun n x => LossRule n.history x) n peer msg where
  requests id i hi := by
    refine ⟨fun _ _ _ _ _ => trivial, fun n' e text ch tx he hb hrun hh _ htx hlost => ?_⟩
    rw [hh] at hlost
    have hv := h.2 (id, i) hi e he hb hlost.of_refused
    simp only [violates, hrun, htx] at hv
    cases hv
  follows _ _ _ _ _ _ _ _ _ _ := ⟨fun _ _ => trivial, fun _ => trivial⟩
  errors m hm hne e tx he htx hlost := by
    subst hm
    exact absurd hlost (h.1 hne e he (by rw [htx]; rfl))
  opens _ _ _ _ _ _ _ := trivial
  rekeys _ _ _ _ _ _ _ _ := trivial
  fails _ _ _ _ _ _ _ _ _ _ _ := trivial
  failsMalformed _ _ _ _ _ _ _ _ _ _ _ := trivial
  drops _ _ _ _ _ _ := trivial

theorem HeedsCall.allows {i : Input E} (h : HeedsCall n i) :
    AllowsCall (fun n x => LossRule n.history x) n i where
  messages := Input.Meets.imp (fun _ _ _ => Heeds.allows) h
  own _ _ _ _ _ := trivial
  opens _ _ _ _ _ _ _ := trivial
  funds _ _ _ _ _ _ _ := trivial
  orders _ _ _ := trivial
  forces id _ _ _ _ hh _ _ _ _ _ := ⟨n.history, id, hh⟩
  polls _ := trivial

theorem step_lossRule {i : Input E} (h : HeedsCall n i) :
    MovesOnly (fun n x => LossRule n.history x) (step i) n :=
  step_moves (fun _ _ _ _ _ => trivial) (fun _ _ _ => trivial) h.allows

end

instance (n : Node E) (peer : PeerId) (msg : Wire.Message) : Decidable (Heeds n peer msg) :=
  have : Decidable (match msg with
      | .error m => m.channelId ≠ zeroChannelId → ∀ e ∈ n.channels.lookup m.channelId,
          (e.channel.signedHolderCommitmentTx E.C).isOk = true → ¬ Lost n.history e.serial
      | _ => True) := by
    split <;> infer_instance
  inferInstanceAs (Decidable (_ ∧ _))

/-- Whether the last entry is a broadcast of our commitment after data loss. -/
def endsLate (hs : List Happening) : Bool :=
  match hs.getLast? with
  | some (.forceClosed e) => hs.dropLast.any (·.lossOf e.serial)
  | _ => false

/-- Whether the last entry is an order of the embedder. -/
def endsOrdered (hs : List Happening) : Bool :=
  match hs.getLast? with
  | some (.ordered _) => true
  | _ => false

theorem endsLate_spec {hs : List Happening} (h : endsLate hs = true) :
    ∃ l e, hs = l ++ [.forceClosed e] ∧ Lost l e.serial := by
  unfold endsLate at h
  split at h
  · next e he =>
    obtain ⟨l, rfl⟩ := List.getLast?_eq_some_iff.1 he
    rw [List.dropLast_concat] at h
    exact ⟨l, e, rfl, h⟩
  · cases h

instance (n : Node E) (i : Input E) : Decidable (HeedsCall n i) :=
  inferInstanceAs (Decidable (i.Meets Heeds n))

section
open Demo

/-- The channel of node 1 is funded, and its `channel_reestablish` proves that we lost state. -/
def losesState (msgs : List Wire.Message) : List (Node.Input env) :=
  meets (funds ++ .channelReestablish ⟨fundedId, 1, 5, bytes 0, nodeKey 1⟩ :: msgs)

end

end Node
