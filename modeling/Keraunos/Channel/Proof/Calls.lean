import Keraunos.Channel.Proof.Flush

/-!
# What a call returns

`Calls C ch i o ch'`: the call behind the input `i` takes the channel `ch` to `ch'` and returns `o`.
It tells apart the calls that take an HTLC or a revocation of the peer, those that sign, and the loss
of the connection; every other call is a sequence of quiet moves (`perform_calls`).
-/

open Bitcoin Commitment

namespace Channel

variable {C : Crypto} {ch ch' ch₀ : Channel}

/-- `m` signs the peer's next commitment. -/
structure Signs (C : Crypto) (ch : Channel) (m : Wire.CommitmentSigned) (point : PublicKey)
    (b : Built) : Prop where
  idle : ch.awaitingRaa = false
  dirty : ch.counterpartyDirty = true
  next : ch.counterpartyNextPoint = some point
  built : ch.buildCounterpartyCommitmentAt C (ch.counterpartyCommitmentNumber + 1) point = .ok b
  channelId : m.channelId = ch.channelId
  signature : ch.signCounterpartyCommitmentTx C b.built = .ok m.signature
  htlcSignatures : ch.signHtlcs C b point = some m.htlcSignatures

/-- A commitment may be signed. -/
inductive MaySign (C : Crypto) (ch : Channel) : Option Wire.CommitmentSigned → Channel → Prop
  | none : MaySign C ch none ch
  | some {m : Wire.CommitmentSigned} {point : PublicKey} {b : Built} : Signs C ch m point b →
      MaySign C ch (some m) (ch.sign point b)

/-- What a call that succeeds makes of a channel, and what it returns. -/
inductive Calls (C : Crypto) (ch : Channel) : (i : Input) → i.Outcome → Channel → Prop
  | quiet {i : Input} {o : i.Outcome} {ch' : Channel} : i.Quiet → QuietMoves C ch ch' →
      Calls C ch i o ch'
  | received (msg : Wire.UpdateAddHtlc) : ch.checkUpdateAddHtlc msg = .ok () →
      Calls C ch (.updateAddHtlc msg) () (ch.receive msg)
  | signed {m : Wire.CommitmentSigned} {point : PublicKey} {b : Built} : Signs C ch m point b →
      Calls C ch .sendCommitmentSigned m (ch.sign point b)
  | accepted (msg : Wire.CommitmentSigned) (m : Wire.RevokeAndAck) (b : Built) :
      Calls C ch (.commitmentSigned msg) m
        (ch.acceptCommitment (ch.holderCommitmentNumber + 1) b msg).gcHtlcs
  | revoked (msg : Wire.RevokeAndAck) (o : RaaOutcome) (pending : PendingCounterpartyCommitment)
      (secrets : Shachain.SecretStore) {ch₁ ch' : Channel} : ch.awaitingRaa = true →
      ch.pendingCounterpartyCommitment = some pending →
      QuietMoves C (ch.revoked pending secrets msg.nextPerCommitmentPoint) ch₁ →
      MaySign C ch₁ o.commitmentSigned ch' →
      o.forwardable = ((ch.acceptRevocation pending secrets
        msg.nextPerCommitmentPoint).gcHtlcs.htlcs.filter Htlc.forwardable).map
          (fun h => ⟨h.id, h.amountMsat, h.paymentHash, h.cltvExpiry, h.onion⟩) →
      Calls C ch (.revokeAndAck msg) o ch'
  | lost (rs : List Rollback) : ch.htlcs.mapM ch.rollback = some rs →
      Calls C ch .disconnect () (ch.rolledBack rs)

theorem sendCommitmentSigned_signs (ch : Channel) :
    Act.wp (sendCommitmentSigned C) ch
      (fun m ch' => ∃ point b, Signs C ch m point b ∧ ch' = ch.sign point b)
      (fun _ ch' => ch' = ch) := by
  refine Act.wp_mono (sendCommitmentSigned_spec ch) ?_ fun _ _ h => h
  intro m ch' h
  obtain ⟨point, b, sig, sigs, ha, hd, hp, hb, hs, hsg, rfl, rfl⟩ := h
  exact ⟨point, b, ⟨ha, hd, hp, hb, rfl, hs, hsg⟩, rfl⟩

theorem maybeSendCommitmentSigned_signs (ch : Channel) :
    Act.wp (maybeSendCommitmentSigned C) ch (fun cs ch' => MaySign C ch cs ch')
      (fun _ _ => True) := by
  simp only [maybeSendCommitmentSigned, Act.wp_bind, Act.wp_get, Act.wp_ite, Act.wp_map, Act.wp_pure]
  refine ⟨fun _ => ?_, fun _ => .none⟩
  refine Act.wp_mono (sendCommitmentSigned_signs ch) ?_ fun _ _ _ => trivial
  intro m ch' h
  obtain ⟨point, b, hs, rfl⟩ := h
  exact .some hs

/-- An accepted `revoke_and_ack`, the flush as moves. -/
theorem onRevokeAndAck_calls (msg : Wire.RevokeAndAck) (ch : Channel) :
    Act.wp (onRevokeAndAck C msg) ch (fun o ch' => Calls C ch (.revokeAndAck msg) o ch')
      (fun _ _ => True) := by
  simp only [onRevokeAndAck, collectForwardable, Act.wp_bind, Act.wp_get, Act.wp_lift,
    Act.wp_expect, Act.wp_set, Act.wp_modify, Act.wp_pure, Fault.require_eq_ok]
  refine ⟨fun _ ha => ⟨fun pending hp => ⟨fun point _ => ⟨fun _ _ => ⟨fun _ _ =>
    ⟨fun secrets _ => ?_, fun _ _ => trivial⟩, fun _ _ => trivial⟩, fun _ => trivial⟩,
    fun _ => trivial⟩, fun _ => trivial⟩, fun _ _ => trivial⟩
  refine Act.wp_mono (flushOps_moves _ _) (fun _ ch₁ h₁ => ?_) fun _ _ _ => trivial
  refine Act.wp_mono (maybeSendCommitmentSigned_signs ch₁) (fun _ ch₂ h₂ => ?_) fun _ _ _ => trivial
  exact .revoked msg _ pending secrets ha hp h₁ h₂ rfl

/-- Every call of a channel in use. -/
theorem perform_calls (huse : InUse ch) (i : Input) :
    Act.wp (perform C i) ch (fun o ch' => Calls C ch i o ch')
      (fun e ch' => ∀ e', e = .err e' → QuietMoves C ch ch') := by
  by_cases hq : i.Quiet
  · exact Act.wp_mono (perform_quiet hq ch) (fun _ _ hm => .quiet hq hm) fun _ _ hm _ _ => hm
  · cases i with
    | updateAddHtlc msg =>
      show Act.wp (onUpdateAddHtlc msg) ch _ _
      simp only [onUpdateAddHtlc, Act.wp_bind, Act.wp_get, Act.wp_lift, Act.wp_set]
      exact ⟨fun _ hc => .received msg hc, fun _ _ _ _ => .rfl⟩
    | sendCommitmentSigned =>
      refine Act.wp_mono (sendCommitmentSigned_signs ch) ?_ ?_
      · intro m _ h
        obtain ⟨point, b, hs, rfl⟩ := h
        exact .signed hs
      · intro _ _ h _ _
        exact h ▸ .rfl
    | commitmentSigned msg =>
      refine Act.wp_mono (onCommitmentSigned_spec msg ch) ?_ ?_
      · intro m _ h
        obtain ⟨b, -, -, -, -, -, rfl⟩ := h
        exact .accepted msg m b
      · intro _ _ h _ _
        exact h ▸ .rfl
    | revokeAndAck msg =>
      refine Act.wp_iff.2 ⟨fun o ch' hok => ?_, fun e ch' herr e' he => ?_⟩
      · have hd := Act.wp_ok (onRevokeAndAck_calls msg ch) hok
        exact hd
      · subst he
        rw [onRevokeAndAck_refused huse herr]
        exact .rfl
    | disconnect =>
      refine Act.wp_mono (onDisconnect_spec ch) ?_ ?_
      · intro _ _ h
        obtain ⟨rs, hrs, rfl⟩ := h
        exact .lost rs hrs
      · intro _ _ h _ _
        exact h.2 ▸ .rfl
    | _ => exact absurd trivial hq

end Channel
