import Keraunos.Channel.Pair
import Keraunos.Channel.Proof.Moves
import Keraunos.Shachain.Proof.Complete

/-!
# The secrets of an honest peer

`FromSeed`: the store holds the secrets of one seed, up to the last revocation. A channel whose peer
reveals the secrets of its seed in order keeps it, and refuses none (`honest_secrets_accepted`).
-/

open Shachain

namespace Channel

variable {C : Crypto} {seed : Bytes32} {ch ch' ch₀ : Channel}

/-- A revocation reveals the secret that the seed gives for the commitment it revokes. -/
def RevealsSeed (C : Crypto) (seed : Bytes32) (ch : Channel) : Input → Prop
  | .revokeAndAck msg => msg.perCommitmentSecret =
      generateFromSeed C.sha256Bytes32 seed (maxIndex - ch.counterpartyCommitmentNumber)
  | _ => True

instance (i : Input) : Decidable (RevealsSeed C seed ch i) :=
  match i with
  | .revokeAndAck msg => inferInstanceAs (Decidable (msg.perCommitmentSecret = _))
  | .acceptChannel _ | .createFunding .. | .fundingCreated _ | .fundingSigned _ | .confirmFunding _
  | .channelReady _ | .sendAddHtlc .. | .sendFulfillHtlc .. | .sendFailHtlc ..
  | .sendFailMalformedHtlc .. | .sendUpdateFee _ | .sendCommitmentSigned | .updateAddHtlc _
  | .updateFulfillHtlc _ | .updateFailHtlc _ | .updateFailMalformedHtlc _ | .updateFee _
  | .commitmentSigned _ | .disconnect | .channelReestablish _ | .sendShutdown _ | .shutdown ..
  | .maybeSendClosingSigned _ | .closingSigned .. => isTrue trivial

structure FromSeed (C : Crypto) (seed : Bytes32) (ch : Channel) : Prop where
  holds : Holds C.sha256Bytes32 ch.counterpartySecrets (2 ^ 48 - ch.counterpartyCommitmentNumber)
    (generateFromSeed C.sha256Bytes32 seed)
  /-- The commitment in flight has a number of 48 bits. -/
  room : ch.awaitingRaa = true → ch.counterpartyCommitmentNumber + 1 < 2 ^ 48

namespace FromSeed

theorem initial (hinit : Initial ch) : FromSeed C seed ch := by
  refine ⟨?_, fun ha => ?_⟩
  · rw [hinit.secrets, hinit.counterpartyNumber]
    exact holds_new _ _
  · rw [hinit.awaiting] at ha
    cases ha

theorem sign (h : FromSeed C seed ch) {point : PublicKey} {b : Built}
    (hb : ch.buildCounterpartyCommitmentAt C (ch.counterpartyCommitmentNumber + 1) point = .ok b) :
    FromSeed C seed (ch.sign point b) := by
  refine ⟨h.holds, fun _ => ?_⟩
  simp only [buildCounterpartyCommitmentAt, Fault.bind_eq_ok, Fault.expect_eq_ok] at hb
  obtain ⟨_, -, _, -, _, -, _, hbuilt, -⟩ := hb
  unfold Commitment.buildCommitmentTx at hbuilt
  split at hbuilt
  · next hlt => exact hlt
  · cases hbuilt

/-- A move that takes no revocation. -/
theorem move (hm : Move C ch ch')
    (hn : ch'.counterpartyCommitmentNumber = ch.counterpartyCommitmentNumber)
    (h : FromSeed C seed ch) : FromSeed C seed ch' := by
  cases hm with
  | sign point b ha hp hb hd => exact h.sign hb
  | revoke pending secret point secrets nextPoint ha hpd hpt hsec hins hcell =>
    have hsucc : ch.counterpartyCommitmentNumber + 1 = ch.counterpartyCommitmentNumber := hn
    omega
  | _ => exact ⟨h.holds, h.room⟩

theorem quiet (hm : QuietMoves C ch ch') (h : FromSeed C seed ch) : FromSeed C seed ch' :=
  hm.invariant (fun _ _ hq => move hq.1 (congrArg (·.2.1) hq.2)) h

/-- The secret of the seed is accepted. -/
theorem accepts (h : FromSeed C seed ch) (ha : ch.awaitingRaa = true) {msg : Wire.RevokeAndAck}
    (hmsg : RevealsSeed C seed ch (.revokeAndAck msg)) :
    ∃ st, ch.insertSecret C msg.perCommitmentSecret = .ok st ∧
      Holds C.sha256Bytes32 st (2 ^ 48 - (ch.counterpartyCommitmentNumber + 1))
        (generateFromSeed C.sha256Bytes32 seed) := by
  have hroom := h.room ha
  have hsecret : msg.perCommitmentSecret =
      generateFromSeed C.sha256Bytes32 seed (maxIndex - ch.counterpartyCommitmentNumber) := hmsg
  have hindex : indexForCommitment ch.counterpartyCommitmentNumber =
      maxIndex - ch.counterpartyCommitmentNumber := by
    simp only [indexForCommitment, maxIndex]
    omega
  have hnext : 2 ^ 48 - ch.counterpartyCommitmentNumber =
      maxIndex - ch.counterpartyCommitmentNumber + 1 := by
    rw [maxIndex]
    omega
  have hlast : 2 ^ 48 - (ch.counterpartyCommitmentNumber + 1) =
      maxIndex - ch.counterpartyCommitmentNumber := by omega
  have hlt : maxIndex - ch.counterpartyCommitmentNumber < 2 ^ 48 := by
    rw [maxIndex]
    omega
  have hholds := hnext ▸ h.holds
  obtain ⟨st, hst⟩ := hholds.accepts hlt
  refine ⟨st, ?_, hlast ▸ hholds.insert hlt hst⟩
  unfold insertSecret
  rw [hindex, hsecret, hst]

theorem onRevokeAndAck (h : FromSeed C seed ch) {msg : Wire.RevokeAndAck}
    (hmsg : RevealsSeed C seed ch (.revokeAndAck msg)) :
    Act.wp (onRevokeAndAck C msg) ch (fun _ => FromSeed C seed) fun _ => FromSeed C seed := by
  simp only [Channel.onRevokeAndAck, collectForwardable, Act.wp_bind, Act.wp_get, Act.wp_lift,
    Act.wp_expect, Act.wp_set, Act.wp_modify, Act.wp_pure, Fault.require_eq_ok]
  refine ⟨fun _ ha => ⟨fun pending hp => ⟨fun point hpt => ⟨fun _ hrv => ⟨fun _ heq =>
    ⟨fun secrets hs => ?_, fun _ _ => h⟩, fun _ _ => h⟩, fun _ => h⟩, fun _ => h⟩, fun _ => h⟩,
    fun _ _ => h⟩
  obtain ⟨st, hst, hholds⟩ := h.accepts ha hmsg
  obtain rfl := Except.ok.inj (hst.symm.trans hs)
  have hrev : FromSeed C seed { (ch.acceptRevocation pending st
      msg.nextPerCommitmentPoint).gcHtlcs.processed with holdingCell := [] } :=
    ⟨hholds, fun hc => Bool.noConfusion hc⟩
  refine Act.wp_mono (flushOps_moves _ _) (fun _ ch₁ h₁ => ?_) fun _ _ h₁ => hrev.quiet h₁
  have hflushed := hrev.quiet h₁
  simp only [maybeSendCommitmentSigned, Act.wp_bind, Act.wp_get, Act.wp_ite, Act.wp_map, Act.wp_pure]
  refine ⟨fun _ => Act.wp_mono (sendCommitmentSigned_spec ch₁) ?_ ?_, fun _ => hflushed⟩
  · intro _ _ hsig
    obtain ⟨point, b, -, -, -, -, -, hb, -, -, -, rfl⟩ := hsig
    exact hflushed.sign hb
  · intro _ _ heq
    exact heq ▸ hflushed

theorem step {i : Input} (hi : RevealsSeed C seed ch i) (h : FromSeed C seed ch) :
    Act.Ends (step C i) ch (FromSeed C seed) := by
  refine (Act.wp_map _ _).2 ?_
  by_cases hq : i.Quiet
  · exact Act.wp_mono (perform_quiet hq ch) (fun _ _ hm => quiet hm h) fun _ _ hm _ _ => quiet hm h
  · cases i with
    | commitmentSigned msg =>
      refine Act.wp_mono (onCommitmentSigned_spec msg ch) ?_ ?_
      · intro _ _ hacc
        obtain ⟨b, -, -, -, -, -, rfl⟩ := hacc
        exact ⟨h.holds, h.room⟩
      · intro _ _ heq _ _
        exact heq ▸ h
    | disconnect =>
      refine Act.wp_mono (onDisconnect_spec ch) ?_ ?_
      · intro _ _ hdis
        obtain ⟨rs, -, rfl⟩ := hdis
        exact ⟨h.holds, h.room⟩
      · intro _ _ hdis _ _
        exact hdis.2 ▸ h
    | updateAddHtlc msg =>
      show Act.wp (onUpdateAddHtlc msg) ch _ _
      simp only [onUpdateAddHtlc, Act.wp_bind, Act.wp_get, Act.wp_lift, Act.wp_set]
      exact ⟨fun _ _ => ⟨h.holds, h.room⟩, fun _ _ _ _ => h⟩
    | sendCommitmentSigned =>
      refine Act.wp_mono (sendCommitmentSigned_spec ch) ?_ ?_
      · intro _ _ hsig
        obtain ⟨point, b, -, -, -, -, -, hb, -, -, -, rfl⟩ := hsig
        exact h.sign hb
      · intro _ _ heq _ _
        exact heq ▸ h
    | revokeAndAck msg => exact Act.wp_mono (h.onRevokeAndAck hi) (fun _ _ h' => h') fun _ _ h' _ _ => h'
    | _ => exact absurd trivial hq

end FromSeed

/-- The secrets of a seed are accepted in order, the store answers with them, and so a channel refuses
no revocation of a peer that generates its secrets from a seed. -/
theorem honest_secrets_accepted (H : Bytes32 → Bytes32) (seed : Bytes32) {k : Nat} (hk : k < 2 ^ 48) :
    (∃ st, insertFrom H SecretStore.new 0 (secretsFromSeed H seed 0 (k + 1)) = .ok st ∧
      ∀ j, maxIndex - k ≤ j → j ≤ maxIndex →
        st.secretFor H j = some (generateFromSeed H seed j)) ∧
    ∀ (C : Crypto) {ch₀ ch : Channel} {tr : Trace Input ChannelError (List Wire.Message)}
      {msg : Wire.RevokeAndAck}, Fresh C ch₀ → Run.Within (Channel.step C) (RevealsSeed C seed) ch₀ tr ch →
      ch.awaitingRaa = true → RevealsSeed C seed ch (.revokeAndAck msg) →
      ∃ st, ch.insertSecret C msg.perCommitmentSecret = .ok st := by
  have hmax : maxIndex = 2 ^ 48 - 1 := rfl
  constructor
  · obtain ⟨st, hst, hholds⟩ := insertFrom_seed (i := 0) (n := k + 1) (by omega)
      (holds_new H (generateFromSeed H seed))
    exact ⟨st, hst, fun j hlo hhi => hholds.secretFor (by omega) (by omega)⟩
  · intro C ch₀ ch tr msg hf hr ha hmsg
    have h : FromSeed C seed ch :=
      hr.invariant (FromSeed.initial hf.initial) fun _ _ hi h => h.step hi
    obtain ⟨st, hst, -⟩ := h.accepts ha hmsg
    exact ⟨st, hst⟩

/-- The opener, before and after the accepter's first revocation. -/
theorem honest_secrets_accepted_alice :
    let seed := Demo.bytes 206
    ∃ tr ch st, Run.Within (step Demo.C) (RevealsSeed Demo.C seed) Demo.alice.1 tr ch ∧
      ch.counterpartyCommitmentNumber = 1 ∧ ch.insertSecret Demo.C
        (generateFromSeed Demo.C.sha256Bytes32 seed (maxIndex - 1)) = .ok st := by
  intro seed
  obtain ⟨tr, ch, hr, hn, ha⟩ := Run.Within.exists_of_exec (f := step Demo.C)
    (A := RevealsSeed Demo.C seed) (s := Demo.alice.1)
    (Pair.inputs Demo.C .a Demo.start (Demo.handshake ++ Demo.payment ++
      [.command .a (.sendUpdateFee 500), .command .a .sendCommitmentSigned]))
    (fun ch => ch.counterpartyCommitmentNumber = 1 ∧ ch.awaitingRaa = true) (by
      rw [Demo.alice_tabled, Demo.start_tabled]
      decide +kernel)
  have hmsg : RevealsSeed Demo.C seed ch (.revokeAndAck ⟨Demo.bytes 0,
      generateFromSeed Demo.C.sha256Bytes32 seed (maxIndex - 1), (Demo.signer 2).perCommitmentPoint 3⟩) := by
    rw [RevealsSeed, hn]
  obtain ⟨-, hch⟩ := honest_secrets_accepted Demo.C.sha256Bytes32 seed (k := 1) (by decide)
  obtain ⟨st, hst⟩ := hch Demo.C Demo.alice_fresh hr ha hmsg
  exact ⟨tr, ch, st, hr, hn, hst⟩

end Channel
