import Keraunos.Channel.Pair

/-!
# When a channel believes that it lost state

`on_channel_reestablish` reports data loss in two places: when the peer counts more revocations of ours
than there were, before any secret is checked, and when it counts more commitments than we signed. The
second is behind the check of the secret, which asks for nothing when the peer counts no revocation at
all. Everywhere else a report of data loss comes with our own secret (`data_loss_proved_iff`).
-/

namespace Channel

variable {C : Crypto} {ch : Channel} {msg : Wire.ChannelReestablish}

/-- The peer presents our secret of the last commitment it claims revoked. -/
def PresentsSecret (ch : Channel) (msg : Wire.ChannelReestablish) : Prop :=
  0 < msg.nextRevocationNumber ∧ msg.yourLastPerCommitmentSecret =
    ch.signer.releaseCommitmentSecret (msg.nextRevocationNumber - 1)

/-- A report of data loss rests on our own secret. -/
def DataLossProved (C : Crypto) (ch : Channel) (msg : Wire.ChannelReestablish) : Prop :=
  ∀ actions, ch.onChannelReestablish C msg = .ok actions → actions.dataLossDetected = true →
    PresentsSecret ch msg

/-- The messages that are believed without proof: they count a revocation that we never made and show
another secret, or they count no revocation and a commitment that we never signed. -/
inductive Unproven (ch : Channel) (msg : Wire.ChannelReestablish) : Prop
  | revocation : ch.holderCommitmentNumber < msg.nextRevocationNumber →
      msg.yourLastPerCommitmentSecret ≠
        ch.signer.releaseCommitmentSecret (msg.nextRevocationNumber - 1) → Unproven ch msg
  | commitment : msg.nextRevocationNumber = 0 → ch.holderCommitmentNumber ≤ 1 →
      msg.yourLastPerCommitmentSecret = zeroBytes32 →
      ch.ourLastSent + 1 < msg.nextCommitmentNumber → Unproven ch msg

theorem checkLastSecret_eq_ok :
    ch.checkLastSecret msg = .ok () ↔ PresentsSecret ch msg ∨
      (msg.nextRevocationNumber = 0 ∧ msg.yourLastPerCommitmentSecret = zeroBytes32) := by
  unfold checkLastSecret PresentsSecret
  by_cases hpos : 0 < msg.nextRevocationNumber
  · have hne : msg.nextRevocationNumber ≠ 0 := Nat.ne_of_gt hpos
    simp [hpos, hne]
  · have hzero : msg.nextRevocationNumber = 0 := Nat.eq_zero_of_not_pos hpos
    simp [hzero]

/-- Past the check of the secret, data loss is reported when the peer counts too many commitments. -/
theorem reestablishCommitment_loss {messages : List Wire.Message} {actions : ReestablishActions}
    (h : ch.reestablishCommitment C msg messages = .ok actions)
    (hloss : actions.dataLossDetected = true) :
    ch.checkLastSecret msg = .ok () ∧ ch.ourLastSent + 1 < msg.nextCommitmentNumber := by
  unfold reestablishCommitment at h
  obtain ⟨u, hcheck, h⟩ := Fault.bind_eq_ok.1 h
  refine ⟨hcheck, ?_⟩
  have hready : ∀ ms, (ch.withChannelReady msg ms).dataLossDetected = false := by
    intro ms
    unfold withChannelReady
    split <;> rfl
  split at h
  · obtain ⟨resent, -, h⟩ := Fault.bind_eq_ok.1 h
    cases h
    rw [hready] at hloss
    cases hloss
  split at h
  · cases h
    rw [hready] at hloss
    cases hloss
  split at h
  · assumption
  · cases h

theorem reestablishCommitment_of_lt (messages : List Wire.Message)
    (hcheck : ch.checkLastSecret msg = .ok ())
    (hlt : ch.ourLastSent + 1 < msg.nextCommitmentNumber) :
    ch.reestablishCommitment C msg messages = .ok { messages, dataLossDetected := true } := by
  unfold reestablishCommitment
  rw [hcheck]
  change (if msg.nextCommitmentNumber = ch.ourLastSent ∧ ch.awaitingRaa = true then _ else _) = _
  rw [if_neg (by omega), if_neg (by omega), if_pos hlt]
  rfl

/-- A revocation that we never made is believed at once. -/
theorem onChannelReestablish_of_lt (hlt : ch.holderCommitmentNumber < msg.nextRevocationNumber) :
    ch.onChannelReestablish C msg = .ok { dataLossDetected := true } := by
  simp only [onChannelReestablish]
  rw [if_neg (by omega), if_pos hlt]

/-- Data loss is believed with proof, except for the messages above. -/
theorem data_loss_proved_iff (C : Crypto) (ch : Channel) (msg : Wire.ChannelReestablish) :
    DataLossProved C ch msg ↔ ¬ Unproven ch msg := by
  constructor
  · intro h hun
    cases hun with
    | revocation hlt hne => exact hne (h _ (onChannelReestablish_of_lt hlt) rfl).2
    | commitment hzero hle hsecret hlt =>
      have hcheck : ch.checkLastSecret msg = .ok () := checkLastSecret_eq_ok.2 (.inr ⟨hzero, hsecret⟩)
      have hnot : ¬ PresentsSecret ch msg := fun hp => by
        have := hp.1
        omega
      simp only [DataLossProved, onChannelReestablish] at h
      by_cases hone : msg.nextRevocationNumber = ch.holderCommitmentNumber - 1 ∧
          0 < ch.holderCommitmentNumber
      · rw [if_pos hone, reestablishCommitment_of_lt _ hcheck hlt] at h
        exact hnot (h _ rfl rfl)
      · rw [if_neg hone, if_neg (by omega), if_neg (by omega),
          reestablishCommitment_of_lt _ hcheck hlt] at h
        exact hnot (h _ rfl rfl)
  · intro hun actions h hloss
    have hbehind : ∀ messages, ch.reestablishCommitment C msg messages = .ok actions →
        ch.holderCommitmentNumber ≤ msg.nextRevocationNumber + 1 → PresentsSecret ch msg := by
      intro messages h hle
      obtain ⟨hcheck, hlt⟩ := reestablishCommitment_loss h hloss
      cases checkLastSecret_eq_ok.1 hcheck with
      | inl hp => exact hp
      | inr hz => exact absurd (.commitment hz.1 (by omega) hz.2 hlt) hun
    simp only [onChannelReestablish] at h
    split at h
    · exact hbehind _ h (by omega)
    split at h
    · next hlt =>
      by_cases hsecret : msg.yourLastPerCommitmentSecret =
          ch.signer.releaseCommitmentSecret (msg.nextRevocationNumber - 1)
      · exact ⟨by omega, hsecret⟩
      · exact absurd (.revocation hlt hsecret) hun
    split at h
    · cases h
    · exact hbehind _ h (by omega)

end Channel

/-- The message of a peer that claims five revocations and knows no secret. -/
def Demo.forgedReestablish : Wire.ChannelReestablish :=
  ⟨channelIdFromFunding (bytes 9) 0, 1, 5, Channel.zeroBytes32, (signer 2).perCommitmentPoint 0⟩

namespace Channel

theorem data_loss_forged :
    ∃ tr ch, Run (step Demo.C) Demo.alice.1 tr ch ∧ ch.state = .normal ∧
      ¬ DataLossProved Demo.C ch Demo.forgedReestablish := by
  obtain ⟨tr, ch, hr, ⟨hst, hnum, hsecret⟩, -⟩ := Demo.exists_chan Demo.handshake .a
    (fun ch => ch.state = .normal ∧ ch.holderCommitmentNumber < 5 ∧
      zeroBytes32 ≠ ch.signer.releaseCommitmentSecret 4) (by decide +kernel)
  refine ⟨tr, ch, hr, hst, fun hproved => ?_⟩
  exact hsecret (hproved _ (onChannelReestablish_of_lt hnum) rfl).2

end Channel
