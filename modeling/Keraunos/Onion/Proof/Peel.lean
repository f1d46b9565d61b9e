import Keraunos.Onion.Packet
import Keraunos.Wire.Proof.Streams

/-!
# What a sender can make a hop do

The sender of an onion chooses the whole decrypted buffer of a hop. What `readFrame` accepts is a
frame at the front of it (`exact_readFrame`), with a payload of up to 1268 bytes; the prefix of such a
length has three bytes, so the frame of a payload of 1266 bytes or more leaves fewer than 1300 of the
2600 bytes, and the slice for the next hop is out of range (`peelWithSecret_eq_panic`).
-/

namespace Onion

open Bytes Wire Parse

/-! ## Frames -/

theorem length_frame (p : List UInt8) (hm : Bytes32) : (frame p hm).length = shiftSize p.length := by
  simp [frame, shiftSize, BigSize.length_write, Nat.add_assoc]

theorem length_le_of_shiftSize {n : Nat} (h : shiftSize n ≤ payloadsLen) : n ≤ payloadsLen - 32 := by
  unfold shiftSize at h
  omega

theorem readFrame_frame {p : List UInt8} (hm : Bytes32) (rest : List UInt8) (h2 : 2 ≤ p.length)
    (hp : p.length ≤ payloadsLen - 32) :
    readFrame.run (frame p hm ++ rest) = .ok ((p, hm.toList), rest) := by
  have hlt : p.length < 2 ^ 64 := hp.trans_lt (by decide)
  rw [frame, List.append_assoc, List.append_assoc, readFrame,
    Reader.run_bind_ok (BigSize.read_write hlt _), if_pos ⟨h2, hp⟩,
    Reader.run_bind_ok (Reader.take_append rfl),
    Reader.run_bind_ok (Reader.take_append (by simp)), Reader.run_pure]

/-- What `readFrame` accepts is a frame. -/
theorem exact_readFrame {buf payload hmac rest : List UInt8}
    (h : readFrame.run buf = .ok ((payload, hmac), rest)) :
    ∃ hm : Bytes32, hmac = hm.toList ∧ buf = frame payload hm ++ rest ∧ 2 ≤ payload.length ∧
      payload.length ≤ payloadsLen - 32 := by
  obtain ⟨len, s₁, hlen, h⟩ := of_run_bind h
  split at h
  · next hbounds =>
    obtain ⟨p, s₂, hp, h⟩ := of_run_bind h
    obtain ⟨m, s₃, hm, h⟩ := of_run_bind h
    cases h
    have hplen := Wire.length_of_take hp
    have hmlen := Wire.length_of_take hm
    refine ⟨⟨hmac.toArray, by simpa using hmlen⟩, by simp [Vector.toList], ?_, ?_⟩
    · rw [exact_bigSize buf len s₁ hlen, exact_take len s₁ payload s₂ hp, exact_take 32 s₂ hmac rest hm,
        frame, hplen]
      simp [Vector.toList, List.append_assoc]
    · rwa [hplen]
  · cases h

/-! ## Peeling -/

theorem mk_toList_toArray {hm : Bytes32} (h : hm.toList.toArray.size = 32) :
    (⟨hm.toList.toArray, h⟩ : Bytes32) = hm :=
  Vector.toArray_inj.1 Array.toArray_toList

section
variable {C : Crypto} {ss : Bytes32} {packet : OnionPacket} {assocData payload rest : List UInt8}
  {hm : Bytes32}

/-- The packet is authentic and decrypts to a frame that is read. -/
structure Opens (C : Crypto) (ss : Bytes32) (packet : OnionPacket) (assocData payload : List UInt8)
    (hm : Bytes32) (rest : List UInt8) : Prop where
  version : packet.version = 0
  authentic : mac C ss packet.payloads assocData = packet.hmac
  buffer : decryptBuf C ss packet.payloads = frame payload hm ++ rest
  two_le : 2 ≤ payload.length
  le : payload.length ≤ payloadsLen - 32

theorem Opens.length_rest (h : Opens C ss packet assocData payload hm rest) :
    shiftSize payload.length + rest.length = payloadsLen * 2 := by
  have hlen : (decryptBuf C ss packet.payloads).length = payloadsLen * 2 := by
    rw [decryptBuf, length_xorInto, List.length_append, packet.length_payloads, List.length_replicate]
    decide
  rwa [h.buffer, List.length_append, length_frame] at hlen

/-- Peeling an opened packet: the next packet is cut out of the rest of the buffer. -/
theorem Opens.peel_eq (h : Opens C ss packet assocData payload hm rest) :
    peelWithSecret C ss packet assocData =
      if hm = zero32 then .ok (.final payload)
      else
        match nextEphemeral C packet.ephemeralKey ss with
        | .error e => .error e
        | .ok k =>
          if hl : (rest.take payloadsLen).length = payloadsLen then
            .ok (.forward payload ⟨0, k, rest.take payloadsLen, hm, hl⟩)
          else .error .panic := by
  have hcons : payloadsLen * 2 - rest.length = (frame payload hm).length := by
    rw [← h.length_rest, Nat.add_sub_cancel, length_frame]
  unfold peelWithSecret
  rw [if_neg (not_not.2 h.version), if_neg (not_not.2 h.authentic)]
  simp only [h.buffer, readFrame_frame hm rest h.two_le h.le, hcons, List.drop_left]
  rw [dif_pos (by simp)]
  by_cases hzero : hm = zero32
  · rw [if_pos hzero, if_pos ((mk_toList_toArray _).trans hzero)]
  · rw [if_neg hzero, if_neg fun h0 => hzero ((mk_toList_toArray _).symm.trans h0)]
    cases nextEphemeral C packet.ephemeralKey ss with
    | error e => rfl
    | ok k => simp only [mk_toList_toArray]

/-- A packet that does not open is refused with an error. -/
theorem peel_of_not_opens (h : ∀ payload hm rest, ¬ Opens C ss packet assocData payload hm rest) :
    ∃ e, peelWithSecret C ss packet assocData = .error (.err e) := by
  unfold peelWithSecret
  by_cases hv : packet.version = 0
  · by_cases hmac : mac C ss packet.payloads assocData = packet.hmac
    · rw [if_neg (not_not.2 hv), if_neg (not_not.2 hmac)]
      cases hf : readFrame.run (decryptBuf C ss packet.payloads) with
      | error e =>
        simp only [hf]
        exact ⟨.badPayload, rfl⟩
      | ok r =>
        obtain ⟨⟨payload, hmac'⟩, rest⟩ := r
        obtain ⟨hm, -, hbuf, h2, hp⟩ := exact_readFrame hf
        exact absurd ⟨hv, hmac, hbuf, h2, hp⟩ (h payload hm rest)
    · rw [if_neg (not_not.2 hv), if_pos hmac]
      exact ⟨_, rfl⟩
  · rw [if_pos hv]
    exact ⟨_, rfl⟩

/-- The frame leaves room for the next packet. -/
theorem Opens.room_iff (h : Opens C ss packet assocData payload hm rest) :
    (rest.take payloadsLen).length = payloadsLen ↔ payload.length < 1266 := by
  have hlen := h.length_rest
  have hle := h.le
  rw [List.length_take]
  simp only [shiftSize, BigSize.len, payloadsLen] at hlen hle ⊢
  split at hlen
  · omega
  split at hlen
  · omega
  · omega

/-- A packet that a hop cannot forward although it opens: its payload has 1266 bytes or more and the
ephemeral key can be blinded, or the blinding factor is not below the curve order. -/
def Overruns (C : Crypto) (ss : Bytes32) (packet : OnionPacket) (assocData : List UInt8) : Prop :=
  ∃ payload hm rest, Opens C ss packet assocData payload hm rest ∧ hm ≠ zero32 ∧
    (1266 ≤ payload.length ∧ (∃ k, nextEphemeral C packet.ephemeralKey ss = .ok k) ∨
      C.validScalar (blinding C packet.ephemeralKey ss) = false)

theorem nextEphemeral_eq_panic {pk : PublicKey} :
    nextEphemeral C pk ss = .error .panic ↔ C.validScalar (blinding C pk ss) = false := by
  unfold nextEphemeral
  cases C.validScalar (blinding C pk ss) with
  | false => simp
  | true =>
    simp only [if_true]
    cases C.mulTweak pk (blinding C pk ss) <;> simp

/-- Peeling panics exactly on such packets. -/
theorem peelWithSecret_eq_panic :
    peelWithSecret C ss packet assocData = .error .panic ↔ Overruns C ss packet assocData := by
  constructor
  · intro hpanic
    by_cases hopens : ∃ payload hm rest, Opens C ss packet assocData payload hm rest
    · obtain ⟨payload, hm, rest, h⟩ := hopens
      rw [h.peel_eq] at hpanic
      by_cases hzero : hm = zero32
      · rw [if_pos hzero] at hpanic
        cases hpanic
      · rw [if_neg hzero] at hpanic
        refine ⟨payload, hm, rest, h, hzero, ?_⟩
        cases hk : nextEphemeral C packet.ephemeralKey ss with
        | error e =>
          rw [hk] at hpanic
          cases hpanic
          exact .inr (nextEphemeral_eq_panic.1 hk)
        | ok k =>
          refine .inl ⟨Nat.not_lt.1 fun hlt => ?_, k, rfl⟩
          simp only [hk, h.room_iff.2 hlt, dite_true] at hpanic
          cases hpanic
    · obtain ⟨e, he⟩ := peel_of_not_opens fun payload hm rest h => hopens ⟨payload, hm, rest, h⟩
      rw [he] at hpanic
      cases hpanic
  · rintro ⟨payload, hm, rest, h, hne, hbad⟩
    rw [h.peel_eq, if_neg hne]
    cases hbad with
    | inl hlong =>
      obtain ⟨hlong, k, hk⟩ := hlong
      rw [hk]
      exact dif_neg fun hl => Nat.not_lt.2 hlong (h.room_iff.1 hl)
    | inr hscalar => rw [nextEphemeral_eq_panic.2 hscalar]

/-- The next packet is what follows the frame in the decrypted buffer. -/
theorem forward_payloads {next : OnionPacket}
    (hpeel : peelWithSecret C ss packet assocData = .ok (.forward payload next)) :
    ∃ hm rest, decryptBuf C ss packet.payloads = frame payload hm ++ rest ∧
      next.payloads = rest.take payloadsLen := by
  by_cases hopens : ∃ payload hm rest, Opens C ss packet assocData payload hm rest
  · obtain ⟨payload', hm, rest, h⟩ := hopens
    rw [h.peel_eq] at hpeel
    split at hpeel
    · cases hpeel
    · cases hk : nextEphemeral C packet.ephemeralKey ss with
      | error e =>
        rw [hk] at hpeel
        cases hpeel
      | ok k =>
        simp only [hk] at hpeel
        split at hpeel
        · cases hpeel
          exact ⟨hm, rest, h.buffer, rfl⟩
        · cases hpeel
  · obtain ⟨e, he⟩ := peel_of_not_opens fun payload hm rest h => hopens ⟨payload, hm, rest, h⟩
    rw [he] at hpeel
    cases hpeel

/-- Peeling returns, and a packet it forwards carries on where the frame ended. -/
def PeelsSafely (C : Crypto) (ss : Bytes32) (packet : OnionPacket) (assocData : List UInt8) : Prop :=
  peelWithSecret C ss packet assocData ≠ .error .panic ∧
    ∀ payload next, peelWithSecret C ss packet assocData = .ok (.forward payload next) →
      ∃ hm rest, decryptBuf C ss packet.payloads = frame payload hm ++ rest ∧
        next.payloads = rest.take payloadsLen

/-- A hop handles every packet except those that overrun. -/
theorem peels_safely_iff (C : Crypto) (ss : Bytes32) (packet : OnionPacket) (assocData : List UInt8) :
    PeelsSafely C ss packet assocData ↔ ¬ Overruns C ss packet assocData := by
  constructor
  · intro hsafe hover
    exact hsafe.1 (peelWithSecret_eq_panic.2 hover)
  · intro hfit
    exact ⟨fun hpanic => hfit (peelWithSecret_eq_panic.1 hpanic), fun _ _ => forward_payloads⟩

end

/-! ## An onion that crashes a hop -/

namespace Demo

/-- The length 1268, and ones. -/
def payloads : List UInt8 := BigSize.write 1268 ++ List.replicate 1297 1

def packet : OnionPacket where
  version := 0
  ephemeralKey := ⟨Vector.replicate 33 2⟩
  payloads := payloads
  hmac := mac .transparent zero32 payloads []
  length_payloads := by
    rw [payloads, List.length_append, BigSize.length_write, List.length_replicate]
    rfl

/-- The next HMAC lies across the end of the payloads. -/
def nextHmac : Bytes32 :=
  ⟨(List.replicate 29 (1 : UInt8) ++ List.replicate 3 0).toArray, by decide⟩

theorem xorInto_replicate_zero (bs : List UInt8) (n : Nat) : xorInto bs (List.replicate n 0) = bs := by
  induction bs generalizing n with
  | nil => rw [nil_xorInto]
  | cons b bs ih =>
    cases n with
    | zero => rw [List.replicate_zero, xorInto_nil]
    | succ n => rw [List.replicate_succ, xorInto_cons, ih, UInt8.xor_zero]

theorem decryptBuf_packet : decryptBuf .transparent zero32 packet.payloads =
    frame (List.replicate 1268 1) nextHmac ++ List.replicate 1297 0 := by
  have hones : List.replicate 1297 (1 : UInt8) = List.replicate 1268 1 ++ List.replicate 29 1 := by
    rw [List.replicate_append_replicate]
  have hzeros : List.replicate 1300 (0 : UInt8) = List.replicate 3 0 ++ List.replicate 1297 0 := by
    rw [List.replicate_append_replicate]
  have hhmac : nextHmac.toList = List.replicate 29 1 ++ List.replicate 3 0 := rfl
  change xorInto (payloads ++ List.replicate 1300 0) (List.replicate (payloadsLen * 2) 0) = _
  rw [xorInto_replicate_zero, payloads, hones, hzeros, frame, List.length_replicate, hhmac]
  simp only [List.append_assoc]

end Demo

theorem peel_overrun : ¬ PeelsSafely .transparent zero32 Demo.packet [] := by
  have hopens : Opens .transparent zero32 Demo.packet [] (List.replicate 1268 1) Demo.nextHmac
      (List.replicate 1297 0) := by
    refine ⟨rfl, rfl, Demo.decryptBuf_packet, ?_, ?_⟩
    · rw [List.length_replicate]
      decide
    · rw [List.length_replicate]
      decide
  have hover : Overruns .transparent zero32 Demo.packet [] := by
    refine ⟨_, _, _, hopens, by decide, .inl ⟨?_, _, rfl⟩⟩
    rw [List.length_replicate]
    decide
  exact fun hsafe => hsafe.1 (peelWithSecret_eq_panic.2 hover)

end Onion
