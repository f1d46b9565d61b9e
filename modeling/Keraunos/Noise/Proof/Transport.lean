import Keraunos.Lib.Bytes
import Keraunos.Noise.Cipher

/-!
# The encrypted stream

`Decodes P c bytes msgs c'`: encrypted from the cipher state `c` on, `msgs` are `bytes` and leave `c'`.
A transport `Expects` such a stream, partly in its buffer and partly still to come, from the start of
a frame or behind its length. Reading any part of what is to come yields some of the messages and
leaves the transport expecting the rest (`allMessages_reads`).
-/

namespace Noise

open Bytes

variable {P : Primitives} {c c' c'' : CipherState}

/-! ## AEAD -/

@[simp] theorem length_encrypt (key : Bytes32) (nonce : Vector UInt8 12) (aad plaintext : List UInt8) :
    (encrypt P key nonce aad plaintext).length = plaintext.length + 16 := by
  simp [encrypt]

/-- Decryption undoes encryption. -/
@[simp] theorem decrypt_encrypt (key : Bytes32) (nonce : Vector UInt8 12)
    (aad plaintext : List UInt8) :
    decrypt P key nonce aad (encrypt P key nonce aad plaintext) = some plaintext := by
  have hlen := length_encrypt (P := P) key nonce aad plaintext
  unfold decrypt
  rw [if_neg (by omega), hlen, Nat.add_sub_cancel]
  have htake : (encrypt P key nonce aad plaintext).take plaintext.length =
      xorInto plaintext (P.chacha20 key nonce 1 plaintext.length) := by
    simp [encrypt]
  have hdrop : (encrypt P key nonce aad plaintext).drop plaintext.length =
      (mac P key nonce aad (xorInto plaintext (P.chacha20 key nonce 1 plaintext.length))).toList := by
    simp [encrypt]
  simp only [htake, hdrop, if_true, length_xorInto, xorInto_xorInto]

/-! ## Frames -/

/-- Encrypt with the next key and nonce. -/
def CipherState.seal (P : Primitives) (c : CipherState) (plaintext : List UInt8) : List UInt8 :=
  encrypt P (c.process P).1.1 (c.process P).1.2 [] plaintext

/-- The state after the next operation. -/
def CipherState.next (P : Primitives) (c : CipherState) : CipherState := (c.process P).2

/-- The frame of a message: its length, then its body. -/
def frame (P : Primitives) (c : CipherState) (msg : List UInt8) : List UInt8 :=
  c.seal P (beBytes 2 msg.length) ++ (c.next P).seal P msg

theorem frame_ne_nil (P : Primitives) (c : CipherState) (msg : List UInt8) : frame P c msg ≠ [] := by
  intro hnil
  have hlen := congrArg List.length hnil
  simp [frame, CipherState.seal, encrypt] at hlen

/-- The state after a frame. -/
def CipherState.nextFrame (P : Primitives) (c : CipherState) : CipherState := (c.next P).next P

@[simp] theorem length_seal (c : CipherState) (plaintext : List UInt8) :
    (c.seal P plaintext).length = plaintext.length + 16 := length_encrypt ..

theorem encryptMessage_eq (t : Transport) {msg : List UInt8} (h : msg.length ≤ maxMsgLen) :
    Transport.encryptMessage P msg t =
      .ok (frame P t.send msg) { t with send := t.send.nextFrame P } := by
  unfold Transport.encryptMessage
  rw [if_neg (Nat.not_lt_of_le h)]
  rfl

inductive Decodes (P : Primitives) : CipherState → List UInt8 → List (List UInt8) → CipherState → Prop
  | nil (c : CipherState) : Decodes P c [] [] c
  | cons {c c' : CipherState} {msg bytes : List UInt8} {msgs : List (List UInt8)} :
      msg.length ≤ maxMsgLen → Decodes P (c.nextFrame P) bytes msgs c' →
      Decodes P c (frame P c msg ++ bytes) (msg :: msgs) c'

/-- One more message. -/
theorem Decodes.snoc {bytes msg : List UInt8} {msgs : List (List UInt8)}
    (h : Decodes P c bytes msgs c') (hm : msg.length ≤ maxMsgLen) :
    Decodes P c (bytes ++ frame P c' msg) (msgs ++ [msg]) (c'.nextFrame P) := by
  induction h with
  | nil c =>
    have hone := Decodes.cons (c := c) hm (.nil (c.nextFrame P))
    rwa [List.append_nil] at hone
  | cons hle _ ih =>
    rw [List.append_assoc]
    exact .cons hle ih

namespace Transport

/-- With the bytes still to come, `t` will have read the messages and be in the state `c`. -/
inductive Expects (P : Primitives) (t : Transport) (rest : List UInt8) :
    List (List UInt8) → CipherState → Prop
  | start {msgs : List (List UInt8)} {c : CipherState} : t.pendingLen = none →
      Decodes P t.recv (t.buffer ++ rest) msgs c → Expects P t rest msgs c
  | body {msg bytes : List UInt8} {msgs : List (List UInt8)} {c : CipherState} :
      t.pendingLen = some msg.length → t.buffer ++ rest = t.recv.seal P msg ++ bytes →
      Decodes P (t.recv.next P) bytes msgs c → Expects P t rest (msg :: msgs) c

variable {t t' : Transport} {data rest : List UInt8} {msgs : List (List UInt8)}

/-- The sender adds a message. -/
theorem Expects.snoc {msg : List UInt8} (h : Expects P t rest msgs c) (hm : msg.length ≤ maxMsgLen) :
    Expects P t (rest ++ frame P c msg) (msgs ++ [msg]) (c.nextFrame P) := by
  cases h with
  | start hp hd =>
    refine .start hp ?_
    rw [← List.append_assoc]
    exact hd.snoc hm
  | body hp hb hd =>
    refine .body hp ?_ (hd.snoc hm)
    rw [← List.append_assoc, hb, List.append_assoc]

/-- Only the receiving side counts. -/
theorem Expects.congr (h : Expects P t rest msgs c) (hr : t'.recv = t.recv)
    (hb : t'.buffer = t.buffer) (hp : t'.pendingLen = t.pendingLen) : Expects P t' rest msgs c := by
  cases h with
  | start hn hd => exact .start (hp.trans hn) (by rw [hr, hb]; exact hd)
  | body hn he hd => exact .body (hp.trans hn) (by rw [hr, hb]; exact he) (by rw [hr]; exact hd)

theorem Expects.readInput (h : Expects P t (data ++ rest) msgs c) :
    Expects P (t.readInput data) rest msgs c := by
  cases h with
  | start hp hd =>
    rw [← List.append_assoc] at hd
    exact .start hp hd
  | body hp hb hd =>
    rw [← List.append_assoc] at hb
    exact .body hp hb hd

/-- What reading one message makes of a transport: it pops the first of the messages expected, or
there is not enough for it. -/
structure Pops (P : Primitives) (t : Transport) (rest : List UInt8) (msgs : List (List UInt8))
    (c : CipherState) (popped : Option (List UInt8)) (t' : Transport) : Prop where
  send : t'.send = t.send
  waits : popped = none → Expects P t' rest msgs c ∧ (rest = [] → msgs = [])
  pops : ∀ msg, popped = some msg → t'.buffer.length + 16 ≤ t.buffer.length ∧
    ∃ msgs', msgs = msg :: msgs' ∧ Expects P t' rest msgs' c

theorem nextBody_pops {msg bytes : List UInt8} (hp : t.pendingLen = some msg.length)
    (hb : t.buffer ++ rest = t.recv.seal P msg ++ bytes) (hd : Decodes P (t.recv.next P) bytes msgs c) :
    Act.wp (nextBody P msg.length) t (Pops P t rest (msg :: msgs) c) fun _ _ => False := by
  have hlen := congrArg List.length hb
  rw [List.length_append, List.length_append, length_seal] at hlen
  simp only [nextBody, Act.wp_bind, Act.wp_get, Act.wp_ite, Act.wp_set, Act.wp_okOr, Act.wp_pure]
  refine ⟨fun hshort => ⟨rfl, fun _ => ⟨.body hp hb hd, fun hnil => ?_⟩, fun _ h => by cases h⟩, fun henough => ?_⟩
  · rw [hnil, List.length_nil] at hlen
    omega
  · have hsplit : t.recv.seal P msg <+: t.buffer :=
      List.prefix_of_prefix_length_le ⟨bytes, hb.symm⟩ ⟨rest, rfl⟩ (by rw [length_seal]; omega)
    obtain ⟨tail, htail⟩ := hsplit
    have htake : t.buffer.take (msg.length + 16) = t.recv.seal P msg := by
      rw [← htail, List.take_left' (length_seal ..)]
    have hdrop : t.buffer.drop (msg.length + 16) = tail := by
      rw [← htail, List.drop_left' (length_seal ..)]
    have hplain : decrypt P (t.recv.process P).1.1 (t.recv.process P).1.2 []
        (t.buffer.take (msg.length + 16)) = some msg := by
      rw [htake]
      exact decrypt_encrypt ..
    refine ⟨fun plain hplain' => ?_, fun hnone => by cases hplain.symm.trans hnone⟩
    obtain rfl := Option.some.inj (hplain.symm.trans hplain')
    refine ⟨rfl, fun h => (by cases h), fun m hm => ?_⟩
    obtain rfl := Option.some.inj hm
    have hbytes : tail ++ rest = bytes := by
      rw [← htail, List.append_assoc] at hb
      exact List.append_cancel_left hb
    refine ⟨?_, msgs, rfl, .start rfl ?_⟩
    · show (t.buffer.drop _).length + 16 ≤ _
      rw [List.length_drop]
      omega
    · show Decodes P (t.recv.next P) (t.buffer.drop (msg.length + 16) ++ rest) msgs c
      rw [hdrop, hbytes]
      exact hd

theorem nextMessage_pops (h : Expects P t rest msgs c) :
    Act.wp (nextMessage P) t (Pops P t rest msgs c) fun _ _ => False := by
  unfold nextMessage
  rw [Act.wp_bind, Act.wp_get]
  cases h with
  | body hp hb hd =>
    rw [hp]
    exact nextBody_pops hp hb hd
  | start hp hd =>
    rw [hp]
    simp only [Act.wp_bind, Act.wp_get, Act.wp_ite, Act.wp_pure]
    generalize hbuf : t.buffer ++ rest = stream at hd
    have hd' := hd
    cases hd with
    | nil =>
      obtain ⟨hnil, hrest⟩ := List.append_eq_nil_iff.1 hbuf
      refine ⟨fun _ => ⟨rfl, fun _ => ⟨.start hp (hbuf ▸ hd'), fun _ => rfl⟩, fun _ h => by cases h⟩, fun hlong => ?_⟩
      rw [hnil] at hlong
      exact absurd (by decide) hlong
    | @cons _ _ msg bytes msgs hle hd =>
      have hsize : (t.recv.seal P (beBytes 2 msg.length)).length = 18 := by
        rw [length_seal, length_beBytes]
      refine ⟨fun hshort => ⟨rfl, fun _ => ⟨.start hp (hbuf ▸ hd'), fun hnil => ?_⟩, fun _ h => by cases h⟩,
        fun hlong => ?_⟩
      · have hlen := congrArg List.length hbuf
        rw [hnil, List.append_nil, frame, List.length_append, List.length_append, hsize] at hlen
        omega
      · rw [frame, List.append_assoc] at hbuf
        obtain ⟨tail, htail⟩ : t.recv.seal P (beBytes 2 msg.length) <+: t.buffer :=
          List.prefix_of_prefix_length_le ⟨_, hbuf.symm⟩ ⟨rest, rfl⟩ (by omega)
        have htake : t.buffer.take 18 = t.recv.seal P (beBytes 2 msg.length) := by
          rw [← htail, List.take_left' hsize]
        have hdrop : t.buffer.drop 18 = tail := by
          rw [← htail, List.drop_left' hsize]
        have hplain : decrypt P (t.recv.process P).1.1 (t.recv.process P).1.2 []
            (t.buffer.take 18) = some (beBytes 2 msg.length) := by
          rw [htake]
          exact decrypt_encrypt ..
        have hval : beVal (beBytes 2 msg.length) = msg.length := by
          rw [beVal_beBytes]
          exact Nat.mod_eq_of_lt (Nat.lt_succ_of_le hle)
        have hrest : tail ++ rest = (t.recv.next P).seal P msg ++ bytes := by
          rw [← htail, List.append_assoc] at hbuf
          exact List.append_cancel_left hbuf
        simp only [nextLength, Act.wp_bind, Act.wp_get, Act.wp_set, Act.wp_okOr, Act.wp_expect, hplain]
        refine ⟨fun plain hp' => ?_, fun h => by cases h⟩
        obtain rfl := Option.some.inj hp'
        rw [if_pos (length_beBytes ..), hval]
        refine ⟨fun len hlen => ?_, fun h => by cases h⟩
        obtain rfl := Option.some.inj hlen
        refine ⟨fun len hlen => ?_, fun h => by cases h⟩
        obtain rfl := Option.some.inj hlen
        have hbody : t.buffer.drop 18 ++ rest = (t.recv.next P).seal P msg ++ bytes := by
          rw [hdrop]
          exact hrest
        refine Act.wp_mono (nextBody_pops rfl hbody hd) ?_ fun _ _ hf => hf
        intro popped t' hpop
        refine ⟨hpop.send, hpop.waits, fun m hm => ?_⟩
        obtain ⟨hshrinks, hrest'⟩ := hpop.pops m hm
        refine ⟨Nat.le_trans hshrinks ?_, hrest'⟩
        show (t.buffer.drop 18).length ≤ _
        rw [List.length_drop]
        omega

/-- What reading all messages makes of a transport that expects some. -/
structure Reads (P : Primitives) (t : Transport) (rest : List UInt8) (msgs : List (List UInt8))
    (c : CipherState) (read : List (List UInt8)) (t' : Transport) : Prop where
  send : t'.send = t.send
  expects : ∃ msgs', msgs = read ++ msgs' ∧ Expects P t' rest msgs' c ∧ (rest = [] → msgs' = [])

theorem nextMessages_reads {fuel : Nat} (hfuel : t.buffer.length < fuel)
    (h : Expects P t rest msgs c) :
    Act.wp (nextMessages P fuel) t (Reads P t rest msgs c) fun _ _ => False := by
  induction fuel generalizing t msgs with
  | zero => cases hfuel
  | succ fuel ih =>
    rw [nextMessages, Act.wp_bind]
    refine Act.wp_mono (nextMessage_pops h) (fun popped t' hpop => ?_) fun _ _ hf => hf
    cases popped with
    | none =>
      obtain ⟨hexp, hdone⟩ := hpop.waits rfl
      exact ⟨hpop.send, msgs, rfl, hexp, hdone⟩
    | some msg =>
      obtain ⟨hshrinks, msgs', rfl, hexp⟩ := hpop.pops msg rfl
      simp only [Act.wp_bind, Act.wp_pure]
      refine Act.wp_mono (ih (by omega) hexp) (fun read t'' hread => ?_) fun _ _ hf => hf
      obtain ⟨hsend, rest', rfl, hexp', hdone⟩ := hread
      exact ⟨hsend.trans hpop.send, rest', rfl, hexp', hdone⟩

/-- However much of the stream arrives: a prefix of the messages comes out, and all of them with the
last byte. -/
theorem allMessages_reads (h : Expects P t (data ++ rest) msgs c) :
    Act.wp (allMessages P) (t.readInput data) (Reads P (t.readInput data) rest msgs c)
      fun _ _ => False := by
  rw [allMessages, Act.wp_bind, Act.wp_get]
  exact nextMessages_reads (Nat.lt_succ_self _) h.readInput

end Transport

end Noise
