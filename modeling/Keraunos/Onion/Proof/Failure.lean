import Keraunos.Onion.Packet

/-!
# The error return

Each hop XORs its stream over the packet it sends back, and the origin takes the streams off in the
opposite order (`wrap_wrap`). So it meets the erring hop's packet as that hop built it
(`decryptFrom_sentBack`).
-/

namespace Onion.Failure

open Bytes

variable {C : Crypto}

/-- The packet as it leaves the first of these hops; the last one got `packet`. -/
def sentBack (C : Crypto) (hops : List Bytes32) (packet : List UInt8) : List UInt8 :=
  hops.foldr (wrap C) packet

/-- The MAC of an unwrapped packet verifies under the hop's key. -/
def Verifies (C : Crypto) (ss : Bytes32) (data : List UInt8) : Prop :=
  (C.hmacSha256 (generateKey C umType ss).toList (data.drop 32)).toList = data.take 32

/-- The body of a return packet: the message between its length and the padding. -/
def body (failuremsg : List UInt8) : List UInt8 :=
  let padLen := (if failuremsg.length ≤ 256 then 256 else 1024) - failuremsg.length
  beBytes 2 failuremsg.length ++ failuremsg ++ beBytes 2 padLen ++ List.replicate padLen 0

/-- The return packet before its own stream. -/
def plain (C : Crypto) (ss : Bytes32) (failuremsg : List UInt8) : List UInt8 :=
  (C.hmacSha256 (generateKey C umType ss).toList (body failuremsg)).toList ++ body failuremsg

theorem build_eq (ss : Bytes32) (failuremsg : List UInt8) :
    build C ss failuremsg = wrap C ss (plain C ss failuremsg) := rfl

@[simp] theorem length_wrap (ss : Bytes32) (packet : List UInt8) :
    (wrap C ss packet).length = packet.length := length_xorInto _ _

/-- The same stream takes itself off. -/
@[simp] theorem wrap_wrap (ss : Bytes32) (packet : List UInt8) :
    wrap C ss (wrap C ss packet) = packet := by
  rw [wrap, length_wrap, wrap, xorInto_xorInto]

@[simp] theorem length_sentBack (hops : List Bytes32) (packet : List UInt8) :
    (sentBack C hops packet).length = packet.length := by
  induction hops with
  | nil => rfl
  | cons ss hops ih => exact (length_wrap ss _).trans ih

theorem length_plain (ss : Bytes32) (failuremsg : List UInt8) : 36 ≤ (plain C ss failuremsg).length := by
  simp only [plain, body, List.length_append, length_beBytes, Vector.length_toList]
  omega

theorem take_plain (ss : Bytes32) (failuremsg : List UInt8) : (plain C ss failuremsg).take 32 =
    (C.hmacSha256 (generateKey C umType ss).toList (body failuremsg)).toList :=
  List.take_left' Vector.length_toList

theorem drop_plain (ss : Bytes32) (failuremsg : List UInt8) :
    (plain C ss failuremsg).drop 32 = body failuremsg := List.drop_left' Vector.length_toList

/-- The message is framed by its length. -/
theorem body_frame {failuremsg : List UInt8} (h : failuremsg.length < 2 ^ 16) :
    beVal ((body failuremsg).take 2) = failuremsg.length ∧
      2 + failuremsg.length ≤ (body failuremsg).length ∧
      ((body failuremsg).drop 2).take failuremsg.length = failuremsg := by
  obtain ⟨rest, hbody⟩ : ∃ rest, body failuremsg = beBytes 2 failuremsg.length ++ (failuremsg ++ rest) :=
    ⟨_, by simp only [body, List.append_assoc]; rfl⟩
  have hlen : (beBytes 2 failuremsg.length).length = 2 := length_beBytes _ _
  rw [hbody, List.take_left' hlen, List.drop_left' hlen, beVal_beBytes]
  refine ⟨Nat.mod_eq_of_lt h, ?_, List.take_left⟩
  rw [List.length_append, List.length_append, hlen]
  omega

/-- The origin meets the erring hop's packet as that hop built it. -/
theorem decryptFrom_plain {failuremsg : List UInt8} (h : failuremsg.length < 2 ^ 16) (i : Nat)
    (ss : Bytes32) (rest : List Bytes32) :
    decryptFrom C i (ss :: rest) (build C ss failuremsg) = some (i, failuremsg) := by
  obtain ⟨hval, hle, hmsg⟩ := body_frame h
  have hlen : ¬ (plain C ss failuremsg).length < 34 := by
    have := length_plain (C := C) ss failuremsg
    omega
  rw [decryptFrom, build_eq, wrap_wrap]
  dsimp only
  rw [if_neg hlen, drop_plain, take_plain, if_pos rfl, hval, if_neg (Nat.not_lt.2 hle), hmsg]

/-- Induction over the hops before the erring one, whose MACs do not verify. -/
theorem decryptFrom_sentBack {failuremsg : List UInt8} (h : failuremsg.length < 2 ^ 16) (ss : Bytes32)
    (rest : List Bytes32) (hops : List Bytes32) (i : Nat)
    (hmac : ∀ before hop after, hops = before ++ hop :: after →
      ¬ Verifies C hop (sentBack C after (build C ss failuremsg))) :
    decryptFrom C i (hops ++ ss :: rest) (sentBack C hops (build C ss failuremsg)) =
      some (i + hops.length, failuremsg) := by
  induction hops generalizing i with
  | nil => exact decryptFrom_plain h i ss rest
  | cons hop hops ih =>
    have hlen : ¬ (sentBack C hops (build C ss failuremsg)).length < 34 := by
      have := length_plain (C := C) ss failuremsg
      rw [length_sentBack, build_eq, length_wrap]
      omega
    have hno : ¬ Verifies C hop (sentBack C hops (build C ss failuremsg)) := hmac [] hop hops rfl
    have hunwrap : wrap C hop (sentBack C (hop :: hops) (build C ss failuremsg)) =
        sentBack C hops (build C ss failuremsg) := wrap_wrap hop _
    rw [List.cons_append, decryptFrom, hunwrap]
    dsimp only
    unfold Verifies at hno
    rw [if_neg hlen, if_neg hno, ih (i + 1) fun before hop' after heq =>
      hmac (hop :: before) hop' after (by rw [heq]; rfl), List.length_cons]
    congr 2
    omega

/-- A failure of hop `k` is decrypted to `k` and its message, unless the MAC of an earlier hop verifies
by accident. -/
theorem decrypt_sentBack (C : Crypto) (sharedSecrets : List Bytes32) (k : Nat) (ss : Bytes32)
    (hk : sharedSecrets[k]? = some ss) (failuremsg : List UInt8) (hlen : failuremsg.length ≤ 65535)
    (hmac : ∀ i hop, i < k → sharedSecrets[i]? = some hop →
      ¬ Verifies C hop (sentBack C ((sharedSecrets.take k).drop (i + 1)) (build C ss failuremsg))) :
    decrypt C sharedSecrets (sentBack C (sharedSecrets.take k) (build C ss failuremsg)) =
      some (k, failuremsg) := by
  obtain ⟨hlt, hget⟩ := List.getElem?_eq_some_iff.1 hk
  have hsplit : sharedSecrets = sharedSecrets.take k ++ ss :: sharedSecrets.drop (k + 1) := by
    rw [← hget, List.getElem_cons_drop, List.take_append_drop]
  have hcount : (sharedSecrets.take k).length = k := List.length_take_of_le hlt.le
  have hresult := decryptFrom_sentBack (C := C) (Nat.lt_succ_of_le hlen) ss (sharedSecrets.drop (k + 1))
    (sharedSecrets.take k) 0 fun before hop after heq => ?_
  · rw [← hsplit, hcount, Nat.zero_add] at hresult
    exact hresult
  · have hi : before.length < k := by
      have := congrArg List.length heq
      rw [hcount, List.length_append, List.length_cons] at this
      omega
    have hhop : sharedSecrets[before.length]? = some hop := by
      rw [← List.getElem?_take_of_lt hi, heq, List.getElem?_append_right (Nat.le_refl _), Nat.sub_self]
      rfl
    have hafter : (sharedSecrets.take k).drop (before.length + 1) = after := by
      rw [heq]
      simp
    rw [← hafter]
    exact hmac before.length hop hi hhop

/-- A temporary failure of the last of two hops. -/
theorem decrypt_sentBack_pair :
    decrypt .transparent [Vector.replicate 32 1, Vector.replicate 32 2]
      (sentBack .transparent [Vector.replicate 32 1]
        (build .transparent (Vector.replicate 32 2) [0x10, 7])) = some (1, [0x10, 7]) := by
  refine decrypt_sentBack .transparent [Vector.replicate 32 1, Vector.replicate 32 2] 1 _ rfl _
    (by decide) fun i hop hi hhop => ?_
  obtain rfl : i = 0 := by omega
  obtain rfl := Option.some.inj hhop
  unfold Verifies
  decide +kernel

end Onion.Failure
