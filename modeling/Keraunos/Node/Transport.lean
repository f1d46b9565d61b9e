import Keraunos.Node.State
import Keraunos.Noise.Peer
import Keraunos.Wire.Codec

/-!
# The transport of a node (`node/peer.rs`)

The environment whose connections are those of the Noise layer: sockets carry bytes, and what is
decrypted is decoded as a message.
-/

namespace Noise.Peer

variable {P : Primitives} {p : Peer} {data : List UInt8}

theorem inputReady_nodeId (t : Transport) :
    Act.wp (inputReady P t data) p (fun _ p' => p'.nodeId = p.nodeId ∧ p'.isTransport)
      fun _ p' => p'.nodeId = p.nodeId ∧ p'.isTransport := by
  unfold Act.wp inputReady
  cases Transport.allMessages P (t.readInput data) with
  | ok msgs t' => exact ⟨rfl, rfl⟩
  | error e t' => exact ⟨rfl, rfl⟩

theorem inputActThree_known {resp : Responder} {toSend : List (List UInt8)}
    (h : p.nodeId.isSome) : Act.wp (inputActThree P resp toSend) p (fun _ p' => p'.nodeId.isSome)
      fun _ p' => p'.nodeId.isSome := by
  simp only [inputActThree, Act.wp_bind, Act.wp_modify, Act.wp_get, Act.wp_ite, Act.wp_pure,
    Act.wp_lift]
  refine ⟨fun _ => h, fun _ => ⟨fun _ _ => ?_, fun _ _ => h⟩⟩
  exact Act.wp_mono (inputReady_nodeId _) (fun _ _ h => by rw [h.1]; rfl) fun _ _ h => by rw [h.1]; rfl

theorem input_known (h : p.nodeId.isSome) :
    Act.wp (input P data) p (fun _ p' => p'.nodeId.isSome) fun _ p' => p'.nodeId.isSome := by
  rw [input, Act.wp_bind, Act.wp_get]
  split
  · simp only [inputOutbound, Act.wp_bind, Act.wp_modify, Act.wp_get, Act.wp_ite, Act.wp_pure,
      Act.wp_lift]
    refine ⟨fun _ => h, fun _ => ⟨fun _ _ => ⟨fun _ _ => ?_, fun _ _ => h⟩, fun _ _ => h⟩⟩
    exact Act.wp_mono (inputReady_nodeId _) (fun _ _ hid => by rw [hid.1]; exact h)
      fun _ _ hid => by rw [hid.1]; exact h
  · simp only [inputInbound, Act.wp_bind, Act.wp_modify, Act.wp_get, Act.wp_ite, Act.wp_pure,
      Act.wp_lift]
    refine ⟨fun _ => inputActThree_known h, fun _ => ⟨fun _ => h, fun _ => ⟨fun _ _ => ?_, fun _ _ => h⟩⟩⟩
    exact inputActThree_known h
  · refine (Act.wp_bind _ _).2 (Act.wp_mono (inputReady_nodeId _) (fun _ p' hid => ?_) fun _ p' hid => ?_)
    · show p'.nodeId.isSome
      rw [hid.1]
      exact h
    · rw [hid.1]
      exact h
  · exact h

theorem input_transport (h : p.isTransport) :
    Act.wp (input P data) p (fun _ p' => p'.nodeId = p.nodeId ∧ p'.isTransport)
      fun _ p' => p'.nodeId = p.nodeId ∧ p'.isTransport := by
  rw [input, Act.wp_bind, Act.wp_get]
  cases ht : p.transport with
  | ready t => exact (Act.wp_bind _ _).2 (inputReady_nodeId t)
  | _ =>
    rw [isTransport, ht] at h
    cases h

theorem encrypt_same (plaintext : List UInt8) :
    Act.wp (encrypt P plaintext) p (fun _ p' => p'.nodeId = p.nodeId ∧ p'.isTransport = p.isTransport)
      fun _ p' => p'.nodeId = p.nodeId ∧ p'.isTransport = p.isTransport := by
  unfold Act.wp encrypt isTransport
  cases ht : p.transport with
  | ready t =>
    dsimp only
    cases Noise.Transport.encryptMessage P plaintext t with
    | ok bytes t' => exact ⟨rfl, rfl⟩
    | error e t' => exact ⟨rfl, rfl⟩
  | _ => exact ⟨rfl, by rw [ht]⟩

/-! ## As part of a node -/

/-- The peer a call leaves. -/
def after {α : Type} (x : PeerAct α) (p : Peer) : Peer :=
  match x p with
  | .ok _ p' => p'
  | .error _ p' => p'

theorem after_of_wp {α : Type} {x : PeerAct α} {Q : Peer → Prop}
    (h : Act.wp x p (fun _ p' => Q p') fun _ p' => Q p') : Q (after x p) := by
  unfold after
  unfold Act.wp at h
  split at h
  · next hx => rw [hx]; exact h
  · next hx => rw [hx]; exact h

end Noise.Peer

/-! ## Connections of a node -/

namespace Connection

open Noise (Primitives)
open Noise.Peer (after after_of_wp)

variable {P : Primitives} {p : Noise.Peer} {data : List UInt8}

/-- `Peer::input`, the messages decoded and the identity as it becomes known. -/
def input (P : Primitives) (p : Noise.Peer) (data : List UInt8) : PeerInput (List UInt8) Noise.Peer where
  transport := after (Noise.Peer.input P data) p
  nodeId := if p.nodeId.isSome then none else (after (Noise.Peer.input P data) p).nodeId
  result :=
    match Noise.Peer.input P data p with
    | .ok (toSend, msgs) _ => .ok (toSend, msgs.map (Wire.Message.decode P.K))
    | .error e _ => .error e

/-- `Peer::encrypt`. -/
def encrypt (P : Primitives) (p : Noise.Peer) (msg : Wire.Message) :
    Noise.Peer × Except NoiseError (List UInt8) :=
  (after (Noise.Peer.encrypt P msg.encode) p,
    match Noise.Peer.encrypt P msg.encode p with
    | .ok bytes _ => .ok bytes
    | .error (.err e) _ => .error e
    -- It has no assertion to fail.
    | .error .panic _ => .error .wrongState)

theorem input_revealed (h : (input P p data).nodeId.isSome) :
    (input P p data).transport.nodeId.isSome := by
  unfold input at h
  split at h
  · cases h
  · exact h

theorem input_ready (h : p.isTransport) :
    (input P p data).transport.isTransport ∧ (input P p data).nodeId = none := by
  obtain ⟨hid, hready⟩ := after_of_wp (Noise.Peer.input_transport (P := P) h)
  refine ⟨hready, ?_⟩
  unfold input
  split
  · rfl
  · next hnone =>
    rw [hid]
    exact Option.not_isSome_iff_eq_none.1 hnone

theorem encrypt_same (msg : Wire.Message) :
    (encrypt P p msg).1.nodeId = p.nodeId ∧ (encrypt P p msg).1.isTransport = p.isTransport :=
  after_of_wp (Noise.Peer.encrypt_same msg.encode)

end Connection

/-- The environment `E` with the transport of the Noise layer, under the static key `sk`. -/
def Env.overNoise (E : Env) (P : Noise.Primitives) (sk : SecretKey) : Env :=
  { E with
    Data := List UInt8
    Transport := Noise.Peer
    newOutbound := fun remote ephemeral =>
      let (initiator, act1) := (Noise.Initiator.new P sk remote ephemeral).actOne P
      (.newOutbound initiator remote, act1)
    newInbound := fun ephemeral => .newInbound (.new P sk ephemeral)
    isTransport := Noise.Peer.isTransport
    input := Connection.input P
    encrypt := Connection.encrypt P
    identified := fun p => p.nodeId.isSome
    identified_outbound := fun _ _ => rfl
    identified_revealed := fun _ _ h => Connection.input_revealed h
    identified_input := fun _ _ h => Noise.Peer.after_of_wp (Noise.Peer.input_known h)
    identified_encrypt := fun p msg h => by rwa [(Connection.encrypt_same msg).1]
    input_identified := fun _ _ h => if_pos h }
