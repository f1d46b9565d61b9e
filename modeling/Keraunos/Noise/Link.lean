import Keraunos.Lib.Run
import Keraunos.Noise.Peer
import Mathlib.Logic.Function.Basic

/-!
# Two connected peers

The two ends of a connection and the bytes on their way, in each direction. A step encrypts a message
at one end, or hands the next bytes in flight to the other: how many arrive at once is part of the
input, so a run cuts the streams in any way.
-/

namespace Noise

inductive Role where
  | initiator
  | responder
  deriving DecidableEq, Repr

def Role.other : Role → Role
  | .initiator => .responder
  | .responder => .initiator

@[simp] theorem Role.other_other (r : Role) : r.other.other = r := by cases r <;> rfl

theorem Role.other_ne (r : Role) : r.other ≠ r := by cases r <;> decide

theorem Role.eq_or_other (r r' : Role) : r = r' ∨ r.other = r' := by
  cases r <;> cases r' <;> decide

structure Link where
  peer : Role → Peer
  /-- Bytes on their way to a side. -/
  inbox : Role → List UInt8
  /-- History: the messages a side has encrypted. -/
  sent : Role → List (List UInt8)
  /-- History: the messages a side has read. -/
  read : Role → List (List UInt8)

namespace Link

inductive Input where
  /-- Encrypt a message. -/
  | send (role : Role) (msg : List UInt8)
  /-- The next `n` bytes arrive at once. -/
  | deliver (role : Role) (n : Nat)

section
variable (P : Primitives)

/-- An initiator that dials the key of the responder; its act 1 is on the way. -/
def start (initiatorStatic initiatorEphemeral responderStatic responderEphemeral : SecretKey) : Link :=
  let remote := P.C.publicKey responderStatic
  let (initiator, act1) := (Initiator.new P initiatorStatic remote initiatorEphemeral).actOne P
  { peer := fun
      | .initiator => .newOutbound initiator remote
      | .responder => .newInbound (.new P responderStatic responderEphemeral)
    inbox := fun
      | .initiator => []
      | .responder => act1
    sent := fun _ => []
    read := fun _ => [] }

open Function in
/-- A side has encrypted a message. -/
def encrypted (l : Link) (r : Role) (msg bytes : List UInt8) (p : Peer) : Link :=
  { l with
    peer := update l.peer r p
    inbox := update l.inbox r.other (l.inbox r.other ++ bytes)
    sent := update l.sent r (l.sent r ++ [msg]) }

open Function in
/-- A side has been fed the next `n` bytes; it writes back and reads. -/
def fed (l : Link) (r : Role) (n : Nat) (o : PeerInput) (p : Peer) : Link :=
  let inbox := update l.inbox r ((l.inbox r).drop n)
  { l with
    peer := update l.peer r p
    inbox := update inbox r.other (inbox r.other ++ o.1.flatten)
    read := update l.read r (l.read r ++ o.2) }

def step : Input → Act NoiseError Link Unit
  | .send r msg => fun l =>
    match (l.peer r).encrypt P msg with
    | .ok bytes p => .ok () (l.encrypted r msg bytes p)
    | .error e p => .error e { l with peer := Function.update l.peer r p }
  | .deliver r n => fun l =>
    match (l.peer r).input P ((l.inbox r).take n) with
    | .ok o p => .ok () (l.fed r n o p)
    | .error e p => .error e (l.fed r n ([], []) p)

end

end Link

end Noise
