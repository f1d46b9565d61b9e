import Keraunos.Channel.Pair
import Keraunos.Channel.Proof.Counterparts

/-!
# Two honest channels

A pair of channels as their owners drive it: an owner gives commands, and what arrives is what the
other channel sent. Its shutdown script and its feerate for a close come with a delivery. A run starts
when `funding_signed` has arrived, with the opener at the end `a`. While the connection lasts nobody
sends `channel_reestablish`. When a message is refused the run is over.
-/

open Bitcoin

/-- The input a peer message is, with our script and feerate for a close. -/
def Wire.Message.toInputWith (ourScript : Script) (targetFeerate : FeeRatePerKw) :
    Wire.Message → Option Channel.Input
  | .shutdown m => some (.shutdown m ourScript)
  | .closingSigned m => some (.closingSigned m targetFeerate)
  | .channelReestablish _ => none
  | m => m.toInput

/-- A command of the owner. -/
def Channel.Input.own : Channel.Input → Bool
  | .createFunding .. | .confirmFunding _ | .sendAddHtlc .. | .sendFulfillHtlc .. | .sendFailHtlc ..
  | .sendFailMalformedHtlc .. | .sendUpdateFee _ | .sendCommitmentSigned | .sendShutdown _
  | .maybeSendClosingSigned _ => true
  | _ => false

namespace Pair

inductive Event where
  | command (side : Side) (input : Channel.Input)
  /-- The oldest message in flight to this end arrives. -/
  | deliver (side : Side) (ourScript : Script) (targetFeerate : FeeRatePerKw)

/-- One step of the pair. -/
def play (C : Crypto) : Event → Act ChannelError Pair (List Wire.Message)
  | .command s i => onSide s (Channel.step C i)
  | .deliver s ourScript targetFeerate => do
    let p ← get
    match p.inbox s with
    | [] => return []
    | m :: ms =>
      set (p.setInbox s ms)
      match m.toInputWith ourScript targetFeerate with
      | some i => onSide s (Channel.step C i)
      | none => return []

/-- The message that arrives is refused. -/
def refuses (C : Crypto) (p : Pair) (e : Event) : Bool :=
  match e, play C e p with
  | .deliver .., .error _ _ => true
  | _, _ => false

/-- The owner's part of a step. -/
def Event.own : Event → Bool
  | .command _ i => i.own
  | .deliver .. => true

/-- The owners give commands, and no message is refused. -/
def Honest (C : Crypto) (p : Pair) (e : Event) : Prop := e.own = true ∧ refuses C p e = false

instance (C : Crypto) (p : Pair) (e : Event) : Decidable (Honest C p e) :=
  inferInstanceAs (Decidable (_ ∧ _))

/-- The two ends of an opening, with nothing under way. -/
inductive Opening (C : Crypto) : Pair → Prop
  | intro {signerA signerB : ChannelSigner} {a b : Channel} :
      Channel.Opened C signerA signerB a b → Opening C ⟨a, b, [], []⟩

end Pair

/-! ## A concrete run -/

namespace Demo

open Channel

/-- An opening with nothing pushed. -/
def opening : OpeningChoices := { dusty with configB := {}, pushMsat := 0 }

/-- The funding confirms, and one HTLC from `a` to `b` is committed on both sides. -/
def honestPayment : List Pair.Event :=
  [.command .a (.confirmFunding 5), .command .b (.confirmFunding 5), .deliver .a [] 0, .deliver .b [] 0,
    .command .a (.sendAddHtlc 5000000 (paymentHash C (bytes 3)) 100 [] (.outbound (bytes 0))),
    .command .a .sendCommitmentSigned, .deliver .b [] 0, .deliver .b [] 0,
    .command .b .sendCommitmentSigned, .deliver .a [] 0, .deliver .a [] 0, .deliver .b [] 0]

/-- The fulfilment of the HTLC, committed on both sides. -/
def honestFulfilment : List Pair.Event :=
  [.command .b (.sendFulfillHtlc 0 (bytes 3)), .command .b .sendCommitmentSigned, .deliver .a [] 0,
    .deliver .a [] 0, .command .a .sendCommitmentSigned, .deliver .b [] 0, .deliver .b [] 0,
    .deliver .a [] 0]

/-- A run of honest owners that computes to a pair with `P`. -/
theorem honest_run (C : Crypto) (es : List Pair.Event) (P : Pair → Prop) [DecidablePred P]
    (h : ((openPair C (tabledSigner 1) (tabledSigner 2) opening).any fun ab =>
      (Run.execWithin (Pair.play C) (Pair.Honest C) ⟨ab.1, ab.2, [], []⟩ es).any
        fun r => P r.2) = true) :
    ∃ a b tr p, Opened C (tabledSigner 1) (tabledSigner 2) a b ∧
      Run.Within (Pair.play C) (Pair.Honest C) ⟨a, b, [], []⟩ tr p ∧ P p := by
  obtain ⟨ab, hopen, h⟩ := (Option.any_eq_true _ _).1 h
  obtain ⟨tr, p, hr, hP⟩ := Run.Within.exists_of_exec es P h
  exact ⟨ab.1, ab.2, tr, p, ⟨opening, hopen⟩, hr, hP⟩

end Demo
