import Keraunos.Lib.Word
import Keraunos.Node.Payments

/-!
# The forwarding policy on words (`node/mod.rs`)

What `forward_htlc` computes before it offers an HTLC, with the arithmetic of the source: amounts are
`u64`s, expiries `u32`s, and sums and products are unchecked operators. The sender of the onion
chooses one operand of each. `checkForward` is what an unchecked build makes of it
(`checkForward64_unchecked`).
-/

namespace Node

section
variable {ε : Type} (m : Overflow)

/-- The fee for forwarding an amount. -/
def forwardingFee64 (p : ForwardingPolicy) (amtToForward : Msat) : Except (Fault ε) Msat := do
  let product ← m.mul amtToForward p.feeProportionalMillionths
  m.add p.feeBaseMsat (product / 1000000)

/-- The fee and expiry policy, once the fee is known; a failure code when it is not met. -/
def checkAgainst64 (p : ForwardingPolicy) (htlc : CommittedInboundHtlc) (payload : Onion.HopPayload)
    (fee : Msat) : Except (Fault ε) (Option Nat) := do
  let needed ← m.add payload.amtToForward fee
  if htlc.amountMsat < needed then return some failFeeInsufficient
  else
    let expiry ← m.add32 payload.outgoingCltvValue p.cltvExpiryDelta
    if htlc.cltvExpiry < expiry then return some failIncorrectCltvExpiry
    else return none

def checkForward64 (p : ForwardingPolicy) (htlc : CommittedInboundHtlc)
    (payload : Onion.HopPayload) : Except (Fault ε) (Option Nat) := do
  let fee ← forwardingFee64 m p payload.amtToForward
  checkAgainst64 m p htlc payload fee

end

theorem checkForward64_unchecked {ε : Type} (p : ForwardingPolicy) (htlc : CommittedInboundHtlc)
    (payload : Onion.HopPayload) :
    (checkForward64 .unchecked p htlc payload : Except (Fault ε) (Option Nat)) =
      .ok (checkForward p htlc payload) := by
  have hbind {α β : Type} (a : α) (f : α → Except (Fault ε) β) : (Except.ok a >>= f) = f a := rfl
  have hite {c d : Prop} [Decidable c] [Decidable d] {x y z : Option Nat} :
      (if c then pure x else if d then pure y else pure z : Except (Fault ε) (Option Nat)) =
        .ok (if c then x else if d then y else z) := by
    split
    · rfl
    · split
      · rfl
      · rfl
  simp only [checkForward64, checkAgainst64, forwardingFee64, Overflow.mul, Overflow.add,
    Overflow.unchecked_word_eq, Overflow.unchecked_add32_eq, hbind]
  exact hite

end Node
