import Keraunos.Lib.Word
import Keraunos.Wire.Msgs

/-!
# Feature positions as 16-bit words (`wire/features.rs`)

`unknown_required_bits` with the arithmetic of the source, where the position of a bit is a `u16`.
`Features.unknownRequiredBits` is what an unchecked build computes.
-/

namespace Features

section
variable {ε : Type} (m : Overflow)

/-- `byte_from_end as u16 * 8 + bit_in_byte`. -/
def position16 (byteFromEnd bitInByte : Nat) : Except (Fault ε) Nat := do
  let first ← m.word16 (byteFromEnd % 2 ^ 16 * 8)
  m.word16 (first + bitInByte)

/-- The body of the loop over the bits of one byte. -/
def scanBit16 (byte : UInt8) (knownEvenBits : List Nat) (byteFromEnd bitInByte : Nat) :
    Except (Fault ε) (Option Nat) := do
  let bit ← position16 m byteFromEnd bitInByte
  return if bit % 2 = 0 ∧ byte &&& ((1 : UInt8) <<< UInt8.ofNat bitInByte) ≠ 0 ∧
      bit ∉ knownEvenBits then some bit
    else none

def scanByte16 (byte : UInt8) (knownEvenBits : List Nat) (byteFromEnd : Nat) :
    Except (Fault ε) (Option Nat) :=
  (List.range 8).findSomeM? (scanBit16 m byte knownEvenBits byteFromEnd)

def unknownRequiredBits16 (f : Features) (knownEvenBits : List Nat) : Except (Fault ε) (Option Nat) :=
  (List.range f.length).findSomeM? fun byteFromEnd =>
    scanByte16 m (f.getD (f.length - 1 - byteFromEnd) 0) knownEvenBits byteFromEnd

end

end Features
