import Keraunos.Lib.Blocks
import Keraunos.Lib.Bytes
import Keraunos.Lib.Word

/-!
# Poly1305 (`crypto/poly1305.rs`)

Five limbs of 26 bits in 32-bit words, products and their sums in 64-bit words. Every `+` and `*` on words
is an operation of the build `m` (`Overflow`), which panics on an overflow or wraps. The buffer is a
`Blocks.Buffer`, which is never full between two calls, so no slice of the source is out of range.
-/

open Blocks Bytes

namespace Poly1305

variable {ε : Type}

/-- `[u32; 5]`, the lowest limb first. -/
structure Limbs where
  (l0 l1 l2 l3 l4 : Nat)
  deriving DecidableEq, Repr

/-- `u32::from_le_bytes(bytes[i..i + 4])`. -/
def le (bytes : List UInt8) (i : Nat) : Nat := fromLeBytes ((bytes.drop i).take 4)

/-- `r`, clamped and split. -/
def clamped (key : List UInt8) : Limbs where
  l0 := le key 0 &&& 0x03ffffff
  l1 := le key 3 >>> 2 &&& 0x03ffff03
  l2 := le key 6 >>> 4 &&& 0x03ffc0ff
  l3 := le key 9 >>> 6 &&& 0x03f03fff
  l4 := le key 12 >>> 8 &&& 0x000fffff

/-! ## A block -/

section
variable (m : Overflow)

/-- `m(a0, b0) + m(a1, b1) + m(a2, b2) + m(a3, b3) + m(a4, b4)`, from left to right. -/
def dot (a b : Limbs) : Except (Fault ε) Nat := do
  let p0 ← m.mul a.l0 b.l0
  let p1 ← m.mul a.l1 b.l1
  let s1 ← m.add p0 p1
  let p2 ← m.mul a.l2 b.l2
  let s2 ← m.add s1 p2
  let p3 ← m.mul a.l3 b.l3
  let s3 ← m.add s2 p3
  let p4 ← m.mul a.l4 b.l4
  m.add s3 p4

/-- `h += m`, with the bit above the block. -/
def addBlock (h : Limbs) (block : List UInt8) (hibit : Nat) : Except (Fault ε) Limbs := do
  let l0 ← m.add32 h.l0 (le block 0 &&& 0x03ffffff)
  let l1 ← m.add32 h.l1 (le block 3 >>> 2 &&& 0x03ffffff)
  let l2 ← m.add32 h.l2 (le block 6 >>> 4 &&& 0x03ffffff)
  let l3 ← m.add32 h.l3 (le block 9 >>> 6 &&& 0x03ffffff)
  let l4 ← m.add32 h.l4 (le block 12 >>> 8 ||| hibit)
  return { l0, l1, l2, l3, l4 }

/-- `h *= r` (mod 2^130 - 5), before the carries. -/
def mulR (r h : Limbs) : Except (Fault ε) Limbs := do
  let s1 ← m.mul32 r.l1 5
  let s2 ← m.mul32 r.l2 5
  let s3 ← m.mul32 r.l3 5
  let s4 ← m.mul32 r.l4 5
  let l0 ← dot m h ⟨r.l0, s4, s3, s2, s1⟩
  let l1 ← dot m h ⟨r.l1, r.l0, s4, s3, s2⟩
  let l2 ← dot m h ⟨r.l2, r.l1, r.l0, s4, s3⟩
  let l3 ← dot m h ⟨r.l3, r.l2, r.l1, r.l0, s4⟩
  let l4 ← dot m h ⟨r.l4, r.l3, r.l2, r.l1, r.l0⟩
  return { l0, l1, l2, l3, l4 }

/-- Partial carry propagation. -/
def carry (d : Limbs) : Except (Fault ε) Limbs := do
  let c := d.l0 >>> 26
  let h0 := (d.l0 &&& 0x03ffffff) % 2 ^ 32
  let d1 ← m.add d.l1 c
  let c := d1 >>> 26
  let h1 := (d1 &&& 0x03ffffff) % 2 ^ 32
  let d2 ← m.add d.l2 c
  let c := d2 >>> 26
  let h2 := (d2 &&& 0x03ffffff) % 2 ^ 32
  let d3 ← m.add d.l3 c
  let c := d3 >>> 26
  let h3 := (d3 &&& 0x03ffffff) % 2 ^ 32
  let d4 ← m.add d.l4 c
  let c := d4 >>> 26
  let h4 := (d4 &&& 0x03ffffff) % 2 ^ 32
  let c5 ← m.mul32 (c % 2 ^ 32) 5
  let h0 ← m.add32 h0 c5
  let c := h0 >>> 26
  let h0 := h0 &&& 0x03ffffff
  let h1 ← m.add32 h1 c
  return ⟨h0, h1, h2, h3, h4⟩

/-- One block; `hibit` is the bit above it in the top limb. -/
def block (r h : Limbs) (bytes : List UInt8) (hibit : Nat) : Except (Fault ε) Limbs := do
  let h ← addBlock m h bytes hibit
  let d ← mulR m r h
  carry m d

end

/-! ## The tag -/

section
variable (m : Overflow)

/-- Full carry. -/
def fullCarry (h : Limbs) : Except (Fault ε) Limbs := do
  let c := h.l1 >>> 26
  let h1 := h.l1 &&& 0x03ffffff
  let h2 ← m.add32 h.l2 c
  let c := h2 >>> 26
  let h2 := h2 &&& 0x03ffffff
  let h3 ← m.add32 h.l3 c
  let c := h3 >>> 26
  let h3 := h3 &&& 0x03ffffff
  let h4 ← m.add32 h.l4 c
  let c := h4 >>> 26
  let h4 := h4 &&& 0x03ffffff
  let c5 ← m.mul32 c 5
  let h0 ← m.add32 h.l0 c5
  let c := h0 >>> 26
  let h0 := h0 &&& 0x03ffffff
  let h1 ← m.add32 h1 c
  return ⟨h0, h1, h2, h3, h4⟩

/-- `a.wrapping_add(b)`. -/
def wrappingAdd (a b : Nat) : Nat := (a + b) % 2 ^ 32

/-- `a.wrapping_sub(b)`. -/
def wrappingSub (a b : Nat) : Nat := (2 ^ 32 + a - b) % 2 ^ 32

/-- `h - p`, whose top limb has its highest bit set where `h` is less than `p`. -/
def minusP (h : Limbs) : Limbs :=
  let g0 := wrappingAdd h.l0 5
  let c := g0 >>> 26
  let g0 := g0 &&& 0x03ffffff
  let g1 := wrappingAdd h.l1 c
  let c := g1 >>> 26
  let g1 := g1 &&& 0x03ffffff
  let g2 := wrappingAdd h.l2 c
  let c := g2 >>> 26
  let g2 := g2 &&& 0x03ffffff
  let g3 := wrappingAdd h.l3 c
  let c := g3 >>> 26
  let g3 := g3 &&& 0x03ffffff
  let g4 := wrappingSub (wrappingAdd h.l4 c) (1 <<< 26)
  ⟨g0, g1, g2, g3, g4⟩

/-- Select `h - p` where `h` is not less than `p`, by masks. -/
def select (h g : Limbs) : Limbs :=
  let takeG := wrappingSub (g.l4 >>> 31) 1
  let keepH := 0xffffffff - takeG
  ⟨h.l0 &&& keepH ||| g.l0 &&& takeG, h.l1 &&& keepH ||| g.l1 &&& takeG,
    h.l2 &&& keepH ||| g.l2 &&& takeG, h.l3 &&& keepH ||| g.l3 &&& takeG,
    h.l4 &&& keepH ||| g.l4 &&& takeG⟩

/-- `a << n` of a 32-bit word. -/
def shl (a n : Nat) : Nat := a <<< n % 2 ^ 32

/-- Add the pad to the limbs repacked into 32-bit words (mod 2^128). -/
def addPad (h : Limbs) (pad : Nat × Nat × Nat × Nat) : Except (Fault ε) (Vector UInt8 16) := do
  let (p0, p1, p2, p3) := pad
  let w0 := h.l0 ||| shl h.l1 26
  let w1 := h.l1 >>> 6 ||| shl h.l2 20
  let w2 := h.l2 >>> 12 ||| shl h.l3 14
  let w3 := h.l3 >>> 18 ||| shl h.l4 8
  let f ← m.add w0 p0
  let t0 := f % 2 ^ 32
  let f ← m.add (← m.add w1 p1) (f >>> 32)
  let t1 := f % 2 ^ 32
  let f ← m.add (← m.add w2 p2) (f >>> 32)
  let t2 := f % 2 ^ 32
  let f ← m.add (← m.add w3 p3) (f >>> 32)
  let t3 := f % 2 ^ 32
  return ⟨(toLeBytes 4 t0 ++ toLeBytes 4 t1 ++ toLeBytes 4 t2 ++ toLeBytes 4 t3).toArray, by simp⟩

end

end Poly1305

/-! ## The authenticator -/

structure Poly1305 where
  r : Poly1305.Limbs
  h : Poly1305.Limbs
  pad : Nat × Nat × Nat × Nat
  buffer : Buffer 16

namespace Poly1305

variable {ε : Type} (m : Overflow)

def new (key : Vector UInt8 32) : Poly1305 where
  r := clamped key.toList
  h := ⟨0, 0, 0, 0, 0⟩
  pad := (le key.toList 16, le key.toList 20, le key.toList 24, le key.toList 28)
  buffer := ⟨Vector.replicate 16 0, 0, by decide⟩

def update (self : Poly1305) (data : List UInt8) : Except (Fault ε) Poly1305 := do
  let (h, buffer) ← absorb (fun h bytes => block m self.r h bytes.toList (1 <<< 24)) self.h
    self.buffer data
  return { self with h, buffer }

/-- The final partial block: append 0x01, zero-fill, no high bit. -/
def lastBlock (self : Poly1305) : Except (Fault ε) Limbs :=
  if 0 < self.buffer.len then
    let bytes := self.buffer.pending ++ 1 :: List.replicate (15 - self.buffer.len) 0
    block m self.r self.h bytes 0
  else return self.h

def finalize (self : Poly1305) : Except (Fault ε) (Vector UInt8 16) := do
  let h ← self.lastBlock m
  let h ← fullCarry m h
  addPad m (select h (minusP h)) self.pad

def mac (key : Vector UInt8 32) (data : List UInt8) : Except (Fault ε) (Vector UInt8 16) := do
  let p ← (new key).update m data
  p.finalize m

end Poly1305
