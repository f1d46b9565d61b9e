import Keraunos.Lib.Blocks
import Keraunos.Lib.Bytes
import Keraunos.Shachain.Store

/-!
# SHA-256 (`crypto/sha256.rs`)

Words are bit vectors, whose sums wrap. `buf` and `buf_len` are a `Blocks.Buffer`, which is never full
between two calls, so no slice of the source is out of range.
-/

open Blocks Bytes

namespace Sha256

def k : List (BitVec 32) := [
  0x428a2f98, 0x71374491, 0xb5c0fbcf, 0xe9b5dba5, 0x3956c25b, 0x59f111f1, 0x923f82a4, 0xab1c5ed5,
  0xd807aa98, 0x12835b01, 0x243185be, 0x550c7dc3, 0x72be5d74, 0x80deb1fe, 0x9bdc06a7, 0xc19bf174,
  0xe49b69c1, 0xefbe4786, 0x0fc19dc6, 0x240ca1cc, 0x2de92c6f, 0x4a7484aa, 0x5cb0a9dc, 0x76f988da,
  0x983e5152, 0xa831c66d, 0xb00327c8, 0xbf597fc7, 0xc6e00bf3, 0xd5a79147, 0x06ca6351, 0x14292967,
  0x27b70a85, 0x2e1b2138, 0x4d2c6dfc, 0x53380d13, 0x650a7354, 0x766a0abb, 0x81c2c92e, 0x92722c85,
  0xa2bfe8a1, 0xa81a664b, 0xc24b8b70, 0xc76c51a3, 0xd192e819, 0xd6990624, 0xf40e3585, 0x106aa070,
  0x19a4c116, 0x1e376c08, 0x2748774c, 0x34b0bcb5, 0x391c0cb3, 0x4ed8aa4a, 0x5b9cca4f, 0x682e6ff3,
  0x748f82ee, 0x78a5636f, 0x84c87814, 0x8cc70208, 0x90befffa, 0xa4506ceb, 0xbef9a3f7, 0xc67178f2]

/-- The chaining state, and the working variables of the compression. -/
structure State where
  (a b c d e f g h : BitVec 32)
  deriving DecidableEq, Repr

def h0 : State :=
  ⟨0x6a09e667, 0xbb67ae85, 0x3c6ef372, 0xa54ff53a, 0x510e527f, 0x9b05688c, 0x1f83d9ab, 0x5be0cd19⟩

/-! ## Compression -/

/-- Word `i` of a block, big-endian. -/
def wordOf (block : Vector UInt8 64) (i : Nat) : BitVec 32 :=
  BitVec.ofNat 32 (beVal ((block.toList.drop (i * 4)).take 4))

/-- The next word of the message schedule `w`, which has `i` words. -/
def extend (w : List (BitVec 32)) (i : Nat) : List (BitVec 32) :=
  let at' (j : Nat) := w.getD j 0
  let s0 := (at' (i - 15)).rotateRight 7 ^^^ (at' (i - 15)).rotateRight 18 ^^^ (at' (i - 15) >>> 3)
  let s1 := (at' (i - 2)).rotateRight 17 ^^^ (at' (i - 2)).rotateRight 19 ^^^ (at' (i - 2) >>> 10)
  w ++ [at' (i - 16) + s0 + at' (i - 7) + s1]

def schedule (block : Vector UInt8 64) : List (BitVec 32) :=
  (List.range' 16 48).foldl extend ((List.range 16).map (wordOf block))

def round (w : List (BitVec 32)) (v : State) (i : Nat) : State :=
  let s1 := v.e.rotateRight 6 ^^^ v.e.rotateRight 11 ^^^ v.e.rotateRight 25
  let ch := (v.e &&& v.f) ^^^ (~~~ v.e &&& v.g)
  let t1 := v.h + s1 + ch + k.getD i 0 + w.getD i 0
  let s0 := v.a.rotateRight 2 ^^^ v.a.rotateRight 13 ^^^ v.a.rotateRight 22
  let maj := (v.a &&& v.b) ^^^ (v.a &&& v.c) ^^^ (v.b &&& v.c)
  let t2 := s0 + maj
  { h := v.g, g := v.f, f := v.e, e := v.d + t1, d := v.c, c := v.b, b := v.a, a := t1 + t2 }

def compress (state : State) (block : Vector UInt8 64) : State :=
  let v := (List.range 64).foldl (round (schedule block)) state
  ⟨state.a + v.a, state.b + v.b, state.c + v.c, state.d + v.d, state.e + v.e, state.f + v.f,
    state.g + v.g, state.h + v.h⟩

/-- The words of the state, big-endian. -/
def State.toBytes (s : State) : Bytes32 :=
  ⟨([s.a, s.b, s.c, s.d, s.e, s.f, s.g, s.h].flatMap fun word => beBytes 4 word.toNat).toArray, by
    simp⟩

end Sha256

/-! ## Hashing -/

structure Sha256 where
  state : Sha256.State
  buffer : Buffer 64
  /-- Bytes hashed so far, a `u64`. -/
  total : Nat

namespace Sha256

def new : Sha256 where
  state := h0
  buffer := ⟨Vector.replicate 64 0, 0, by decide⟩
  total := 0

def update (self : Sha256) (data : List UInt8) : Sha256 :=
  let total := (self.total + data.length) % 2 ^ 64
  let (state, buffer) :=
    Id.run (absorb (fun state block => pure (compress state block)) self.state self.buffer data)
  { state, buffer, total }

/-- What an update leaves waiting. -/
theorem pending_update (self : Sha256) (data : List UInt8) : (self.update data).buffer.pending =
    remainder 64 (self.buffer.pending ++ data) := by
  obtain ⟨b', hpending, hrun⟩ := absorb_eq (m := Id) (fun state block => pure (compress state block))
    self.buffer data
  rw [← hpending, update, hrun]
  rfl

theorem len_update (self : Sha256) (data : List UInt8) :
    (self.update data).buffer.len = (self.buffer.len + data.length) % 64 := by
  rw [← Buffer.length_pending, pending_update, length_remainder, List.length_append,
    Buffer.length_pending]

/-- The loop of `finalize`: zeros up to the length field. -/
def pad (self : Sha256) : Sha256 :=
  if self.buffer.len ≠ 56 then pad (self.update [0]) else self
termination_by (120 - self.buffer.len) % 64
decreasing_by
  have hlt := self.buffer.lt
  rw [len_update, List.length_singleton]
  omega

def finalize (self : Sha256) : Bytes32 :=
  let bitLen := self.total * 8 % 2 ^ 64
  let self := (self.update [0x80]).pad
  let block := overwrite self.buffer.buf 56 (beBytes 8 bitLen) (by rw [length_beBytes])
  (compress self.state block).toBytes

/-- One-shot digest. -/
def digest (data : List UInt8) : Bytes32 := (new.update data).finalize

end Sha256
