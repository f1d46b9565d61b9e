import Keraunos.Crypto.Sha256
import Keraunos.Lib.Act

/-!
# HMAC-SHA256 and HKDF (`crypto/hmac.rs`, `crypto/hkdf.rs`)

`expand` fills a buffer of the caller, whose length is the length of the output. It panics on a buffer
that is too long, and when its 8-bit block counter cannot be advanced.
-/

open Blocks

/-! ## HMAC -/

structure HmacSha256 where
  inner : Sha256
  opad : Vector UInt8 64

namespace HmacSha256

/-- The key, or its digest if it is longer than a block, and zeros. -/
def blockKey (key : List UInt8) : Vector UInt8 64 :=
  if h : 64 < key.length then
    overwrite (Vector.replicate 64 0) 0 (Sha256.digest key).toList (by simp)
  else overwrite (Vector.replicate 64 0) 0 key (by omega)

def new (key : List UInt8) : HmacSha256 :=
  let k := blockKey key
  let ipad := k.map (· ^^^ 0x36)
  let opad := k.map (· ^^^ 0x5c)
  { inner := Sha256.new.update ipad.toList, opad }

def update (self : HmacSha256) (data : List UInt8) : HmacSha256 :=
  { self with inner := self.inner.update data }

def finalize (self : HmacSha256) : Bytes32 :=
  let innerDigest := self.inner.finalize
  ((Sha256.new.update self.opad.toList).update innerDigest.toList).finalize

end HmacSha256

/-- One-shot HMAC-SHA256. -/
def hmacSha256 (key data : List UInt8) : Bytes32 := ((HmacSha256.new key).update data).finalize

/-! ## HKDF -/

namespace Hkdf

variable {ε : Type}

def extract (salt ikm : List UInt8) : Bytes32 := hmacSha256 salt ikm

/-- `counter.checked_add(1)`, which is expected to succeed. -/
def nextCounter (counter : Nat) : Except (Fault ε) Nat :=
  if counter < 255 then .ok (counter + 1) else .error .panic

/-- The loop of `expand`. -/
def expandLoop (prk : Bytes32) (info out t : List UInt8) (counter written : Nat) :
    Except (Fault ε) (List UInt8) :=
  if written < out.length then do
    let h := (((HmacSha256.new prk.toList).update t).update info).update [UInt8.ofNat counter]
    let block := h.finalize
    let take := min (out.length - written) 32
    let counter ← nextCounter counter
    expandLoop prk info (out.take written ++ block.toList.take take ++ out.drop (written + take))
      block.toList counter (written + take)
  else return out
termination_by out.length - written
decreasing_by
  simp only [List.length_append, List.length_take, List.length_drop, Vector.length_toList]
  omega

/-- Fill `out` from the pseudorandom key. -/
def expand (prk : Bytes32) (info out : List UInt8) : Except (Fault ε) (List UInt8) :=
  if out.length ≤ 255 * 32 then expandLoop prk info out [] 1 0 else .error .panic

/-- Extract with `salt`, expand 64 bytes with an empty info. -/
def twoKeys (salt ikm : List UInt8) : Except (Fault ε) (Bytes32 × Bytes32) := do
  let okm ← expand (extract salt ikm) [] (List.replicate 64 0)
  return (overwrite (Vector.replicate 32 0) 0 (okm.take 32) (by simp),
    overwrite (Vector.replicate 32 0) 0 ((okm.drop 32).take 32) (by simp))

end Hkdf
