import Keraunos.Bitcoin.Tx
import Keraunos.Lib.Act

/-!
# The transport cipher (`crypto/aead.rs`, `crypto/hkdf.rs`, `noise/mod.rs`)

The AEAD, the key derivation, and the encrypted stream of frames that follows the handshake. The
ChaCha20 keystream and Poly1305 are parameters, with the primitives of `Crypto` and the key
parsers.
-/

inductive NoiseError where
  | badVersion (v : Nat)
  | badPubkey
  | badTag
  | wrongState
  | messageTooLong
  deriving DecidableEq, Repr

namespace Noise

open Bytes
open Bitcoin (leBytes)

/-- The primitives of the transport. -/
structure Primitives where
  C : Crypto
  K : KeyParsers
  /-- `ChaCha20::keystream(key, nonce, counter, len)`. -/
  chacha20 : Bytes32 → Vector UInt8 12 → Nat → Nat → List UInt8
  poly1305 : List UInt8 → List UInt8 → Vector UInt8 16

def maxMsgLen : Nat := 65535
def keyRotationInterval : Nat := 1000

section
variable (P : Primitives)

/-! ## AEAD -/

/-- Zeros up to a multiple of 16. -/
def pad16 (data : List UInt8) : List UInt8 := List.replicate ((16 - data.length % 16) % 16) 0

def mac (key : Bytes32) (nonce : Vector UInt8 12) (aad ciphertext : List UInt8) : Vector UInt8 16 :=
  P.poly1305 (xorInto (List.replicate 32 0) (P.chacha20 key nonce 0 32))
    (aad ++ pad16 aad ++ ciphertext ++ pad16 ciphertext ++ leBytes 8 aad.length ++
      leBytes 8 ciphertext.length)

/-- Ciphertext and 16-byte tag. -/
def encrypt (key : Bytes32) (nonce : Vector UInt8 12) (aad plaintext : List UInt8) : List UInt8 :=
  let out := xorInto plaintext (P.chacha20 key nonce 1 plaintext.length)
  out ++ (mac P key nonce aad out).toList

/-- The plaintext, unless the tag is wrong. -/
def decrypt (key : Bytes32) (nonce : Vector UInt8 12) (aad ciphertextAndTag : List UInt8) :
    Option (List UInt8) :=
  if ciphertextAndTag.length < 16 then none
  else
    let ct := ciphertextAndTag.take (ciphertextAndTag.length - 16)
    let tag := ciphertextAndTag.drop (ciphertextAndTag.length - 16)
    if (mac P key nonce aad ct).toList = tag then
      some (xorInto ct (P.chacha20 key nonce 1 ct.length))
    else none

/-- Four zero bytes, then the counter. -/
def nonceFromCounter (n : Nat) : Vector UInt8 12 :=
  ⟨(List.replicate 4 0 ++ leBytes 8 n).toArray, by simp⟩

/-- `hkdf_two_keys`: extract with `salt`, expand 64 bytes. -/
def hkdfTwoKeys (salt : Bytes32) (ikm : List UInt8) : Bytes32 × Bytes32 :=
  let prk := (P.C.hmacSha256 salt.toList ikm).toList
  let a := P.C.hmacSha256 prk [1]
  (a, P.C.hmacSha256 prk (a.toList ++ [2]))

end

/-! ## Transport -/

/-- One direction of the transport cipher. -/
structure CipherState where
  key : Bytes32
  ck : Bytes32
  nonce : Nat
  deriving DecidableEq

structure Transport where
  send : CipherState
  recv : CipherState
  buffer : List UInt8 := []
  /-- The length of the body awaited. -/
  pendingLen : Option Nat := none
  deriving DecidableEq

section
variable (P : Primitives)

/-- The state in which the next operation runs: keys rotate every 1000 operations. -/
def CipherState.rotate (c : CipherState) : CipherState :=
  if c.nonce = keyRotationInterval then
    let (ck, key) := hkdfTwoKeys P c.ck c.key.toList
    ⟨key, ck, 0⟩
  else c

/-- The key and nonce of the next operation. -/
def CipherState.process (c : CipherState) : (Bytes32 × Vector UInt8 12) × CipherState :=
  let c := c.rotate P
  ((c.key, nonceFromCounter c.nonce), { c with nonce := c.nonce + 1 })

namespace Transport

def new (ck sk rk : Bytes32) : Transport where
  send := ⟨sk, ck, 0⟩
  recv := ⟨rk, ck, 0⟩

/-- Encrypt one message: the encrypted length, then the encrypted body. -/
def encryptMessage (msg : List UInt8) : Act NoiseError Transport (List UInt8) := do
  if msg.length > maxMsgLen then Act.fail .messageTooLong
  else
    let t ← get
    let (kn, c) := t.send.process P
    let (kn', c') := c.process P
    set { t with send := c' }
    return encrypt P kn.1 kn.2 [] (beBytes 2 msg.length) ++ encrypt P kn'.1 kn'.2 [] msg

def readInput (t : Transport) (data : List UInt8) : Transport := { t with buffer := t.buffer ++ data }

/-- Decrypt the length in front of the buffer. -/
def nextLength : Act NoiseError Transport Unit := do
  let t ← get
  let (kn, c) := t.recv.process P
  set { t with recv := c }
  let lenBytes ← Act.okOr (decrypt P kn.1 kn.2 [] (t.buffer.take 18)) .badTag
  let len ← Act.expect (if lenBytes.length = 2 then some (beVal lenBytes) else none)
  set { t with recv := c, buffer := t.buffer.drop 18, pendingLen := some len }

/-- The body of `bodyLen` bytes, once it is there. -/
def nextBody (bodyLen : Nat) : Act NoiseError Transport (Option (List UInt8)) := do
  let t ← get
  if t.buffer.length < bodyLen + 16 then return none
  else
    let (kn, c) := t.recv.process P
    set { t with recv := c }
    let msg ← Act.okOr (decrypt P kn.1 kn.2 [] (t.buffer.take (bodyLen + 16))) .badTag
    set { t with recv := c, buffer := t.buffer.drop (bodyLen + 16), pendingLen := none }
    return some msg

/-- Pop the next complete message, if a whole frame arrived. -/
def nextMessage : Act NoiseError Transport (Option (List UInt8)) := do
  match (← get).pendingLen with
  | some len => nextBody P len
  | none =>
    if (← get).buffer.length < 18 then return none
    else
      nextLength P
      let len ← Act.expect (← get).pendingLen
      nextBody P len

/-- `while let Some(msg) = next_message()?`, at most `fuel` times. -/
def nextMessages : Nat → Act NoiseError Transport (List (List UInt8))
  | 0 => return []
  | fuel + 1 => do
    match ← nextMessage P with
    | none => return []
    | some msg => return msg :: (← nextMessages fuel)

/-- All complete messages: each takes at least 16 bytes off the buffer. -/
def allMessages : Act NoiseError Transport (List (List UInt8)) := do
  nextMessages P ((← get).buffer.length + 1)

end Transport

end

end Noise
