import Keraunos.Lib.Bytes
import Keraunos.Shachain.Store

/-!
# Keys and cryptographic primitives

Public keys, signatures and secret keys are their serialised forms. `Crypto` collects the
primitives the node calls: the hashes, the HMAC and the stream cipher of `crypto/`, and the curve
operations of the `secp256k1` crate. It is a parameter of everything above it; what a result needs
of a primitive is a hypothesis of that result.
-/

/-- A compressed public key. -/
structure PublicKey where
  bytes : Vector UInt8 33
  deriving DecidableEq, Repr

namespace PublicKey

def serialize (pk : PublicKey) : List UInt8 := pk.bytes.toList

@[simp] theorem length_serialize (pk : PublicKey) : pk.serialize.length = 33 := by
  simp [serialize]

theorem serialize_inj {a b : PublicKey} (h : a.serialize = b.serialize) : a = b := by
  obtain ⟨a⟩ := a
  obtain ⟨b⟩ := b
  congr 1
  exact Vector.toList_inj.1 h

end PublicKey

/-- A secret key. -/
structure SecretKey where
  bytes : Bytes32
  deriving DecidableEq, Repr

/-- A compact ECDSA signature. -/
structure Signature where
  bytes : Vector UInt8 64
  deriving DecidableEq, Repr

def Signature.serializeCompact (sig : Signature) : List UInt8 := sig.bytes.toList

@[simp] theorem Signature.length_serializeCompact (sig : Signature) :
    sig.serializeCompact.length = 64 := by
  simp [serializeCompact]

/-- The parsers of the `secp256k1` crate: `PublicKey::from_slice` and `Signature::from_compact`. -/
structure KeyParsers where
  fromSlice : List UInt8 → Option PublicKey
  fromCompact : List UInt8 → Option Signature

/-- The primitives. -/
structure Crypto where
  sha256 : List UInt8 → Bytes32
  ripemd160 : List UInt8 → Vector UInt8 20
  /-- `hmac_sha256(key, data)`. -/
  hmacSha256 : List UInt8 → List UInt8 → Bytes32
  /-- `ChaCha20::keystream` with the zero nonce and counter 0. -/
  keystream : Bytes32 → Nat → List UInt8
  /-- `SecretKey::from_slice` accepts these bytes. -/
  validSecret : Bytes32 → Bool
  /-- `Scalar::from_be_bytes` accepts these bytes. -/
  validScalar : Bytes32 → Bool
  publicKey : SecretKey → PublicKey
  ecdh : PublicKey → SecretKey → Bytes32
  /-- `PublicKey::mul_tweak`. -/
  mulTweak : PublicKey → Bytes32 → Option PublicKey
  /-- `PublicKey::add_exp_tweak`. -/
  addExpTweak : PublicKey → Bytes32 → Option PublicKey
  /-- `PublicKey::combine`. -/
  combine : PublicKey → PublicKey → Option PublicKey
  /-- `SecretKey::add_tweak`. -/
  addTweak : SecretKey → Bytes32 → Option SecretKey
  signEcdsa : SecretKey → Bytes32 → Signature
  verifyEcdsa : Bytes32 → Signature → PublicKey → Bool
  /-- `Signature::serialize_der`. -/
  serializeDer : Signature → List UInt8

namespace Crypto

variable (C : Crypto)

/-- SHA-256 of a 32-byte string. -/
def sha256Bytes32 (p : Bytes32) : Bytes32 := C.sha256 p.toList

def hash160 (data : List UInt8) : Vector UInt8 20 := C.ripemd160 (C.sha256 data).toList

def sha256d (data : List UInt8) : Bytes32 := C.sha256 (C.sha256 data).toList

end Crypto

/-! ## A transparent instance

Every operation is a small computation on the bytes, so that the model runs on concrete inputs: a
public key is its secret key, a signature is the key and the digest it signs, the keystream is
zero. -/

namespace Crypto.Transparent

open Bytes

/-- A number as `w` big-endian bytes. -/
def ofNat (w n : Nat) : Vector UInt8 w := ⟨(beBytes w n).toArray, by simp⟩

/-- A positional checksum. -/
def checksum (data : List UInt8) : Nat := data.foldl (fun acc b => acc * 257 + b.toNat + 1) 0

def addKeys (a : PublicKey) (t : Nat) : PublicKey := ⟨ofNat 33 (beVal a.serialize + t)⟩

def sign (sk : SecretKey) (digest : Bytes32) : Signature :=
  ⟨⟨(sk.bytes.toList ++ digest.toList).toArray, by simp⟩⟩

end Crypto.Transparent

/-- Compressed keys by their first byte, and every signature. -/
def KeyParsers.transparent : KeyParsers where
  fromSlice b :=
    if h : b.length = 33 ∧ (b.head? = some 2 ∨ b.head? = some 3) then
      some ⟨⟨b.toArray, h.1⟩⟩
    else none
  fromCompact b := if h : b.length = 64 then some ⟨⟨b.toArray, h⟩⟩ else none

open Crypto.Transparent in
def Crypto.transparent : Crypto where
  sha256 data := ofNat 32 (checksum data)
  ripemd160 data := ofNat 20 (checksum data)
  hmacSha256 key data := ofNat 32 (checksum (key ++ data) + 1)
  keystream _ n := List.replicate n 0
  validSecret _ := true
  validScalar _ := true
  publicKey sk := ⟨ofNat 33 (Bytes.beVal sk.bytes.toList)⟩
  ecdh pk sk := ofNat 32 (Bytes.beVal pk.serialize + Bytes.beVal sk.bytes.toList)
  mulTweak pk _ := some pk
  addExpTweak pk t := some (addKeys pk (Bytes.beVal t.toList))
  combine a b := some (addKeys a (Bytes.beVal b.serialize))
  addTweak sk t := some ⟨ofNat 32 (Bytes.beVal sk.bytes.toList + Bytes.beVal t.toList)⟩
  signEcdsa := sign
  verifyEcdsa digest sig pk :=
    sig.bytes.toList.drop 32 = digest.toList ∧ sig.bytes.toList.take 32 = pk.serialize.drop 1
  serializeDer sig := sig.bytes.toList
