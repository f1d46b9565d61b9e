import Keraunos.Crypto.Hkdf
import Keraunos.Keys

/-!
# The keys manager (`keys.rs`, `sign/mod.rs`)

The revocation key as the holder of its two secrets derives it, and the keys that `KeysManager` derives
from the seed of the node. `derive_key` tries one salt after the other until the bytes are a secret key;
the loop is bounded by fuel here.
-/

/-- The primitives with `SecretKey::mul_tweak`. -/
structure SecretCrypto extends Crypto where
  mulSecret : SecretKey → Bytes32 → Option SecretKey

/-- `SecretKey::from_slice`. -/
def SecretKey.fromSlice (C : Crypto) (b : List UInt8) : Option SecretKey :=
  if h : b.toArray.size = 32 then
    if C.validSecret ⟨b.toArray, h⟩ then some ⟨⟨b.toArray, h⟩⟩ else none
  else none

/-- `derive_revocation_privkey`; a failed tweak is a panic. -/
def Keys.deriveRevocationPrivkey (C : SecretCrypto) (base secret : SecretKey) : Option SecretKey := do
  let revocationBasepoint := C.publicKey base
  let perCommitmentPoint := C.publicKey secret
  let a ← C.mulSecret base (← tweak C.toCrypto revocationBasepoint perCommitmentPoint)
  let b ← C.mulSecret secret (← tweak C.toCrypto perCommitmentPoint revocationBasepoint)
  C.addTweak a b.bytes

namespace InMemoryChannelSigner

def signPayment (C : Crypto) (s : InMemoryChannelSigner) (digest : Bytes32) : Signature :=
  C.signEcdsa s.paymentKey digest

/-- `none` is a panic: the bytes are no secret key, or a tweak fails. -/
def signRevocation (C : SecretCrypto) (s : InMemoryChannelSigner) (digest : Bytes32)
    (counterpartyPerCommitmentSecret : Bytes32) : Option Signature := do
  let secret ← SecretKey.fromSlice C.toCrypto counterpartyPerCommitmentSecret.toList
  let key ← Keys.deriveRevocationPrivkey C s.revocationBaseKey secret
  return C.signEcdsa key digest

end InMemoryChannelSigner

/-! ## `derive_key` -/

section
variable (C : Crypto)

/-- The loop of `derive_key`, over the buffer and the salt; `none` when the fuel runs out. -/
def deriveKeyLoop {ε : Type} (prk : Bytes32) (info : List UInt8) :
    Nat → List UInt8 → UInt8 → Except (Fault ε) (Option SecretKey)
  | 0, _, _ => .ok none
  | fuel + 1, okm, salt => do
    let okm ← Hkdf.expand prk (info ++ [salt]) okm
    match SecretKey.fromSlice C okm with
    | some sk => return some sk
    | none => deriveKeyLoop prk info fuel okm (salt + 1)

def deriveKeyInfo (index : Nat) (sub : UInt8) : List UInt8 := Bytes.beBytes 8 index ++ [sub]

def deriveKey {ε : Type} (fuel : Nat) (seed : Bytes32) (label : List UInt8) (index : Nat) (sub : UInt8) :
    Except (Fault ε) (Option SecretKey) :=
  deriveKeyLoop C (Hkdf.extract label seed.toList) (deriveKeyInfo index sub) fuel (List.replicate 32 0) 0

/-! ## `KeysManager` -/

def nodeLabel : List UInt8 := "keraunos/node identity".toUTF8.toList

def channelLabel : List UInt8 := "keraunos/channel keys".toUTF8.toList

/-- The identity key of `KeysManager::new`. -/
def nodeSecret {ε : Type} (fuel : Nat) (seed : Bytes32) : Except (Fault ε) (Option SecretKey) :=
  deriveKey C fuel seed nodeLabel 0 0

/-- `derive_channel_signer`. -/
def deriveChannelSigner {ε : Type} (fuel : Nat) (seed : Bytes32) (channelIndex : Nat) :
    Except (Fault ε) (Option InMemoryChannelSigner) := do
  let funding ← deriveKey C fuel seed channelLabel channelIndex 0
  let revocation ← deriveKey C fuel seed channelLabel channelIndex 1
  let payment ← deriveKey C fuel seed channelLabel channelIndex 2
  let delayed ← deriveKey C fuel seed channelLabel channelIndex 3
  let htlc ← deriveKey C fuel seed channelLabel channelIndex 4
  let commitmentSeed ← deriveKey C fuel seed channelLabel channelIndex 5
  return do return ⟨← funding, ← revocation, ← payment, ← delayed, ← htlc, (← commitmentSeed).bytes⟩

end

/-! ## A group -/

/-- The transparent primitives over the group of order `2 ^ 256` whose generator is 1. -/
def SecretCrypto.additive : SecretCrypto where
  toCrypto := { Crypto.transparent with
    mulTweak := fun pk t =>
      some ⟨Crypto.Transparent.ofNat 33 (Bytes.beVal pk.serialize * Bytes.beVal t.toList % 2 ^ 256)⟩
    addExpTweak := fun pk t =>
      some ⟨Crypto.Transparent.ofNat 33 ((Bytes.beVal pk.serialize + Bytes.beVal t.toList) % 2 ^ 256)⟩
    combine := fun a b =>
      some ⟨Crypto.Transparent.ofNat 33 ((Bytes.beVal a.serialize + Bytes.beVal b.serialize) % 2 ^ 256)⟩ }
  mulSecret sk t :=
    some ⟨Crypto.Transparent.ofNat 32 (Bytes.beVal sk.bytes.toList * Bytes.beVal t.toList)⟩
