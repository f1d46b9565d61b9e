import Keraunos.Crypto

/-!
# Key derivation and signers (`keys.rs`, `sign/mod.rs`)

A failed tweak is a panic in the source; here the derivation has no value. `ChannelSigner` is the
trait of the same name, restricted to what a channel and the claims on its commitment call;
`InMemoryChannelSigner` is its implementation.
-/

/-- The public keys a peer contributes when opening a channel. -/
structure ChannelPublicKeys where
  fundingPubkey : PublicKey
  revocationBasepoint : PublicKey
  paymentBasepoint : PublicKey
  delayedPaymentBasepoint : PublicKey
  htlcBasepoint : PublicKey
  deriving DecidableEq, Repr

/-- The key set of one commitment transaction, as seen by the side that can broadcast it. -/
structure TxCreationKeys where
  perCommitmentPoint : PublicKey
  revocationKey : PublicKey
  broadcasterHtlcKey : PublicKey
  countersignatoryHtlcKey : PublicKey
  broadcasterDelayedPaymentKey : PublicKey
  deriving DecidableEq, Repr

namespace Keys

section
variable (C : Crypto)

/-- `SHA256(a || b)` as a scalar. -/
def tweak (a b : PublicKey) : Option Bytes32 :=
  let h := C.sha256 (a.serialize ++ b.serialize)
  if C.validScalar h then some h else none

def derivePubkey (basepoint point : PublicKey) : Option PublicKey := do
  C.addExpTweak basepoint (← tweak C point basepoint)

def derivePrivkey (base : SecretKey) (point : PublicKey) : Option SecretKey := do
  C.addTweak base (← tweak C point (C.publicKey base))

def deriveRevocationPubkey (basepoint point : PublicKey) : Option PublicKey := do
  let a ← C.mulTweak basepoint (← tweak C basepoint point)
  let b ← C.mulTweak point (← tweak C point basepoint)
  C.combine a b

/-- The point of a per-commitment secret; `none` for bytes that are no secret key. -/
def perCommitmentPoint (secret : Bytes32) : Option PublicKey :=
  if C.validSecret secret then some (C.publicKey ⟨secret⟩) else none

end

end Keys

/-- `TxCreationKeys::derive`. -/
def TxCreationKeys.derive (C : Crypto) (point : PublicKey)
    (broadcaster countersignatory : ChannelPublicKeys) : Option TxCreationKeys := do
  let revocationKey ← Keys.deriveRevocationPubkey C countersignatory.revocationBasepoint point
  let broadcasterHtlcKey ← Keys.derivePubkey C broadcaster.htlcBasepoint point
  let countersignatoryHtlcKey ← Keys.derivePubkey C countersignatory.htlcBasepoint point
  let broadcasterDelayedPaymentKey ← Keys.derivePubkey C broadcaster.delayedPaymentBasepoint point
  return ⟨point, revocationKey, broadcasterHtlcKey, countersignatoryHtlcKey,
    broadcasterDelayedPaymentKey⟩

/-- The signing operations of one channel. -/
structure ChannelSigner where
  pubkeys : ChannelPublicKeys
  perCommitmentPoint : Nat → PublicKey
  releaseCommitmentSecret : Nat → Bytes32
  signWithFundingKey : Bytes32 → Signature
  signHtlc : Bytes32 → PublicKey → Signature
  signDelayedPayment : Bytes32 → PublicKey → Signature
  signAnnouncementWithFundingKey : Bytes32 → Signature

/-- The signer that holds the channel's secrets. -/
structure InMemoryChannelSigner where
  fundingKey : SecretKey
  revocationBaseKey : SecretKey
  paymentKey : SecretKey
  delayedPaymentBaseKey : SecretKey
  htlcBaseKey : SecretKey
  commitmentSeed : Bytes32
  deriving DecidableEq, Repr

namespace InMemoryChannelSigner

variable (C : Crypto) (s : InMemoryChannelSigner)

def pubkeys : ChannelPublicKeys :=
  ⟨C.publicKey s.fundingKey, C.publicKey s.revocationBaseKey, C.publicKey s.paymentKey,
    C.publicKey s.delayedPaymentBaseKey, C.publicKey s.htlcBaseKey⟩

def releaseCommitmentSecret (n : Nat) : Bytes32 :=
  Shachain.generateFromSeed C.sha256Bytes32 s.commitmentSeed (Shachain.indexForCommitment n)

/-- The key derived for a point; the tweak of a valid key does not fail. -/
def htlcKey (point : PublicKey) : SecretKey :=
  (Keys.derivePrivkey C s.htlcBaseKey point).getD s.htlcBaseKey

def delayedPaymentKey (point : PublicKey) : SecretKey :=
  (Keys.derivePrivkey C s.delayedPaymentBaseKey point).getD s.delayedPaymentBaseKey

def toSigner : ChannelSigner where
  pubkeys := s.pubkeys C
  perCommitmentPoint n := C.publicKey ⟨s.releaseCommitmentSecret C n⟩
  releaseCommitmentSecret := s.releaseCommitmentSecret C
  signWithFundingKey digest := C.signEcdsa s.fundingKey digest
  signHtlc digest point := C.signEcdsa (s.htlcKey C point) digest
  signDelayedPayment digest point := C.signEcdsa (s.delayedPaymentKey C point) digest
  signAnnouncementWithFundingKey := C.signEcdsa s.fundingKey

end InMemoryChannelSigner
