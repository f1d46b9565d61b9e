import Keraunos.Noise.Cipher

/-!
# The handshake (`noise/mod.rs`)

Three acts of fixed size: the initiator knows the responder's static key, the responder learns the
initiator's. What an act that fails has changed in its state is dropped by the caller, so an act
returns the new state or an error.
-/

namespace Noise

def actOneLen : Nat := 50
def actTwoLen : Nat := 50
def actThreeLen : Nat := 66

/-- The running hash and chaining key. -/
structure SymmetricState where
  h : Bytes32
  ck : Bytes32
  deriving DecidableEq

section
variable (P : Primitives)

namespace SymmetricState

def mixHash (st : SymmetricState) (data : List UInt8) : SymmetricState :=
  { st with h := P.C.sha256 (st.h.toList ++ data) }

/-- `ck, k = HKDF(ck, input)`. -/
def mixKey (st : SymmetricState) (input : Bytes32) : SymmetricState × Bytes32 :=
  let (ck, k) := hkdfTwoKeys P st.ck input.toList
  ({ st with ck }, k)

/-- Both sides mix in the responder's static key. -/
def new (responderStatic : PublicKey) : SymmetricState :=
  let proto := P.C.sha256 "Noise_XK_secp256k1_ChaChaPoly_SHA256".toUTF8.toList
  mixHash P ⟨P.C.sha256 (proto.toList ++ "lightning".toUTF8.toList), proto⟩ responderStatic.serialize

end SymmetricState

/-! ## Initiator -/

structure Initiator where
  st : SymmetricState
  localStatic : SecretKey
  ephemeral : SecretKey
  remoteStatic : PublicKey
  tempK2 : Option Bytes32 := none
  done : Bool := false
  deriving DecidableEq

namespace Initiator

def new (localStatic : SecretKey) (remoteStatic : PublicKey) (ephemeral : SecretKey) : Initiator where
  st := .new P remoteStatic
  localStatic := localStatic
  ephemeral := ephemeral
  remoteStatic := remoteStatic

def actOne (i : Initiator) : Initiator × List UInt8 :=
  let ePub := P.C.publicKey i.ephemeral
  let st := i.st.mixHash P ePub.serialize
  let (st, tempK1) := st.mixKey P (P.C.ecdh i.remoteStatic i.ephemeral)
  let c := encrypt P tempK1 (nonceFromCounter 0) st.h.toList []
  ({ i with st := st.mixHash P c }, [0] ++ ePub.serialize ++ c)

/-- Process act 2 and produce act 3. -/
def actTwo (i : Initiator) (act2 : List UInt8) : Except NoiseError (Initiator × List UInt8) := do
  if act2.headD 0 ≠ 0 then throw (.badVersion (act2.headD 0).toNat)
  let re ← (P.K.fromSlice ((act2.drop 1).take 33)).elim (throw .badPubkey) pure
  let c := act2.drop 34
  let st := i.st.mixHash P re.serialize
  let (st, tempK2) := st.mixKey P (P.C.ecdh re i.ephemeral)
  let _ ← (decrypt P tempK2 (nonceFromCounter 0) st.h.toList c).elim (throw .badTag) pure
  let st := st.mixHash P c
  let sPub := P.C.publicKey i.localStatic
  let c3 := encrypt P tempK2 (nonceFromCounter 1) st.h.toList sPub.serialize
  let st := st.mixHash P c3
  let (st, tempK3) := st.mixKey P (P.C.ecdh re i.localStatic)
  let t := encrypt P tempK3 (nonceFromCounter 0) st.h.toList []
  return ({ i with st, tempK2 := some tempK2, done := true }, [0] ++ c3 ++ t)

def intoTransport (i : Initiator) : Except NoiseError Transport :=
  if i.done then
    let (sk, rk) := hkdfTwoKeys P i.st.ck []
    .ok (.new i.st.ck sk rk)
  else .error .wrongState

end Initiator

/-! ## Responder -/

structure Responder where
  st : SymmetricState
  localStatic : SecretKey
  ephemeral : SecretKey
  remoteEphemeral : Option PublicKey := none
  tempK2 : Option Bytes32 := none
  deriving DecidableEq

namespace Responder

def new (localStatic ephemeral : SecretKey) : Responder where
  st := .new P (P.C.publicKey localStatic)
  localStatic := localStatic
  ephemeral := ephemeral

def actedOne (r : Responder) : Bool := r.remoteEphemeral.isSome

/-- Process act 1 and produce act 2. -/
def actOne (r : Responder) (act1 : List UInt8) : Except NoiseError (Responder × List UInt8) := do
  if act1.headD 0 ≠ 0 then throw (.badVersion (act1.headD 0).toNat)
  let re ← (P.K.fromSlice ((act1.drop 1).take 33)).elim (throw .badPubkey) pure
  let c := act1.drop 34
  let st := r.st.mixHash P re.serialize
  let (st, tempK1) := st.mixKey P (P.C.ecdh re r.localStatic)
  let _ ← (decrypt P tempK1 (nonceFromCounter 0) st.h.toList c).elim (throw .badTag) pure
  let st := st.mixHash P c
  let ePub := P.C.publicKey r.ephemeral
  let st := st.mixHash P ePub.serialize
  let (st, tempK2) := st.mixKey P (P.C.ecdh re r.ephemeral)
  let c2 := encrypt P tempK2 (nonceFromCounter 0) st.h.toList []
  return ({ r with st := st.mixHash P c2, remoteEphemeral := some re, tempK2 := some tempK2 },
    [0] ++ ePub.serialize ++ c2)

/-- The initiator's static key and the transport. -/
def actThree (r : Responder) (act3 : List UInt8) : Except NoiseError (PublicKey × Transport) := do
  let tempK2 ← r.tempK2.elim (throw .wrongState) pure
  if act3.headD 0 ≠ 0 then throw (.badVersion (act3.headD 0).toNat)
  let c := (act3.drop 1).take 49
  let t := act3.drop 50
  let rsBytes ← (decrypt P tempK2 (nonceFromCounter 1) r.st.h.toList c).elim (throw .badTag) pure
  let rs ← (P.K.fromSlice rsBytes).elim (throw .badPubkey) pure
  let st := r.st.mixHash P c
  let (st, tempK3) := st.mixKey P (P.C.ecdh rs r.ephemeral)
  let _ ← (decrypt P tempK3 (nonceFromCounter 0) st.h.toList t).elim (throw .badTag) pure
  let (rk, sk) := hkdfTwoKeys P st.ck []
  return (rs, .new st.ck sk rk)

end Responder

end

end Noise
