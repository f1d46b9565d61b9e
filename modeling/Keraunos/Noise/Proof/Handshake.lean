import Keraunos.Noise.Handshake
import Keraunos.Noise.Proof.Transport

/-!
# The two sides of the handshake

Each side mixes what the other mixed, so every act is accepted, the responder learns the initiator's
static key, and the keys of one direction are the same on both sides (`handshake_mirrors`).
-/

namespace Noise

/-- What is assumed of the curve: both sides of a Diffie-Hellman exchange agree, and a public key is
read back from its bytes. -/
structure Primitives.Lawful (P : Primitives) : Prop where
  ecdh_comm : ∀ a b, P.C.ecdh (P.C.publicKey a) b = P.C.ecdh (P.C.publicKey b) a
  fromSlice_serialize : ∀ sk, P.K.fromSlice (P.C.publicKey sk).serialize = some (P.C.publicKey sk)

/-! ## One act -/

section
variable {P : Primitives}

/-- Mix in a key and the secret shared with it: the new state, and the key of the next tag. -/
def SymmetricState.agree (P : Primitives) (st : SymmetricState) (pk : PublicKey) (ss : Bytes32) :
    SymmetricState × Bytes32 :=
  (st.mixHash P pk.serialize).mixKey P ss

/-- The encryption of nothing that ends an act. -/
def endTag (P : Primitives) (st : SymmetricState × Bytes32) : List UInt8 :=
  encrypt P st.2 (nonceFromCounter 0) st.1.h.toList []

/-- The encryption of a static key. -/
def sealedKey (P : Primitives) (k : Bytes32) (st : SymmetricState) (pk : PublicKey) : List UInt8 :=
  encrypt P k (nonceFromCounter 1) st.h.toList pk.serialize

/-- An act that sends a key in the clear. -/
def keyAct (pk : PublicKey) (tag : List UInt8) : List UInt8 := [0] ++ pk.serialize ++ tag

@[simp] theorem length_endTag (st : SymmetricState × Bytes32) : (endTag P st).length = 16 :=
  length_encrypt ..

@[simp] theorem length_sealedKey (k : Bytes32) (st : SymmetricState) (pk : PublicKey) :
    (sealedKey P k st pk).length = 49 := by
  simp [sealedKey]

theorem keyAct_key (pk : PublicKey) (tag : List UInt8) :
    ((keyAct pk tag).drop 1).take 33 = pk.serialize := by
  simp [keyAct]

theorem keyAct_tag (pk : PublicKey) (tag : List UInt8) : (keyAct pk tag).drop 34 = tag := by
  simp [keyAct]

theorem length_keyAct (pk : PublicKey) (st : SymmetricState × Bytes32) :
    (keyAct pk (endTag P st)).length = 50 := by
  simp [keyAct]

theorem decrypt_endTag (st : SymmetricState × Bytes32) :
    decrypt P st.2 (nonceFromCounter 0) st.1.h.toList (endTag P st) = some [] := decrypt_encrypt ..

theorem elim_bind {α β : Type} {o : Option α} {a : α} (h : o = some a) (e : NoiseError)
    (f : α → Except NoiseError β) : (o.elim (throw e) pure >>= f) = f a := by
  rw [h]
  rfl

/-- An act 1 that mixes what the responder mixes is accepted. -/
theorem Responder.actOne_eq (r : Responder) {re : PublicKey}
    (hre : P.K.fromSlice re.serialize = some re) {ss : Bytes32}
    (hss : P.C.ecdh re r.localStatic = ss) :
    r.actOne P (keyAct re (endTag P (r.st.agree P re ss))) =
      let one := r.st.agree P re ss
      let two := (one.1.mixHash P (endTag P one)).agree P (P.C.publicKey r.ephemeral)
        (P.C.ecdh re r.ephemeral)
      .ok ({ r with st := two.1.mixHash P (endTag P two), remoteEphemeral := some re,
                    tempK2 := some two.2 }, keyAct (P.C.publicKey r.ephemeral) (endTag P two)) := by
  subst hss
  unfold Responder.actOne
  rw [keyAct_key, keyAct_tag]
  refine (if_neg (fun hv => hv rfl)).trans ?_
  refine (elim_bind hre _ _).trans ?_
  exact elim_bind (decrypt_endTag (r.st.agree P re _)) _ _

/-- An act 2 that mixes what the initiator mixes is accepted. -/
theorem Initiator.actTwo_eq (i : Initiator) {re : PublicKey}
    (hre : P.K.fromSlice re.serialize = some re) {ss : Bytes32}
    (hss : P.C.ecdh re i.ephemeral = ss) :
    i.actTwo P (keyAct re (endTag P (i.st.agree P re ss))) =
      let two := i.st.agree P re ss
      let st := two.1.mixHash P (endTag P two)
      let c3 := sealedKey P two.2 st (P.C.publicKey i.localStatic)
      let three := (st.mixHash P c3).mixKey P (P.C.ecdh re i.localStatic)
      .ok ({ i with st := three.1, tempK2 := some two.2, done := true },
        [0] ++ c3 ++ endTag P three) := by
  subst hss
  unfold Initiator.actTwo
  rw [keyAct_key, keyAct_tag]
  refine (if_neg (fun hv => hv rfl)).trans ?_
  refine (elim_bind hre _ _).trans ?_
  exact elim_bind (decrypt_endTag (i.st.agree P re _)) _ _

/-- An act 3 with a key the responder can read, and the tag it computes, is accepted. -/
theorem Responder.actThree_eq (r : Responder) {k : Bytes32} (hk : r.tempK2 = some k) {rs : PublicKey}
    (hrs : P.K.fromSlice rs.serialize = some rs) {ss : Bytes32} (hss : P.C.ecdh rs r.ephemeral = ss) :
    let c3 := sealedKey P k r.st rs
    let three := (r.st.mixHash P c3).mixKey P ss
    r.actThree P ([0] ++ c3 ++ endTag P three) =
      .ok (rs, .new three.1.ck (hkdfTwoKeys P three.1.ck []).2 (hkdfTwoKeys P three.1.ck []).1) := by
  subst hss
  intro c3 three
  have hkey : (([0] ++ c3 ++ endTag P three).drop 1).take 49 = c3 := by
    simp [List.take_left' (length_sealedKey (P := P) k r.st rs), c3]
  have htag : ([0] ++ c3 ++ endTag P three).drop 50 = endTag P three := by
    simp [List.drop_left' (length_sealedKey (P := P) k r.st rs), c3]
  have hplain : decrypt P k (nonceFromCounter 1) r.st.h.toList c3 = some rs.serialize :=
    decrypt_encrypt ..
  unfold Responder.actThree
  rw [hkey, htag]
  refine (elim_bind hk _ _).trans ?_
  refine (if_neg (fun hv => hv rfl)).trans ?_
  refine (elim_bind hplain _ _).trans ?_
  refine (elim_bind hrs _ _).trans ?_
  exact elim_bind (decrypt_endTag three) _ _

/-! ## All three -/

/-- The handshake of an initiator with a responder, act by act. -/
structure Mirrors (P : Primitives) (ls e ls' e' : SecretKey) where
  act1 : List UInt8
  act2 : List UInt8
  act3 : List UInt8
  initiator : Initiator
  responder : Responder
  finished : Initiator
  ck : Bytes32
  sk : Bytes32
  rk : Bytes32
  actOne : (Initiator.new P ls (P.C.publicKey ls') e).actOne P = (initiator, act1)
  respond : (Responder.new P ls' e').actOne P act1 = .ok (responder, act2)
  actTwo : initiator.actTwo P act2 = .ok (finished, act3)
  intoTransport : finished.intoTransport P = .ok (.new ck sk rk)
  actThree : responder.actThree P act3 = .ok (P.C.publicKey ls, .new ck rk sk)
  actedOne : responder.actedOne = true
  length_act1 : act1.length = actOneLen
  length_act2 : act2.length = actTwoLen
  length_act3 : act3.length = actThreeLen

/-- Whatever the static and the ephemeral keys, the two sides accept each other's acts, and end with
each other's keys. -/
theorem handshake_mirrors (h : P.Lawful) (ls e ls' e' : SecretKey) :
    Nonempty (Mirrors P ls e ls' e') := by
  have hone := (Responder.new P ls' e').actOne_eq (h.fromSlice_serialize e) (h.ecdh_comm e ls')
  set one := (Responder.new P ls' e').st.agree P (P.C.publicKey e) (P.C.ecdh (P.C.publicKey ls') e)
    with hone'
  set st := one.1.mixHash P (endTag P one) with hst
  let initiator : Initiator := { Initiator.new P ls (P.C.publicKey ls') e with st }
  have htwo := initiator.actTwo_eq (h.fromSlice_serialize e') (h.ecdh_comm e' e)
  set two := st.agree P (P.C.publicKey e') (P.C.ecdh (P.C.publicKey e) e') with htwo'
  set st' := two.1.mixHash P (endTag P two) with hst'
  let responder : Responder := { Responder.new P ls' e' with
    st := st', remoteEphemeral := some (P.C.publicKey e), tempK2 := some two.2 }
  have hthree := responder.actThree_eq rfl (h.fromSlice_serialize ls) (h.ecdh_comm ls e')
  exact ⟨{
    act1 := keyAct (P.C.publicKey e) (endTag P one)
    act2 := keyAct (P.C.publicKey e') (endTag P two)
    act3 := _
    initiator := initiator
    responder := responder
    finished := _
    ck := _
    sk := _
    rk := _
    actOne := rfl
    respond := hone
    actTwo := htwo
    intoTransport := rfl
    actThree := hthree
    actedOne := rfl
    length_act1 := length_keyAct _ _
    length_act2 := length_keyAct _ _
    length_act3 := by simp [actThreeLen] }⟩

end

end Noise
