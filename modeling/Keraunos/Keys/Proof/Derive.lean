import Keraunos.Crypto.Proof.Hkdf
import Keraunos.Keys.Manager

/-!
# Derived keys have their secrets

Where `PublicKey` and `SecretKey` tweak alike (`SecretCrypto.Lawful`), every key of a commitment is the
public key of a secret that one of the two signers signs with (`derived_keys_signed`). The keys that
`KeysManager` derives are HMACs of distinct messages (`deriveKey_eq`, `deriveKey_collision`).
-/

/-- Adding a tweak commutes with taking the public key. -/
def Crypto.AddsTweaks (C : Crypto) : Prop :=
  ∀ sk t, C.addExpTweak (C.publicKey sk) t = (C.addTweak sk t).map C.publicKey

/-- The curve is a group, and secret keys are its scalars. -/
structure SecretCrypto.Lawful (C : SecretCrypto) : Prop where
  add : C.toCrypto.AddsTweaks
  mul : ∀ sk t, C.mulTweak (C.publicKey sk) t = (C.mulSecret sk t).map C.publicKey
  combine : ∀ a b, C.combine (C.publicKey a) (C.publicKey b) = (C.addTweak a b.bytes).map C.publicKey

namespace Keys

theorem derivePubkey_publicKey {C : Crypto} (h : C.AddsTweaks) (base : SecretKey) (point : PublicKey) :
    derivePubkey C (C.publicKey base) point = (derivePrivkey C base point).map C.publicKey := by
  unfold derivePubkey derivePrivkey
  cases tweak C point (C.publicKey base) with
  | none => rfl
  | some t => exact h base t

theorem deriveRevocationPubkey_publicKey {C : SecretCrypto} (h : C.Lawful) (base secret : SecretKey) :
    deriveRevocationPubkey C.toCrypto (C.publicKey base) (C.publicKey secret) =
      (deriveRevocationPrivkey C base secret).map C.publicKey := by
  simp only [deriveRevocationPubkey, deriveRevocationPrivkey, Option.bind_eq_bind]
  generalize tweak C.toCrypto (C.publicKey base) (C.publicKey secret) = s
  generalize tweak C.toCrypto (C.publicKey secret) (C.publicKey base) = t
  cases s with
  | none => rfl
  | some s =>
    simp only [Option.bind_some, h.mul]
    cases C.mulSecret base s with
    | none => rfl
    | some a =>
      cases t with
      | none => rfl
      | some t =>
        simp only [Option.map_some, Option.bind_some]
        cases C.mulSecret secret t with
        | none => rfl
        | some b => exact h.combine a b

/-- A key that can be derived is the public key of a secret that can. -/
theorem exists_derivePrivkey {C : Crypto} (h : C.AddsTweaks) {base : SecretKey} {point key : PublicKey}
    (hkey : derivePubkey C (C.publicKey base) point = some key) :
    ∃ sk, derivePrivkey C base point = some sk ∧ C.publicKey sk = key := by
  rw [derivePubkey_publicKey h, Option.map_eq_some_iff] at hkey
  exact hkey

end Keys

namespace InMemoryChannelSigner

variable {C : Crypto} {k : InMemoryChannelSigner} {point key : PublicKey}

theorem signHtlc_key (h : C.AddsTweaks)
    (hkey : Keys.derivePubkey C (k.pubkeys C).htlcBasepoint point = some key) :
    ∃ sk, C.publicKey sk = key ∧ ∀ digest, (k.toSigner C).signHtlc digest point = C.signEcdsa sk digest := by
  obtain ⟨sk, hsk, hpk⟩ := Keys.exists_derivePrivkey h hkey
  refine ⟨sk, hpk, fun digest => ?_⟩
  show C.signEcdsa (k.htlcKey C point) digest = _
  rw [htlcKey, hsk, Option.getD_some]

theorem signDelayedPayment_key (h : C.AddsTweaks)
    (hkey : Keys.derivePubkey C (k.pubkeys C).delayedPaymentBasepoint point = some key) :
    ∃ sk, C.publicKey sk = key ∧
      ∀ digest, (k.toSigner C).signDelayedPayment digest point = C.signEcdsa sk digest := by
  obtain ⟨sk, hsk, hpk⟩ := Keys.exists_derivePrivkey h hkey
  refine ⟨sk, hpk, fun digest => ?_⟩
  show C.signEcdsa (k.delayedPaymentKey C point) digest = _
  rw [delayedPaymentKey, hsk, Option.getD_some]

end InMemoryChannelSigner

/-! ## The keys of a commitment -/

theorem SecretKey.fromSlice_toList (C : Crypto) (b : Bytes32) :
    fromSlice C b.toList = if C.validSecret b then some ⟨b⟩ else none := by
  obtain ⟨xs, hxs⟩ := b
  simp [fromSlice, Vector.toList, hxs]

/-- How the keys of a commitment are derived. -/
theorem TxCreationKeys.of_derive {C : Crypto} {point : PublicKey}
    {broadcaster countersignatory : ChannelPublicKeys} {keys : TxCreationKeys}
    (h : derive C point broadcaster countersignatory = some keys) :
    Keys.deriveRevocationPubkey C countersignatory.revocationBasepoint point = some keys.revocationKey ∧
    Keys.derivePubkey C broadcaster.htlcBasepoint point = some keys.broadcasterHtlcKey ∧
    Keys.derivePubkey C countersignatory.htlcBasepoint point = some keys.countersignatoryHtlcKey ∧
    Keys.derivePubkey C broadcaster.delayedPaymentBasepoint point =
      some keys.broadcasterDelayedPaymentKey := by
  simp only [derive, Option.bind_eq_bind, Option.bind_eq_some_iff, Option.pure_def, Option.some.injEq] at h
  obtain ⟨revocation, hrev, broadcaster, hb, countersignatory, hc, delayed, hd, rfl⟩ := h
  exact ⟨hrev, hb, hc, hd⟩

/-- Every key of a commitment is the public key of a secret: the broadcaster signs with the ones for its
HTLCs and its delayed balance, the other side with the one for the HTLCs and, once the secret of the
commitment is revealed, with the revocation key. -/
theorem derived_keys_signed {C : SecretCrypto} (h : C.Lawful) {k k' : InMemoryChannelSigner}
    {point : PublicKey} {keys : TxCreationKeys}
    (hkeys : TxCreationKeys.derive C.toCrypto point (k.pubkeys C.toCrypto) (k'.pubkeys C.toCrypto) =
      some keys) :
    (∃ sk, C.publicKey sk = keys.broadcasterHtlcKey ∧
      ∀ digest, (k.toSigner C.toCrypto).signHtlc digest point = C.signEcdsa sk digest) ∧
    (∃ sk, C.publicKey sk = keys.countersignatoryHtlcKey ∧
      ∀ digest, (k'.toSigner C.toCrypto).signHtlc digest point = C.signEcdsa sk digest) ∧
    (∃ sk, C.publicKey sk = keys.broadcasterDelayedPaymentKey ∧
      ∀ digest, (k.toSigner C.toCrypto).signDelayedPayment digest point = C.signEcdsa sk digest) ∧
    ∀ secret, Keys.perCommitmentPoint C.toCrypto secret = some point →
      ∃ sk, C.publicKey sk = keys.revocationKey ∧
        ∀ digest, k'.signRevocation C digest secret = some (C.signEcdsa sk digest) := by
  obtain ⟨hrev, hb, hc, hd⟩ := TxCreationKeys.of_derive hkeys
  refine ⟨InMemoryChannelSigner.signHtlc_key h.add hb, InMemoryChannelSigner.signHtlc_key h.add hc,
    InMemoryChannelSigner.signDelayedPayment_key h.add hd, fun secret hsecret => ?_⟩
  simp only [Keys.perCommitmentPoint, Option.ite_none_right_eq_some, Option.some.injEq] at hsecret
  obtain ⟨hvalid, rfl⟩ := hsecret
  have hkey : (Keys.deriveRevocationPrivkey C k'.revocationBaseKey ⟨secret⟩).map C.publicKey =
      some keys.revocationKey := by
    rw [← Keys.deriveRevocationPubkey_publicKey h]
    exact hrev
  obtain ⟨sk, hsk, hpk⟩ := Option.map_eq_some_iff.1 hkey
  refine ⟨sk, hpk, fun digest => ?_⟩
  simp [InMemoryChannelSigner.signRevocation, SecretKey.fromSlice_toList, hvalid, hsk]

theorem Crypto.Transparent.beVal_ofNat (w n : Nat) :
    Bytes.beVal (Crypto.Transparent.ofNat w n).toList = n % 256 ^ w := Bytes.beVal_beBytes w n

theorem SecretCrypto.additive_lawful : SecretCrypto.additive.Lawful := by
  have hkey : ∀ sk : SecretKey, Bytes.beVal (additive.publicKey sk).serialize = Bytes.beVal sk.bytes.toList := by
    intro sk
    have hlt := Bytes.beVal_lt sk.bytes.toList
    rw [Vector.length_toList] at hlt
    refine (Bytes.beVal_beBytes 33 _).trans (Nat.mod_eq_of_lt (hlt.trans (by decide)))
  have hpow : (256 : Nat) ^ 32 = 2 ^ 256 := by decide
  refine ⟨fun sk t => ?_, fun sk t => ?_, fun a b => ?_⟩
  · show some (PublicKey.mk _) = some (PublicKey.mk _)
    rw [hkey, Crypto.Transparent.beVal_ofNat, hpow]
  · show some (PublicKey.mk _) = some (PublicKey.mk _)
    rw [hkey, Crypto.Transparent.beVal_ofNat, hpow]
  · show some (PublicKey.mk _) = some (PublicKey.mk _)
    rw [hkey, hkey, Crypto.Transparent.beVal_ofNat, hpow]

/-- The keys of one commitment, and the secret that is revealed when it is revoked. -/
theorem derived_keys_signed_demo : ∃ keys sk : _, ∃ k' : InMemoryChannelSigner,
    (TxCreationKeys.revocationKey keys = SecretCrypto.additive.publicKey sk ∧
      ∀ digest, k'.signRevocation SecretCrypto.additive digest (Vector.replicate 32 7) =
        some (SecretCrypto.additive.signEcdsa sk digest)) := by
  let key (n : Nat) : SecretKey := ⟨Crypto.Transparent.ofNat 32 n⟩
  let k : InMemoryChannelSigner := ⟨key 1, key 2, key 3, key 4, key 5, Vector.replicate 32 1⟩
  let k' : InMemoryChannelSigner := ⟨key 6, key 7, key 8, key 9, key 10, Vector.replicate 32 2⟩
  let C := SecretCrypto.additive.toCrypto
  let point := SecretCrypto.additive.publicKey ⟨Vector.replicate 32 7⟩
  obtain ⟨-, -, -, hrev⟩ := derived_keys_signed SecretCrypto.additive_lawful
    (rfl : TxCreationKeys.derive C point (k.pubkeys C) (k'.pubkeys C) = some _)
  obtain ⟨sk, hpk, hsign⟩ := hrev (Vector.replicate 32 7) rfl
  exact ⟨_, sk, k', hpk.symm, hsign⟩

/-! ## `derive_key` -/

section
variable {ε : Type} (C : Crypto) (prk : Bytes32) (info : List UInt8)

/-- The message a salt gives. -/
def saltedInfo (info : List UInt8) (salt : UInt8) : List UInt8 := info ++ [salt] ++ [1]

/-- The key of a salt, if its bytes are a secret key. -/
def saltedKey (salt : UInt8) : Option SecretKey :=
  SecretKey.fromSlice C (hmacSha256 prk.toList (saltedInfo info salt)).toList

theorem okm_block : Hkdf.okm prk info 32 = (hmacSha256 prk.toList (info ++ [1])).toList := by
  have hlen : (hmacSha256 prk.toList (info ++ [1])).toList.length = 32 := Vector.length_toList
  simp [Hkdf.okm, Hkdf.stream, Hkdf.T, List.range_succ, List.take_of_length_le hlen.le]

/-- The loop tries the salts in order. -/
theorem deriveKeyLoop_eq (fuel : Nat) {okm : List UInt8} (hokm : okm.length = 32) (salt : UInt8) :
    (deriveKeyLoop C prk info fuel okm salt : Except (Fault ε) (Option SecretKey)) =
      .ok ((List.range fuel).findSome? fun n => saltedKey C prk info (salt + UInt8.ofNat n)) := by
  induction fuel generalizing okm salt with
  | zero => rfl
  | succ fuel ih =>
    have hexpand : (Hkdf.expand prk (info ++ [salt]) okm : Except (Fault ε) (List UInt8)) =
        .ok (hmacSha256 prk.toList (saltedInfo info salt)).toList := by
      rw [Hkdf.expand_eq _ _ (by omega), hokm, okm_block]
      rfl
    rw [deriveKeyLoop, hexpand, List.range_succ_eq_map, List.findSome?_cons, List.findSome?_map]
    have hsalt : salt + UInt8.ofNat 0 = salt := UInt8.add_zero salt
    simp only [bind, Except.bind, hsalt]
    cases hkey : saltedKey C prk info salt with
    | some sk => rw [show SecretKey.fromSlice C _ = some sk from hkey]; rfl
    | none =>
      rw [show SecretKey.fromSlice C _ = none from hkey]
      simp only [ih Vector.length_toList]
      refine congrArg (fun f => Except.ok (List.findSome? f (List.range fuel))) (funext fun n => ?_)
      have hnext : salt + 1 + UInt8.ofNat n = salt + UInt8.ofNat (n + 1) := by
        rw [UInt8.add_assoc, UInt8.add_comm 1, UInt8.ofNat_add]
        rfl
      rw [hnext]
      rfl

/-- The salts repeat after 256 passes, so the loop ends by then or never. -/
theorem findSome?_salts {β : Type} (f : UInt8 → Option β) {fuel : Nat} (hfuel : 256 ≤ fuel) :
    (List.range fuel).findSome? (fun n => f (UInt8.ofNat n)) =
      (List.range 256).findSome? fun n => f (UInt8.ofNat n) := by
  obtain ⟨m, rfl⟩ := Nat.exists_eq_add_of_le hfuel
  rw [List.range_add, List.findSome?_append]
  cases hfirst : (List.range 256).findSome? fun n => f (UInt8.ofNat n) with
  | some b => rfl
  | none =>
    rw [Option.none_or, List.findSome?_eq_none_iff]
    intro n _
    have hmod : UInt8.ofNat n = UInt8.ofNat (n % 256) := by
      rw [← UInt8.toNat_inj]
      simp
    rw [hmod]
    exact List.findSome?_eq_none_iff.1 hfirst _ (List.mem_range.2 (Nat.mod_lt n (by decide)))

/-- `derive_key` never panics, and returns the key of the first of the 256 salts that has one; where none
has, it loops forever. -/
theorem deriveKey_eq {fuel : Nat} (hfuel : 256 ≤ fuel) (seed : Bytes32) (label : List UInt8) (index : Nat)
    (sub : UInt8) : (deriveKey C fuel seed label index sub : Except (Fault ε) (Option SecretKey)) =
      .ok ((List.range 256).findSome? fun n =>
        saltedKey C (Hkdf.extract label seed.toList) (deriveKeyInfo index sub) (UInt8.ofNat n)) := by
  rw [deriveKey, deriveKeyLoop_eq _ _ _ _ (by simp), ← findSome?_salts _ hfuel]
  simp

end

/-- Two messages with the same digest under `prk`, which is `b`. -/
def Collides (prk b : Bytes32) : Prop :=
  ∃ x y, x ≠ y ∧ hmacSha256 prk.toList x = b ∧ hmacSha256 prk.toList y = b

theorem saltedKey_eq_some {C : Crypto} {prk : Bytes32} {info : List UInt8} {salt : UInt8} {sk : SecretKey}
    (h : saltedKey C prk info salt = some sk) : hmacSha256 prk.toList (saltedInfo info salt) = sk.bytes := by
  rw [saltedKey, SecretKey.fromSlice_toList, Option.ite_none_right_eq_some] at h
  exact congrArg SecretKey.bytes (Option.some.inj h.2)

theorem saltedInfo_inj {i j : Nat} {s t salt salt' : UInt8} (hi : i < 2 ^ 64) (hj : j < 2 ^ 64)
    (h : saltedInfo (deriveKeyInfo i s) salt = saltedInfo (deriveKeyInfo j t) salt') : i = j ∧ s = t := by
  simp only [saltedInfo, deriveKeyInfo, List.append_assoc] at h
  obtain ⟨hindex, hrest⟩ := List.append_inj h (by simp)
  have hmod := Bytes.beBytes_inj hindex
  have hpow : (256 : Nat) ^ 8 = 2 ^ 64 := by decide
  rw [hpow, Nat.mod_eq_of_lt hi, Nat.mod_eq_of_lt hj] at hmod
  exact ⟨hmod, (List.cons.inj hrest).1⟩

/-- Keys of one seed and label are the same only for the same index and purpose, or by a collision. -/
theorem deriveKey_inj {ε : Type} {C : Crypto} {fuel : Nat} {seed : Bytes32} {label : List UInt8} {i j : Nat}
    {s t : UInt8} {sk sk' : SecretKey} (hi : i < 2 ^ 64) (hj : j < 2 ^ 64)
    (h : (deriveKey C fuel seed label i s : Except (Fault ε) (Option SecretKey)) = .ok (some sk))
    (h' : (deriveKey C fuel seed label j t : Except (Fault ε) (Option SecretKey)) = .ok (some sk'))
    (heq : sk.bytes = sk'.bytes) :
    i = j ∧ s = t ∨ Collides (Hkdf.extract label seed.toList) sk.bytes := by
  rw [deriveKey, deriveKeyLoop_eq _ _ _ _ (by simp)] at h h'
  obtain ⟨n, -, hn⟩ := List.exists_of_findSome?_eq_some (Except.ok.inj h)
  obtain ⟨m, -, hm⟩ := List.exists_of_findSome?_eq_some (Except.ok.inj h')
  have hx := saltedKey_eq_some hn
  have hy := saltedKey_eq_some hm
  by_cases hsame : saltedInfo (deriveKeyInfo i s) (0 + UInt8.ofNat n) =
      saltedInfo (deriveKeyInfo j t) (0 + UInt8.ofNat m)
  · exact .inl (saltedInfo_inj hi hj hsame)
  · exact .inr ⟨_, _, hsame, hx, hy.trans heq.symm⟩

/-- The secrets of a channel, in the order of their purposes. -/
def InMemoryChannelSigner.secrets (k : InMemoryChannelSigner) : List Bytes32 :=
  [k.fundingKey.bytes, k.revocationBaseKey.bytes, k.paymentKey.bytes, k.delayedPaymentBaseKey.bytes,
    k.htlcBaseKey.bytes, k.commitmentSeed]

theorem secrets_of_derived {ε : Type} {C : Crypto} {fuel : Nat} {seed : Bytes32} {index : Nat}
    {k : InMemoryChannelSigner}
    (h : (deriveChannelSigner C fuel seed index : Except (Fault ε) _) = .ok (some k)) (m : Nat) (b : Bytes32)
    (hm : k.secrets[m]? = some b) : m < 6 ∧
      (deriveKey C fuel seed channelLabel index (UInt8.ofNat m) : Except (Fault ε) _) = .ok (some ⟨b⟩) := by
  have hlt : m < 6 := (List.getElem?_eq_some_iff.1 hm).1
  refine ⟨hlt, ?_⟩
  simp only [deriveChannelSigner, Fault.bind_eq_ok, pure, Except.pure, Except.ok.injEq] at h
  obtain ⟨funding, h0, revocation, h1, payment, h2, delayed, h3, htlc, h4, commitmentSeed, h5, h⟩ := h
  simp only [Option.bind_eq_bind, Option.bind_eq_some_iff, Option.some.injEq] at h
  obtain ⟨_, rfl, _, rfl, _, rfl, _, rfl, _, rfl, _, rfl, rfl⟩ := h
  obtain rfl | rfl | rfl | rfl | rfl | rfl : m = 0 ∨ m = 1 ∨ m = 2 ∨ m = 3 ∨ m = 4 ∨ m = 5 := by omega
  · exact Option.some.inj hm ▸ h0
  · exact Option.some.inj hm ▸ h1
  · exact Option.some.inj hm ▸ h2
  · exact Option.some.inj hm ▸ h3
  · exact Option.some.inj hm ▸ h4
  · exact Option.some.inj hm ▸ h5

/-- The six secrets of a channel differ from each other and from those of every other channel of the
node, unless HMAC collides. -/
theorem channel_secrets_apart {C : Crypto} {fuel : Nat} {seed : Bytes32} {i j : Nat}
    {k k' : InMemoryChannelSigner} (hi : i < 2 ^ 64) (hj : j < 2 ^ 64)
    (h : (deriveChannelSigner C fuel seed i : Except (Fault Empty) _) = .ok (some k))
    (h' : (deriveChannelSigner C fuel seed j : Except (Fault Empty) _) = .ok (some k')) (m n : Nat)
    (b : Bytes32) (hm : k.secrets[m]? = some b) (hn : k'.secrets[n]? = some b) :
    i = j ∧ m = n ∨ Collides (Hkdf.extract channelLabel seed.toList) b := by
  obtain ⟨hlt, hkey⟩ := secrets_of_derived h m b hm
  obtain ⟨hlt', hkey'⟩ := secrets_of_derived h' n b hn
  refine (deriveKey_inj hi hj hkey hkey' rfl).imp (fun ⟨hij, hsub⟩ => ⟨hij, ?_⟩) id
  have hnat := congrArg UInt8.toNat hsub
  rw [UInt8.toNat_ofNat', UInt8.toNat_ofNat'] at hnat
  omega

/-- Where all bytes are secret keys. -/
theorem channel_secrets_apart_demo : ∃ k k' : InMemoryChannelSigner, ∀ b, k.secrets[0]? = some b →
    k'.secrets[4]? = some b → Collides (Hkdf.extract channelLabel (Vector.replicate 32 1).toList) b := by
  have hkey : ∀ index sub, ∃ sk, (deriveKey Crypto.transparent 256 (Vector.replicate 32 1) channelLabel index
      sub : Except (Fault Empty) (Option SecretKey)) = .ok (some sk) := by
    intro index sub
    rw [deriveKey_eq _ (by decide), List.range_succ_eq_map, List.findSome?_cons, saltedKey,
      SecretKey.fromSlice_toList]
    exact ⟨_, rfl⟩
  have hchannel : ∀ index, ∃ k, (deriveChannelSigner Crypto.transparent 256 (Vector.replicate 32 1) index :
      Except (Fault Empty) _) = .ok (some k) := by
    intro index
    obtain ⟨k0, h0⟩ := hkey index 0
    obtain ⟨k1, h1⟩ := hkey index 1
    obtain ⟨k2, h2⟩ := hkey index 2
    obtain ⟨k3, h3⟩ := hkey index 3
    obtain ⟨k4, h4⟩ := hkey index 4
    obtain ⟨k5, h5⟩ := hkey index 5
    exact ⟨_, by simp only [deriveChannelSigner, h0, h1, h2, h3, h4, h5]; rfl⟩
  obtain ⟨k, hk⟩ := hchannel 3
  obtain ⟨k', hk'⟩ := hchannel 4
  refine ⟨k, k', fun b hb hb' => ?_⟩
  rcases channel_secrets_apart (by decide) (by decide) hk hk' 0 4 b hb hb' with ⟨hij, -⟩ | hcollides
  · cases hij
  · exact hcollides
