import Keraunos.Commitment.Proof.Construction

/-!
# One commitment, built by both sides

The two sides of a channel list the HTLCs of a commitment in their own orders. Where the hash keeps the
scripts of the commitment apart (`Crypto.Separates`), the HTLC outputs of both come in the same order:
what one side signs as its `k`-th HTLC output is what the other verifies as its own (`same_outputs`).
-/

/-- The hash keeps these scripts apart. -/
def Crypto.Separates (C : Crypto) (scripts : List Bitcoin.Script) : Prop :=
  ∀ x ∈ scripts, ∀ y ∈ scripts, C.sha256 x = C.sha256 y → x = y

instance (C : Crypto) (scripts : List Bitcoin.Script) : Decidable (C.Separates scripts) :=
  inferInstanceAs (Decidable (∀ x ∈ scripts, ∀ y ∈ scripts, C.sha256 x = C.sha256 y → x = y))

namespace List

/-- Relations of lists compose. -/
theorem Forall₂.comp {α β γ : Type} {R : α → β → Prop} {S : β → γ → Prop} {xs : List α} {ys : List β}
    {zs : List γ} (h : Forall₂ R xs ys) (h' : Forall₂ S ys zs) :
    Forall₂ (fun x z => ∃ y, R x y ∧ S y z) xs zs := by
  induction h generalizing zs with
  | nil =>
    cases h'
    exact .nil
  | cons hxy _ ih =>
    cases h' with
    | cons hyz hrest => exact .cons ⟨_, hxy, hyz⟩ (ih hrest)

/-- A traversal that succeeds, element by element. -/
theorem forall₂_of_mapM {α β : Type} {f : α → Option β} {xs : List α} {ys : List β}
    (h : xs.mapM f = some ys) : Forall₂ (fun x y => f x = some y) xs ys := by
  induction xs generalizing ys with
  | nil =>
    obtain rfl : [] = ys := by simpa using h
    exact .nil
  | cons x xs ih =>
    simp only [List.mapM_cons, Option.bind_eq_bind, Option.bind_eq_some_iff, Option.pure_def,
      Option.some.injEq] at h
    obtain ⟨y, hy, ys, hys, rfl⟩ := h
    exact .cons hy (ih hys)

/-- What is equal under a map, with the places. -/
theorem forall₂_of_map_eq {α β : Type} {f : α → β} {xs ys : List α} (h : xs.map f = ys.map f) :
    Forall₂ (fun x y => f x = f y ∧ ∃ v : Nat, xs[v]? = some x ∧ ys[v]? = some y) xs ys := by
  have hlength : xs.length = ys.length := by simpa using congrArg List.length h
  refine forall₂_iff_get.2 ⟨hlength, fun v hx hy => ⟨?_, v, ?_, ?_⟩⟩
  · have hv := congrArg (·[v]?) h
    simpa [List.getElem?_map, List.getElem?_eq_getElem hx, List.getElem?_eq_getElem hy] using hv
  · exact List.getElem?_eq_getElem hx
  · exact List.getElem?_eq_getElem hy

end List

namespace Commitment

open Bitcoin

/-! ## Scripts -/

/-- An offered and a received HTLC never have the same script. -/
theorem offered_of_script {C : Crypto} {keys : TxCreationKeys} {h h' : HtlcOutputInCommitment}
    (heq : htlcWitnessScript C keys h = htlcWitnessScript C keys h') : h.offered = h'.offered := by
  unfold htlcWitnessScript offeredHtlc receivedHtlc at heq
  cases ho : h.offered <;> cases ho' : h'.offered
  · rfl
  · rw [ho, ho'] at heq
    simp [List.append_assoc, Op.opIf, Op.opNotif] at heq
  · rw [ho, ho'] at heq
    simp [List.append_assoc, Op.opIf, Op.opNotif] at heq
  · rfl

theorem htlcWitnessScript_ne {C : Crypto} {keys : TxCreationKeys} {h : HtlcOutputInCommitment}
    {a b : PublicKey} {delay : Nat} : htlcWitnessScript C keys h ≠ revocableDelayed a delay b := by
  unfold htlcWitnessScript offeredHtlc receivedHtlc htlcScriptHead revocableDelayed
  intro heq
  split at heq <;> simp [Op.opDup, Op.opIf] at heq

namespace CommitmentTxParams

variable {C : Crypto} {p : CommitmentTxParams}

/-- The scripts that the outputs of a commitment hide behind their hashes. -/
def witnessScripts (C : Crypto) (p : CommitmentTxParams) : List Script :=
  revocableDelayed p.keys.revocationKey p.toSelfDelay p.keys.broadcasterDelayedPaymentKey ::
    p.htlcs.map (htlcWitnessScript C p.keys)

/-- The same HTLC output, in a commitment built from `p` and in one built from `q`. -/
structure SameOutput (C : Crypto) (p q : CommitmentTxParams) (o o' : Nat × Script) : Prop where
  script : o.2 = o'.2
  htlc : ∃ h h', p.htlcs[o.1]? = some h ∧ q.htlcs[o'.1]? = some h' ∧ h.offered = h'.offered ∧
    h.cltvExpiry = h'.cltvExpiry ∧ Msat.toSatFloor h.amountMsat = Msat.toSatFloor h'.amountMsat
  index : ∃ v, (p.assemble C).htlcOutputIndices[o.1]? = some (some v) ∧
    (q.assemble C).htlcOutputIndices[o'.1]? = some (some v)

/-- A staged output is an HTLC's, or hides another script. -/
theorem staged_cases {s : Staged} (hs : s ∈ p.sortedStaged C) :
    (∃ i h, p.htlcs[i]? = some h ∧ s = p.stageHtlc C h i) ∨
    s.htlcEntry = none ∧ (s.out.scriptPubkey = newP2wsh C (revocableDelayed p.keys.revocationKey
      p.toSelfDelay p.keys.broadcasterDelayedPaymentKey) ∨
      s.out.scriptPubkey = toRemote C p.countersignatoryPaymentBasepoint) := by
  rcases mem_staged.1 (mem_sortedStaged.1 hs) with hb | ⟨i, h, hi, -, rfl⟩
  · refine .inr ⟨htlcEntry_stageBalances hb, ?_⟩
    simp only [stageBalances, List.mem_append] at hb
    rcases hb with hb | hb
    · split at hb
      · rw [List.mem_singleton.1 hb]
        exact .inl rfl
      · cases hb
    · split at hb
      · rw [List.mem_singleton.1 hb]
        exact .inr rfl
      · cases hb
  · exact .inl ⟨i, h, hi, rfl⟩

theorem newP2wsh_inj (hsep : C.Separates (p.witnessScripts C)) {x y : Script}
    (hx : x ∈ p.witnessScripts C) (hy : y ∈ p.witnessScripts C)
    (h : newP2wsh C x = newP2wsh C y) : x = y := by
  refine hsep x hx y hy (Vector.toList_inj.1 ?_)
  simpa [newP2wsh] using h

/-- The output of an HTLC is no other output. -/
theorem stageHtlc_ne (hsep : C.Separates (p.witnessScripts C)) {h : HtlcOutputInCommitment} (hh : h ∈ p.htlcs)
    {i : Nat} {t : TxOut} (ht : t.scriptPubkey = newP2wsh C (revocableDelayed p.keys.revocationKey
      p.toSelfDelay p.keys.broadcasterDelayedPaymentKey) ∨
      t.scriptPubkey = toRemote C p.countersignatoryPaymentBasepoint) : (p.stageHtlc C h i).out ≠ t := by
  rintro rfl
  rcases ht with ht | ht
  · exact htlcWitnessScript_ne (newP2wsh_inj hsep (.tail _ (List.mem_map_of_mem hh)) (.head _) ht)
  · simp [stageHtlc, newP2wsh, toRemote, newP2wpkhFromPubkey] at ht

/-- The HTLC outputs of a commitment come in the same order, whatever the order of the HTLCs. -/
theorem same_outputs {htlcs : List HtlcOutputInCommitment} (hp : htlcs.Perm p.htlcs)
    (hsep : C.Separates (p.witnessScripts C)) :
    List.Forall₂ (SameOutput C { p with htlcs := htlcs } p)
      (({ p with htlcs := htlcs } : CommitmentTxParams).assemble C).htlcsInOutputOrder
      (p.assemble C).htlcsInOutputOrder := by
  refine List.rel_filterMap ?_ (List.forall₂_of_map_eq (sortedStaged_perm (C := C) hp))
  rintro s t ⟨hkey, v, hs, ht⟩
  obtain ⟨hout, hcltv⟩ := Prod.mk.inj hkey
  rcases staged_cases (List.mem_of_getElem? hs) with ⟨i, h, hi, rfl⟩ | ⟨hnone, hscript⟩
  · have hmem : h ∈ p.htlcs := hp.mem_iff.1 (List.mem_of_getElem? hi)
    rcases staged_cases (List.mem_of_getElem? ht) with ⟨j, h', hj, rfl⟩ | ⟨-, hscript⟩
    · have hvalue : Msat.toSatFloor h.amountMsat = Msat.toSatFloor h'.amountMsat :=
        congrArg TxOut.value hout
      have heq : htlcWitnessScript C p.keys h = htlcWitnessScript C p.keys h' :=
        newP2wsh_inj hsep (.tail _ (List.mem_map_of_mem hmem))
          (.tail _ (List.mem_map_of_mem (List.mem_of_getElem? hj))) (congrArg TxOut.scriptPubkey hout)
      exact .some ⟨heq, ⟨h, h', hi, hj, offered_of_script heq, hcltv, hvalue⟩,
        v, owns_iff.2 ⟨_, hs, rfl⟩, owns_iff.2 ⟨_, ht, rfl⟩⟩
    · exact absurd hout (stageHtlc_ne hsep hmem hscript)
  · rcases staged_cases (List.mem_of_getElem? ht) with ⟨j, h', hj, rfl⟩ | ⟨hnone', -⟩
    · exact absurd hout.symm (stageHtlc_ne hsep (List.mem_of_getElem? hj) hscript)
    · rw [hnone, hnone']
      exact .none

end CommitmentTxParams

end Commitment
