import Keraunos.Commitment.Build
import Keraunos.Lib.Sort

/-!
# The orders of outputs and keys

Byte strings are totally ordered, and with them the staged outputs of a commitment, the outputs of a
closing transaction and the keys of the funding output.
-/

namespace Commitment

open Bitcoin

theorem bytesLe_refl (a : List UInt8) : bytesLe a a = true := by
  induction a with
  | nil => rfl
  | cons x a ih => simp [bytesLe, ih]

theorem bytesLe_total (a b : List UInt8) : bytesLe a b = true ∨ bytesLe b a = true := by
  induction a generalizing b with
  | nil => exact .inl rfl
  | cons x a ih =>
    cases b with
    | nil => exact .inr rfl
    | cons y b =>
      simp only [bytesLe, Bool.or_eq_true, decide_eq_true_eq, Bool.and_eq_true, beq_iff_eq]
      rcases Nat.lt_trichotomy x.toNat y.toNat with hlt | heq | hgt
      · exact .inl (.inl hlt)
      · obtain rfl : x = y := UInt8.toNat_inj.1 heq
        exact (ih b).imp (fun h => .inr ⟨rfl, h⟩) fun h => .inr ⟨rfl, h⟩
      · exact .inr (.inl hgt)

theorem bytesLe_trans {a b c : List UInt8} (hab : bytesLe a b = true) (hbc : bytesLe b c = true) :
    bytesLe a c = true := by
  induction a generalizing b c with
  | nil => rfl
  | cons x a ih =>
    cases b with
    | nil => cases hab
    | cons y b =>
      cases c with
      | nil => cases hbc
      | cons z c =>
        simp only [bytesLe, Bool.or_eq_true, decide_eq_true_eq, Bool.and_eq_true,
          beq_iff_eq] at hab hbc ⊢
        rcases hab with hxy | ⟨rfl, hab⟩
        · rcases hbc with hyz | ⟨rfl, -⟩
          · exact .inl (UInt8.lt_trans hxy hyz)
          · exact .inl hxy
        · rcases hbc with hyz | ⟨rfl, hbc⟩
          · exact .inl hyz
          · exact .inr ⟨rfl, ih hab hbc⟩

theorem bytesLe_antisymm {a b : List UInt8} (hab : bytesLe a b = true) (hba : bytesLe b a = true) :
    a = b := by
  induction a generalizing b with
  | nil =>
    cases b with
    | nil => rfl
    | cons => cases hba
  | cons x a ih =>
    cases b with
    | nil => cases hab
    | cons y b =>
      simp only [bytesLe, Bool.or_eq_true, decide_eq_true_eq, Bool.and_eq_true,
        beq_iff_eq] at hab hba
      rcases hab with hxy | ⟨rfl, hab⟩
      · rcases hba with hyx | ⟨rfl, -⟩
        · exact absurd (UInt8.lt_trans hxy hyx) (UInt8.lt_irrefl x)
        · exact absurd hxy (UInt8.lt_irrefl _)
      · rcases hba with hyx | ⟨-, hba⟩
        · exact absurd hyx (UInt8.lt_irrefl _)
        · rw [ih hab hba]

/-! ## Outputs -/

/-- A value, then a script, then an expiry. -/
def OutputLe (a : TxOut) (cltvA : Nat) (b : TxOut) (cltvB : Nat) : Prop :=
  a.value < b.value ∨ a.value = b.value ∧
    (a.scriptPubkey = b.scriptPubkey ∧ cltvA ≤ cltvB ∨
      a.scriptPubkey ≠ b.scriptPubkey ∧ bytesLe a.scriptPubkey b.scriptPubkey = true)

theorem Staged.le_iff (a b : Staged) : a.le b = true ↔ OutputLe a.out a.cltv b.out b.cltv := by
  by_cases hs : a.out.scriptPubkey = b.out.scriptPubkey
  · simp [Staged.le, OutputLe, hs]
  · simp [Staged.le, OutputLe, hs]

theorem outputLe_total (a : TxOut) (i : Nat) (b : TxOut) (j : Nat) :
    OutputLe a i b j ∨ OutputLe b j a i := by
  unfold OutputLe
  rcases Nat.lt_trichotomy a.value b.value with hlt | heq | hgt
  · exact .inl (.inl hlt)
  · by_cases hs : a.scriptPubkey = b.scriptPubkey
    · rcases Nat.le_total i j with hij | hji
      · exact .inl (.inr ⟨heq, .inl ⟨hs, hij⟩⟩)
      · exact .inr (.inr ⟨heq.symm, .inl ⟨hs.symm, hji⟩⟩)
    · rcases bytesLe_total a.scriptPubkey b.scriptPubkey with hle | hle
      · exact .inl (.inr ⟨heq, .inr ⟨hs, hle⟩⟩)
      · exact .inr (.inr ⟨heq.symm, .inr ⟨Ne.symm hs, hle⟩⟩)
  · exact .inr (.inl hgt)

theorem outputLe_trans {a b c : TxOut} {i j k : Nat} (hab : OutputLe a i b j)
    (hbc : OutputLe b j c k) : OutputLe a i c k := by
  unfold OutputLe at *
  rcases hab with hab | ⟨hab, hab'⟩
  · rcases hbc with hbc | ⟨hbc, -⟩
    · exact .inl (by omega)
    · exact .inl (by omega)
  · rcases hbc with hbc | ⟨hbc, hbc'⟩
    · exact .inl (by omega)
    · refine .inr ⟨hab.trans hbc, ?_⟩
      rcases hab' with ⟨hs, hij⟩ | ⟨hs, hle⟩
      · rw [hs]
        exact hbc'.imp (fun h => ⟨h.1, Nat.le_trans hij h.2⟩) id
      · rcases hbc' with ⟨hs', -⟩ | ⟨hs', hle'⟩
        · exact .inr ⟨hs' ▸ hs, hs' ▸ hle⟩
        · refine .inr ⟨fun heq => ?_, bytesLe_trans hle hle'⟩
          exact hs' (bytesLe_antisymm hle' (heq ▸ hle))

/-- Only equal outputs with the same expiry stand in either order. -/
theorem outputLe_antisymm {a b : TxOut} {i j : Nat} (hab : OutputLe a i b j)
    (hba : OutputLe b j a i) : a = b ∧ i = j := by
  obtain ⟨v, s⟩ := a
  obtain ⟨w, t⟩ := b
  unfold OutputLe at *
  rcases hab with hab | ⟨hab, hab'⟩
  · rcases hba with hba | ⟨hba, -⟩
    · simp only at hab hba
      omega
    · simp only at hab hba
      omega
  · rcases hba with hba | ⟨-, hba'⟩
    · simp only at hab hba
      omega
    · simp only at hab hab' hba'
      subst hab
      rcases hab' with ⟨rfl, hij⟩ | ⟨hs, hle⟩
      · rcases hba' with ⟨-, hji⟩ | ⟨hs, -⟩
        · exact ⟨rfl, Nat.le_antisymm hij hji⟩
        · exact absurd rfl hs
      · rcases hba' with ⟨hs', -⟩ | ⟨-, hle'⟩
        · exact absurd hs'.symm hs
        · exact absurd (bytesLe_antisymm hle hle') hs

theorem outputLe_refl (a : TxOut) (i : Nat) : OutputLe a i a i :=
  .inr ⟨rfl, .inl ⟨rfl, Nat.le_refl i⟩⟩

theorem staged_sortsBy : SortsBy Staged.le fun s => (s.out, s.cltv) where
  total a b := by
    rw [Staged.le_iff, Staged.le_iff]
    exact outputLe_total ..
  trans a b c := by
    rw [Staged.le_iff, Staged.le_iff, Staged.le_iff]
    exact outputLe_trans
  key_iff a b := by
    rw [Staged.le_iff, Staged.le_iff, Prod.mk.injEq]
    constructor
    · intro ⟨hout, hcltv⟩
      rw [hout, hcltv]
      exact ⟨outputLe_refl .., outputLe_refl ..⟩
    · intro ⟨hab, hba⟩
      exact outputLe_antisymm hab hba

theorem closingLe_iff (a b : TxOut) : closingLe a b = true ↔ OutputLe a 0 b 0 := by
  by_cases hs : a.scriptPubkey = b.scriptPubkey
  · simp [closingLe, OutputLe, hs, bytesLe_refl]
  · simp [closingLe, OutputLe, hs]

theorem closing_sortsBy : SortsBy closingLe id where
  total a b := by
    rw [closingLe_iff, closingLe_iff]
    exact outputLe_total ..
  trans a b c := by
    rw [closingLe_iff, closingLe_iff, closingLe_iff]
    exact outputLe_trans
  key_iff a b := by
    rw [closingLe_iff, closingLe_iff]
    constructor
    · intro heq
      rw [show a = b from heq]
      exact ⟨outputLe_refl .., outputLe_refl ..⟩
    · intro ⟨hab, hba⟩
      exact (outputLe_antisymm hab hba).1

/-- The outputs of the two ends are the same exactly where their dust limits agree about them. -/
theorem buildClosingTx_eq_iff (o : OutPoint) (x y : Nat) (s t : Script) (d d' : Nat) :
    buildClosingTx o x y s t d = buildClosingTx o y x t s d' ↔
      (d ≤ x ↔ d' ≤ x) ∧ (d ≤ y ↔ d' ≤ y) := by
  constructor
  · intro h
    have hlength := congrArg (fun tx => tx.output.length) h
    simp only [buildClosingTx, List.length_insertionSort, List.length_append] at hlength
    -- The lower limit keeps every output that the higher one keeps.
    by_cases hx : d ≤ x <;> by_cases hx' : d' ≤ x <;> by_cases hy : d ≤ y <;>
      by_cases hy' : d' ≤ y <;> simp [hx, hx', hy, hy'] at hlength ⊢ <;> omega
  · rintro ⟨hx, hy⟩
    have hperm : ∀ l l' : List TxOut, (l ++ l').insertionSort (fun a b => closingLe a b) =
        (l' ++ l).insertionSort fun a b => closingLe a b := by
      intro l l'
      have hcomm : (l ++ l').Perm (l' ++ l) := List.perm_append_comm
      have hsort := closing_sortsBy.map_key_eq (hcomm.map id)
      rwa [List.map_id, List.map_id] at hsort
    simp only [buildClosingTx, hx, hy, hperm]

/-! ## The funding keys -/

/-- Both sides sort the keys in the same way. -/
theorem fundingRedeemscript_comm (a b : PublicKey) :
    fundingRedeemscript a b = fundingRedeemscript b a := by
  unfold fundingRedeemscript
  by_cases hab : bytesLe a.serialize b.serialize = true
  · by_cases hba : bytesLe b.serialize a.serialize = true
    · rw [PublicKey.serialize_inj (bytesLe_antisymm hab hba)]
    · simp only [hab, hba, if_true]
      rfl
  · have hba := (bytesLe_total a.serialize b.serialize).resolve_left hab
    simp only [hab, hba, if_true]
    rfl

end Commitment
