import Keraunos.Commitment.Build

/-!
# The outputs of a commitment transaction

Which HTLCs stand in a commitment transaction (`mem_order`), that each has an output
(`index_of_order`), and that the transaction and its index lists keep the bounds of their types.
-/

namespace Commitment

open Bitcoin

/-! ## Script lengths -/

theorem length_pushSlice (data : List UInt8) : (pushSlice data).length ≤ data.length + 5 := by
  unfold pushSlice
  split
  · simp
  · repeat' split
    all_goals
      simp only [List.length_append, List.length_cons, length_leBytes]
      omega

theorem length_magnitude (fuel n : Nat) : (magnitude fuel n).length ≤ fuel := by
  induction fuel generalizing n with
  | zero => exact Nat.le_refl _
  | succ fuel ih =>
    rw [magnitude]
    split
    · exact Nat.zero_le _
    · exact Nat.succ_le_succ (ih _)

theorem length_pushInt (n : Nat) : (pushInt n).length ≤ 14 := by
  have hm := length_magnitude 8 n
  have hs : (scriptnumEncode n).length ≤ 9 := by
    simp only [scriptnumEncode]
    split
    · rw [List.length_append, List.length_singleton]
      omega
    · omega
  unfold pushInt
  split
  · simp
  · split
    · simp
    · exact (length_pushSlice _).trans (by omega)

/-- An HTLC script is short. -/
theorem length_htlcWitnessScript (C : Crypto) (keys : TxCreationKeys) (h : HtlcOutputInCommitment) :
    (htlcWitnessScript C keys h).length < 2 ^ 16 := by
  have hrev := length_pushSlice (C.hash160 keys.revocationKey.serialize).toList
  have hcs := length_pushSlice keys.countersignatoryHtlcKey.serialize
  have hbr := length_pushSlice keys.broadcasterHtlcKey.serialize
  have hph := length_pushSlice (C.ripemd160 h.paymentHash.toList).toList
  have h2 := length_pushInt 2
  have h32 := length_pushInt 32
  have hex := length_pushInt h.cltvExpiry
  rw [Vector.length_toList] at hrev hph
  rw [PublicKey.length_serialize] at hcs hbr
  unfold htlcWitnessScript
  split
  · simp only [offeredHtlc, htlcScriptHead, List.length_append, List.length_cons, List.length_nil]
    omega
  · simp only [receivedHtlc, htlcScriptHead, List.length_append, List.length_cons, List.length_nil]
    omega

/-! ## Outputs -/

namespace CommitmentTxParams

variable {C : Crypto} {p : CommitmentTxParams}

theorem mem_sortedStaged {s : Staged} : s ∈ p.sortedStaged C ↔ s ∈ p.staged C :=
  (List.perm_insertionSort _ _).mem_iff

/-- The staged outputs: the two balances and the untrimmed HTLCs. -/
theorem mem_staged {s : Staged} : s ∈ p.staged C ↔ s ∈ p.stageBalances C ∨
    ∃ i h, p.htlcs[i]? = some h ∧ p.trimmed h = false ∧ s = p.stageHtlc C h i := by
  simp only [staged, List.mem_append, List.mem_map, List.mem_filter, Bool.not_eq_true']
  constructor
  · rintro (hs | ⟨⟨h, i⟩, ⟨hmem, ht⟩, rfl⟩)
    · exact .inl hs
    · exact .inr ⟨i, h, List.mem_zipIdx_iff_getElem?.1 hmem, ht, rfl⟩
  · rintro (hs | ⟨i, h, hi, ht, rfl⟩)
    · exact .inl hs
    · exact .inr ⟨(h, i), ⟨List.mem_zipIdx_iff_getElem?.2 hi, ht⟩, rfl⟩

theorem htlcEntry_stageBalances {s : Staged} (h : s ∈ p.stageBalances C) : s.htlcEntry = none := by
  simp only [stageBalances, List.mem_append] at h
  rcases h with h | h
  · split at h
    · rw [List.mem_singleton.1 h]
      rfl
    · simp at h
  · split at h
    · rw [List.mem_singleton.1 h]
      rfl
    · simp at h

/-- The HTLC outputs are those of the untrimmed HTLCs, each with its own script. -/
theorem mem_order {o : Nat × Script} : o ∈ (p.assemble C).htlcsInOutputOrder ↔
    ∃ h, p.htlcs[o.1]? = some h ∧ p.trimmed h = false ∧ o.2 = htlcWitnessScript C p.keys h := by
  simp only [assemble, List.mem_filterMap, mem_sortedStaged, mem_staged]
  constructor
  · rintro ⟨s, hs | ⟨i, h, hi, ht, rfl⟩, he⟩
    · rw [htlcEntry_stageBalances hs] at he
      cases he
    · cases he
      exact ⟨h, hi, ht, rfl⟩
  · intro ⟨h, hi, ht, ho⟩
    refine ⟨p.stageHtlc C h o.1, .inr ⟨o.1, h, hi, ht, rfl⟩, ?_⟩
    show some (o.1, htlcWitnessScript C p.keys h) = some o
    rw [← ho]

/-- An HTLC output has an index, within the outputs. -/
theorem index_of_order {o : Nat × Script} (ho : o ∈ (p.assemble C).htlcsInOutputOrder) :
    ∃ vout, (p.assemble C).htlcOutputIndices[o.1]? = some (some vout) ∧
      vout < (p.assemble C).tx.output.length := by
  obtain ⟨h, hi, ht, -⟩ := mem_order.1 ho
  have hmem : p.stageHtlc C h o.1 ∈ p.sortedStaged C :=
    mem_sortedStaged.2 (mem_staged.2 (.inr ⟨o.1, h, hi, ht, rfl⟩))
  have hsome : ((p.sortedStaged C).findIdx? (Staged.isHtlc o.1)).isSome = true := by
    rw [List.findIdx?_isSome, List.any_eq_true]
    exact ⟨_, hmem, by simp [Staged.isHtlc, stageHtlc]⟩
  obtain ⟨vout, hv⟩ := Option.isSome_iff_exists.1 hsome
  refine ⟨vout, ?_, ?_⟩
  · have hlt := (List.getElem?_eq_some_iff.1 hi).1
    simp [assemble, hlt, hv]
  · have hlt := (List.findIdx?_eq_some_iff_getElem.1 hv).1
    simpa [assemble, tx] using hlt

theorem length_staged : (p.staged C).length ≤ p.htlcs.length + 2 := by
  have hb : (p.stageBalances C).length ≤ 2 := by
    unfold stageBalances
    rw [List.length_append]
    have h1 : ∀ (c : Prop) [Decidable c] (s : Staged), (if c then [s] else []).length ≤ 1 := by
      intro c _ s
      split <;> simp
    exact Nat.add_le_add (h1 _ _) (h1 _ _)
  have hf := List.length_filter_le (fun hi => !p.trimmed hi.1) p.htlcs.zipIdx
  rw [List.length_zipIdx] at hf
  rw [staged, List.length_append, List.length_map]
  omega

/-- No more outputs than HTLCs and two balances, and no more HTLC outputs than HTLCs. -/
theorem length_output : (p.assemble C).tx.output.length ≤ p.htlcs.length + 2 := by
  show ((p.sortedStaged C).map (·.out)).length ≤ _
  rw [List.length_map, sortedStaged, List.length_insertionSort]
  exact length_staged

theorem length_order : (p.assemble C).htlcsInOutputOrder.length ≤ p.htlcs.length := by
  have hperm : (p.assemble C).htlcsInOutputOrder.Perm ((p.staged C).filterMap Staged.htlcEntry) :=
    (List.perm_insertionSort _ _).filterMap _
  have hnil : (p.stageBalances C).filterMap Staged.htlcEntry = [] :=
    List.filterMap_eq_nil_iff.2 fun s hs => htlcEntry_stageBalances hs
  have hle := List.length_filterMap_le Staged.htlcEntry
    ((p.htlcs.zipIdx.filter fun hi => !p.trimmed hi.1).map fun hi => p.stageHtlc C hi.1 hi.2)
  have hf := List.length_filter_le (fun hi => !p.trimmed hi.1) p.htlcs.zipIdx
  rw [List.length_zipIdx] at hf
  rw [List.length_map] at hle
  rw [hperm.length_eq, staged, List.filterMap_append, hnil, List.nil_append]
  omega

/-- Every output script is a witness program. -/
theorem length_scriptPubkey {o : TxOut} (h : o ∈ (p.tx C).output) : o.scriptPubkey.length ≤ 34 := by
  obtain ⟨s, hs, rfl⟩ := List.mem_map.1 h
  have hp2wsh : ∀ script, (newP2wsh C script).length ≤ 34 := by simp [newP2wsh]
  rcases mem_staged.1 (mem_sortedStaged.1 hs) with hb | ⟨i, h, -, -, rfl⟩
  · simp only [stageBalances, List.mem_append] at hb
    rcases hb with hb | hb
    · split at hb
      · rw [List.mem_singleton.1 hb]
        exact hp2wsh _
      · simp at hb
    · split at hb
      · rw [List.mem_singleton.1 hb]
        simp [toRemote, newP2wpkhFromPubkey]
      · simp at hb
  · exact hp2wsh _

/-- Our balance has its output. -/
theorem broadcasterIndex_lt {vout : Nat} (h : (p.assemble C).toBroadcasterIndex = some vout) :
    vout < (p.assemble C).tx.output.length := by
  have hlt := (List.findIdx?_eq_some_iff_getElem.1 h).1
  simpa [assemble, tx] using hlt

end CommitmentTxParams

end Commitment
