import Keraunos.Shachain.Proof.Sound

/-!
# Secrets of one seed

A peer that generates its secrets from a seed is never refused: the secret of `m` derives the first
index of every lower bucket, because these indices lie in the block of `m` (`Holds.accepts`).
-/

namespace Shachain

open SecretStore

variable {H : Bytes32 → Bytes32} {st : SecretStore} {m : Nat} {seed : Bytes32}

/-- The first index of a lower bucket above `m` lies in the block of `m`: the multiple of `m`'s
bucket plus one of the lower bucket is the first. -/
theorem isFirst_in_block {t j : Nat} (hm : m < 2 ^ 48) (ht : t < bucket m)
    (hj : IsFirst (m + 1) t j) : j < m + 2 ^ bucket m := by
  have hpow : 2 ^ (t + 1) ≤ 2 ^ bucket m := Nat.pow_le_pow_right (by decide) ht
  have hblock := bucket_block_lt hm
  have hpos := Nat.two_pow_pos t
  rw [Nat.pow_succ] at hpow
  have hlt : m + 2 ^ t < 2 ^ 48 := by omega
  obtain ⟨c, hc⟩ : 2 ^ (t + 1) ∣ m := (Nat.pow_dvd_pow 2 ht).trans (bucket_dvd hm)
  have hbucket : bucket (m + 2 ^ t) = t := by
    refine Nat.le_antisymm (Nat.le_of_not_lt fun hgt => ?_) (le_bucket hlt ?_ ⟨2 * c + 1, ?_⟩)
    · -- a higher bucket would make `2 ^ t` a multiple of `2 ^ (t + 1)`
      have hdvd : 2 ^ (t + 1) ∣ m + 2 ^ t := (Nat.pow_dvd_pow 2 hgt).trans (bucket_dvd hlt)
      have hself : 2 ^ (t + 1) ∣ 2 ^ t := (Nat.dvd_add_right ⟨c, hc⟩).1 hdvd
      have hle := Nat.le_of_dvd hpos hself
      rw [Nat.pow_succ] at hle
      omega
    · have := bucket_lt hm
      omega
    · rw [hc, Nat.pow_succ, Nat.mul_add, Nat.mul_one, Nat.mul_assoc]
  have hle := hj.least (m + 2 ^ t) (by omega) hlt hbucket
  omega

/-- The next secret of the seed is accepted. -/
theorem Holds.accepts (h : Holds H st (m + 1) (generateFromSeed H seed)) (hm : m < 2 ^ 48) :
    ∃ st', st.insert H m (generateFromSeed H seed m) = .ok st' := by
  have hcheck : st.consistent H (bucket m) (generateFromSeed H seed m) = true := by
    refine List.all_eq_true.2 fun t ht => ?_
    cases hs : st.slot t with
    | none => rfl
    | some e =>
      obtain ⟨j, s⟩ := e
      obtain ⟨hj, hsec⟩ := (h.slot_iff t _).1 hs
      have hge := hj.ge
      have hin := isFirst_in_block hm (List.mem_range.1 ht) hj
      have hderive : deriveSecret H (generateFromSeed H seed m) (bucket m) j = s := by
        have := bucket_lt hm
        rw [show s = generateFromSeed H seed j from hsec]
        exact (deriveSecret_block H (by omega) (bucket_dvd hm) (by simp only at hge; omega) hin).symm
      exact decide_eq_true hderive
  refine ⟨⟨st.known.set (bucket m) (some (m, generateFromSeed H seed m)) (bucket_lt hm)⟩, ?_⟩
  unfold SecretStore.insert
  rw [if_pos hcheck, dif_pos (bucket_lt hm)]

/-- The secrets of the commitments `i`, ..., `i + n - 1`. -/
def secretsFromSeed (H : Bytes32 → Bytes32) (seed : Bytes32) (i n : Nat) : List Bytes32 :=
  (List.range' i n).map fun i => generateFromSeed H seed (maxIndex - i)

theorem insertFrom_seed {i n : Nat} (hn : i + n ≤ 2 ^ 48)
    (h : Holds H st (2 ^ 48 - i) (generateFromSeed H seed)) :
    ∃ st', insertFrom H st i (secretsFromSeed H seed i n) = .ok st' ∧
      Holds H st' (2 ^ 48 - (i + n)) (generateFromSeed H seed) := by
  induction n generalizing i st with
  | zero => exact ⟨st, rfl, h⟩
  | succ n ih =>
    have hidx : 2 ^ 48 - i = maxIndex - i + 1 := by
      show _ = 2 ^ 48 - 1 - i + 1
      omega
    have hlt : maxIndex - i < 2 ^ 48 := by
      show 2 ^ 48 - 1 - i < 2 ^ 48
      omega
    have h' : Holds H st (maxIndex - i + 1) (generateFromSeed H seed) := hidx ▸ h
    obtain ⟨st₁, hins⟩ := h'.accepts hlt
    have hnext : 2 ^ 48 - (i + 1) = maxIndex - i := by omega
    obtain ⟨st', hrest, hst'⟩ := ih (by omega) (hnext ▸ h'.insert hlt hins)
    refine ⟨st', ?_, ?_⟩
    · rw [secretsFromSeed, List.range'_succ, List.map_cons, insertFrom, hins]
      exact hrest
    · rw [Nat.add_right_comm, Nat.add_assoc] at hst'
      exact hst'

end Shachain
