import Keraunos.Commitment.Proof.Number
import Keraunos.Commitment.Proof.Order
import Keraunos.Commitment.Proof.Outputs
import Mathlib.Algebra.BigOperators.Group.List.Basic
import Mathlib.Algebra.Order.BigOperators.Group.List
import Mathlib.Data.List.Nodup

/-!
# The construction of commitment transactions

`WellBuilt`: every output belongs to one balance or one HTLC, the index lists say to which, and the
outputs are sorted, above the dust limit and covered by the amounts. `commitment_well_built`: what
`build_commitment_tx` returns is so, and does not depend on the order of the HTLCs.
-/

namespace Commitment

open Bitcoin

/-- What an output belongs to. -/
inductive Owner where
  | broadcaster
  | countersignatory
  | htlc (index : Nat)
  deriving DecidableEq

def Staged.owner (s : Staged) : Owner :=
  match s.origin with
  | .broadcaster => .broadcaster
  | .countersignatory => .countersignatory
  | .htlc i _ => .htlc i

/-- The index lists give output `v` to `o`. -/
def BuiltCommitmentTx.Owns (b : BuiltCommitmentTx) (v : Nat) : Owner → Prop
  | .broadcaster => b.toBroadcasterIndex = some v
  | .countersignatory => b.toCountersignatoryIndex = some v
  | .htlc i => b.htlcOutputIndices[i]? = some (some v)

/-- The expiry that breaks ties. -/
def CommitmentTxParams.expiry (p : CommitmentTxParams) : Owner → Nat
  | .htlc i => (p.htlcs[i]?).elim 0 (·.cltvExpiry)
  | _ => 0

structure WellBuilt (C : Crypto) (p : CommitmentTxParams) (b : BuiltCommitmentTx) : Prop where
  sorted : ∀ (v w : Nat) o o' x y, v < w → b.Owns v o → b.Owns w o' → b.tx.output[v]? = some x →
    b.tx.output[w]? = some y → OutputLe x (p.expiry o) y (p.expiry o')
  dust : ∀ x ∈ b.tx.output, p.broadcasterDustLimitSat ≤ x.value
  owner : ∀ v < b.tx.output.length, ∃! o, b.Owns v o
  parallel : b.htlcOutputIndices.length = p.htlcs.length
  trimmed : ∀ (i : Nat) h, p.htlcs[i]? = some h →
    (b.htlcOutputIndices[i]? = some none ↔ p.trimmed h = true)
  index : ∀ (i : Nat) h (v : Nat), p.htlcs[i]? = some h → b.htlcOutputIndices[i]? = some (some v) →
    b.tx.output[v]? =
      some ⟨Msat.toSatFloor h.amountMsat, newP2wsh C (htlcWitnessScript C p.keys h)⟩
  injective : ∀ (i j v : Nat), b.htlcOutputIndices[i]? = some (some v) →
    b.htlcOutputIndices[j]? = some (some v) → i = j
  order : ∀ o, o ∈ b.htlcsInOutputOrder ↔ ∃ h, p.htlcs[o.1]? = some h ∧ p.trimmed h = false ∧
    o.2 = htlcWitnessScript C p.keys h
  increasing : b.htlcsInOutputOrder.Pairwise fun o o' => ∃ v w,
    b.htlcOutputIndices[o.1]? = some (some v) ∧ b.htlcOutputIndices[o'.1]? = some (some w) ∧ v < w
  total : (b.tx.output.map (·.value)).sum ≤ Msat.toSatFloor p.toBroadcasterMsat +
    Msat.toSatFloor p.toCountersignatoryMsat +
    (p.htlcs.map fun h => Msat.toSatFloor h.amountMsat).sum
  secondStage : ∀ h ∈ p.htlcs, p.trimmed h = false → ∀ txid vout keys delay,
    ∀ x ∈ (buildHtlcTx C txid vout h keys delay p.feerate).output,
      p.broadcasterDustLimitSat ≤ x.value
  /-- The number, read back with the 48 bits of the obscure factor. -/
  number : ∃ input, b.tx.input = [input] ∧
    (((input.sequence &&& 0xffffff) <<< 24) ||| (b.tx.lockTime &&& 0xffffff)) ^^^
      (p.obscureFactor % 2 ^ 48) = p.commitmentNumber

namespace CommitmentTxParams

variable {C : Crypto} {p : CommitmentTxParams}

/-! ## Owners -/

/-- The outputs have different owners. -/
theorem nodup_owner (C : Crypto) (p : CommitmentTxParams) :
    ((p.sortedStaged C).map Staged.owner).Nodup := by
  have hperm := (List.perm_insertionSort (fun a b => Staged.le a b) (p.staged C)).map Staged.owner
  refine hperm.nodup_iff.2 ?_
  have hhtlcs : (((p.htlcs.zipIdx.filter fun hi => !p.trimmed hi.1).map fun hi =>
      p.stageHtlc C hi.1 hi.2).map Staged.owner) =
      ((p.htlcs.zipIdx.filter fun hi => !p.trimmed hi.1).map Prod.snd).map Owner.htlc := by
    rw [List.map_map, List.map_map]
    rfl
  rw [staged, List.map_append, hhtlcs, List.nodup_append]
  refine ⟨?_, ?_, ?_⟩
  · have hsub : ((p.stageBalances C).map Staged.owner).Sublist
        ([.broadcaster] ++ [.countersignatory]) := by
      unfold stageBalances
      rw [List.map_append]
      refine List.Sublist.append ?_ ?_
      · split <;> simp [Staged.owner]
      · split <;> simp [Staged.owner]
    exact hsub.nodup (by decide)
  · have hidx : (p.htlcs.zipIdx.map Prod.snd).Nodup := by
      rw [List.zipIdx_map_snd]
      exact List.nodup_range'
    have hinj : Function.Injective Owner.htlc := fun _ _ h => Owner.htlc.inj h
    exact (hidx.sublist ((List.filter_sublist).map Prod.snd)).map hinj
  · intro o ho o' ho' heq
    obtain ⟨i, -, rfl⟩ := List.mem_map.1 ho'
    obtain ⟨s, hs, rfl⟩ := List.mem_map.1 ho
    have hnone := htlcEntry_stageBalances hs
    unfold Staged.owner at heq
    unfold Staged.htlcEntry at hnone
    split at heq
    · cases heq
    · cases heq
    · next h => simp [h] at hnone

/-- A search for the output of one owner finds it. -/
theorem findIdx?_owner {l : List Staged} (hn : (l.map Staged.owner).Nodup) {P : Staged → Bool}
    {o : Owner} (hP : ∀ s, P s = true ↔ s.owner = o) (v : Nat) :
    l.findIdx? P = some v ↔ ∃ s, l[v]? = some s ∧ s.owner = o := by
  rw [List.findIdx?_eq_some_iff_getElem]
  constructor
  · intro ⟨hv, hs, _⟩
    exact ⟨l[v], List.getElem?_eq_getElem hv, (hP _).1 hs⟩
  · intro ⟨s, hs, ho⟩
    obtain ⟨hv, rfl⟩ := List.getElem?_eq_some_iff.1 hs
    refine ⟨hv, (hP _).2 ho, fun j hj hPj => ?_⟩
    have hjmap : j < (l.map Staged.owner).length := by
      rw [List.length_map]
      exact hj.trans hv
    have hsame : (l.map Staged.owner)[j]? = (l.map Staged.owner)[v]? := by
      rw [List.getElem?_map, List.getElem?_map, List.getElem?_eq_getElem (hj.trans hv),
        List.getElem?_eq_getElem hv, Option.map_some, Option.map_some, (hP _).1 hPj, ho]
    exact absurd (List.getElem?_inj hjmap hn |>.1 hsame) hj.ne

theorem index_eq (C : Crypto) (p : CommitmentTxParams) (i : Nat) :
    (p.assemble C).htlcOutputIndices[i]? =
      if i < p.htlcs.length then some ((p.sortedStaged C).findIdx? (Staged.isHtlc i)) else none := by
  by_cases hi : i < p.htlcs.length
  · simp [assemble, hi]
  · simp [assemble, hi]

/-- The HTLC of an owner is one of the HTLCs. -/
theorem lt_of_owner {s : Staged} {i : Nat} (hs : s ∈ p.sortedStaged C) (ho : s.owner = .htlc i) :
    ∃ h, p.htlcs[i]? = some h ∧ p.trimmed h = false ∧ s = p.stageHtlc C h i := by
  rcases mem_staged.1 (mem_sortedStaged.1 hs) with hb | ⟨j, h, hj, ht, rfl⟩
  · have hnone := htlcEntry_stageBalances hb
    unfold Staged.owner at ho
    unfold Staged.htlcEntry at hnone
    split at ho
    · cases ho
    · cases ho
    · next heq => simp [heq] at hnone
  · obtain rfl : j = i := Owner.htlc.inj ho
    exact ⟨h, hj, ht, rfl⟩

theorem isHtlc_iff (i : Nat) (s : Staged) : s.isHtlc i = true ↔ s.owner = .htlc i := by
  obtain ⟨out, cltv, origin⟩ := s
  cases origin with
  | broadcaster => simp [Staged.isHtlc, Staged.owner]
  | countersignatory => simp [Staged.isHtlc, Staged.owner]
  | htlc j script =>
    simp only [Staged.isHtlc, Staged.owner, beq_iff_eq, Owner.htlc.injEq]
    exact eq_comm

/-- The index lists say whom an output was staged for. -/
theorem owns_iff {v : Nat} {o : Owner} :
    (p.assemble C).Owns v o ↔ ∃ s, (p.sortedStaged C)[v]? = some s ∧ s.owner = o := by
  have hn := p.nodup_owner C
  cases o with
  | broadcaster =>
    refine findIdx?_owner hn (fun s => ?_) v
    obtain ⟨out, cltv, origin⟩ := s
    cases origin <;> simp [Staged.owner]
  | countersignatory =>
    refine findIdx?_owner hn (fun s => ?_) v
    obtain ⟨out, cltv, origin⟩ := s
    cases origin <;> simp [Staged.owner]
  | htlc i =>
    have hfind := findIdx?_owner hn (isHtlc_iff i) v
    rw [BuiltCommitmentTx.Owns, index_eq, ← hfind]
    constructor
    · intro h
      split at h
      · exact Option.some.inj h
      · cases h
    · intro h
      obtain ⟨s, hs, ho⟩ := hfind.1 h
      obtain ⟨_, hi, -⟩ := lt_of_owner (List.mem_of_getElem? hs) ho
      rw [if_pos (List.getElem?_eq_some_iff.1 hi).1, h]

theorem output_getElem? (C : Crypto) (p : CommitmentTxParams) (v : Nat) :
    (p.assemble C).tx.output[v]? = ((p.sortedStaged C)[v]?).map (·.out) := by
  show ((p.sortedStaged C).map (·.out))[v]? = _
  rw [List.getElem?_map]

theorem expiry_owner {s : Staged} (hs : s ∈ p.sortedStaged C) : p.expiry s.owner = s.cltv := by
  rcases mem_staged.1 (mem_sortedStaged.1 hs) with hb | ⟨i, h, hi, -, rfl⟩
  · simp only [stageBalances, List.mem_append] at hb
    rcases hb with hb | hb
    · split at hb
      · rw [List.mem_singleton.1 hb]
        rfl
      · cases hb
    · split at hb
      · rw [List.mem_singleton.1 hb]
        rfl
      · cases hb
  · show (p.htlcs[i]?).elim 0 _ = _
    rw [hi]
    rfl

theorem not_trimmed_iff {h : HtlcOutputInCommitment} : p.trimmed h = false ↔
    p.broadcasterDustLimitSat + secondStageFee h p.feerate ≤ Msat.toSatFloor h.amountMsat := by
  rw [trimmed, htlcIsTrimmed, decide_eq_false_iff_not, Nat.not_lt]

theorem dust_le {s : Staged} (hs : s ∈ p.sortedStaged C) :
    p.broadcasterDustLimitSat ≤ s.out.value := by
  rcases mem_staged.1 (mem_sortedStaged.1 hs) with hb | ⟨i, h, hi, ht, rfl⟩
  · simp only [stageBalances, List.mem_append] at hb
    rcases hb with hb | hb
    · split at hb
      · next hle =>
        rw [List.mem_singleton.1 hb]
        exact hle
      · cases hb
    · split at hb
      · next hle =>
        rw [List.mem_singleton.1 hb]
        exact hle
      · cases hb
  · exact Nat.le_trans (Nat.le_add_right _ _) (not_trimmed_iff.1 ht)

/-! ## Values -/

theorem sum_stageBalances (C : Crypto) (p : CommitmentTxParams) :
    ((p.stageBalances C).map (·.out.value)).sum ≤
      Msat.toSatFloor p.toBroadcasterMsat + Msat.toSatFloor p.toCountersignatoryMsat := by
  have hb : p.toBroadcasterSat ≤ Msat.toSatFloor p.toBroadcasterMsat := Nat.sub_le _ _
  have hc : p.toCountersignatorySat ≤ Msat.toSatFloor p.toCountersignatoryMsat := Nat.sub_le _ _
  unfold stageBalances
  rw [List.map_append, List.sum_append]
  refine Nat.add_le_add ?_ ?_
  · split
    · simpa using hb
    · exact Nat.zero_le _
  · split
    · simpa using hc
    · exact Nat.zero_le _

/-- The staged HTLCs, without the index. -/
theorem map_stageHtlc {β : Type} (C : Crypto) (p : CommitmentTxParams) (f : Staged → β)
    (g : HtlcOutputInCommitment → β) (hfg : ∀ h i, f (p.stageHtlc C h i) = g h) :
    ((p.htlcs.zipIdx.filter fun hi => !p.trimmed hi.1).map fun hi =>
      p.stageHtlc C hi.1 hi.2).map f = (p.htlcs.filter fun h => !p.trimmed h).map g := by
  have hfst : (p.htlcs.zipIdx.filter fun hi => !p.trimmed hi.1).map Prod.fst =
      p.htlcs.filter fun h => !p.trimmed h := by
    have hmap := List.filter_map (f := Prod.fst) (p := fun h => !p.trimmed h) (l := p.htlcs.zipIdx)
    rw [List.zipIdx_map_fst] at hmap
    exact hmap.symm
  rw [← hfst, List.map_map, List.map_map]
  exact List.map_congr_left fun hi _ => hfg hi.1 hi.2

theorem sum_output (C : Crypto) (p : CommitmentTxParams) :
    ((p.tx C).output.map (·.value)).sum ≤ Msat.toSatFloor p.toBroadcasterMsat +
      Msat.toSatFloor p.toCountersignatoryMsat +
      (p.htlcs.map fun h => Msat.toSatFloor h.amountMsat).sum := by
  have hperm : ((p.tx C).output.map (·.value)).Perm ((p.staged C).map (·.out.value)) := by
    show (((p.sortedStaged C).map (·.out)).map (·.value)).Perm _
    rw [List.map_map]
    exact (List.perm_insertionSort _ _).map _
  rw [hperm.sum_eq, staged, List.map_append, List.sum_append,
    map_stageHtlc C p (·.out.value) (fun h => Msat.toSatFloor h.amountMsat) fun _ _ => rfl]
  have hsub : ((p.htlcs.filter fun h => !p.trimmed h).map fun h => Msat.toSatFloor h.amountMsat).Sublist
      (p.htlcs.map fun h => Msat.toSatFloor h.amountMsat) := (List.filter_sublist).map _
  exact Nat.add_le_add (p.sum_stageBalances C) (hsub.sum_le_sum fun _ _ => Nat.zero_le _)

/-! ## The number -/

/-- Only 48 bits of the obscure factor reach the transaction. -/
theorem unobscure_low (C : Crypto) (hn : p.commitmentNumber < 2 ^ 48) :
    (((p.sequence &&& 0xffffff) <<< 24) ||| ((p.tx C).lockTime &&& 0xffffff)) ^^^
      (p.obscureFactor % 2 ^ 48) = p.commitmentNumber := by
  let q : CommitmentTxParams := { p with obscureFactor := p.obscureFactor % 2 ^ 48 }
  have hlow : p.obscured % 2 ^ 48 = q.obscured := by
    show (p.commitmentNumber ^^^ p.obscureFactor) % 2 ^ 48 = p.commitmentNumber ^^^ _
    rw [Nat.xor_mod_two_pow, Nat.mod_eq_of_lt hn]
  have hlock : (p.tx C).lockTime = (q.tx C).lockTime := by
    rw [lockTime_eq, lockTime_eq, ← hlow]
    congr 1
    omega
  have hseq : p.sequence = q.sequence := by
    rw [sequence, sequence, ← hlow]
    congr 1
    omega
  rw [hlock, hseq]
  exact unobscure (p := q) hn (Nat.mod_lt _ (Nat.two_pow_pos 48))

/-! ## The order of the HTLCs -/

/-- The staged outputs with their expiries. -/
theorem map_key_staged (C : Crypto) (p : CommitmentTxParams) :
    (p.staged C).map (fun s => (s.out, s.cltv)) =
      (p.stageBalances C).map (fun s => (s.out, s.cltv)) ++
        (p.htlcs.filter fun h => !p.trimmed h).map fun h =>
          (⟨Msat.toSatFloor h.amountMsat, newP2wsh C (htlcWitnessScript C p.keys h)⟩, h.cltvExpiry) := by
  rw [staged, List.map_append]
  exact congrArg _ (map_stageHtlc C p _ _ fun _ _ => rfl)

/-- The order of the HTLCs does not change what is staged where. -/
theorem sortedStaged_perm {htlcs : List HtlcOutputInCommitment} (hp : htlcs.Perm p.htlcs) :
    (({ p with htlcs := htlcs } : CommitmentTxParams).sortedStaged C).map (fun s => (s.out, s.cltv)) =
      (p.sortedStaged C).map fun s => (s.out, s.cltv) := by
  set q : CommitmentTxParams := { p with htlcs := htlcs }
  have hfilter : (htlcs.filter fun h => !p.trimmed h).Perm (p.htlcs.filter fun h => !p.trimmed h) :=
    hp.filter _
  have huntrimmed : q.numUntrimmed = p.numUntrimmed := hfilter.length_eq
  have hfee : q.baseFee = p.baseFee := by
    rw [baseFee, baseFee, huntrimmed]
  have hbalances : q.stageBalances C = p.stageBalances C := by
    have hto : q.toBroadcasterSat = p.toBroadcasterSat := by
      rw [toBroadcasterSat, toBroadcasterSat, hfee]
    have hcounter : q.toCountersignatorySat = p.toCountersignatorySat := by
      rw [toCountersignatorySat, toCountersignatorySat, hfee]
    rw [stageBalances, stageBalances, hto, hcounter]
  refine staged_sortsBy.map_key_eq ?_
  rw [map_key_staged, map_key_staged, hbalances]
  exact (hfilter.map _).append_left _

theorem tx_perm (C : Crypto) {htlcs : List HtlcOutputInCommitment} (hp : htlcs.Perm p.htlcs) :
    ({ p with htlcs := htlcs } : CommitmentTxParams).tx C = p.tx C := by
  have hout : (({ p with htlcs := htlcs } : CommitmentTxParams).sortedStaged C).map (·.out) =
      (p.sortedStaged C).map (·.out) := by
    have hfst := congrArg (List.map Prod.fst) (sortedStaged_perm (C := C) hp)
    rw [List.map_map, List.map_map] at hfst
    exact hfst
  show Transaction.mk _ _ _ (({ p with htlcs := htlcs } : CommitmentTxParams).sortedStaged C |>.map (·.out)) = _
  rw [hout]
  rfl

/-! ## Main result -/

theorem assemble_wellBuilt (C : Crypto) (hn : p.commitmentNumber < 2 ^ 48) :
    WellBuilt C p (p.assemble C) where
  sorted v w o o' x y hvw ho ho' hx hy := by
    obtain ⟨s, hs, rfl⟩ := owns_iff.1 ho
    obtain ⟨t, ht, rfl⟩ := owns_iff.1 ho'
    rw [output_getElem?, hs] at hx
    rw [output_getElem?, ht] at hy
    obtain rfl := Option.some.inj hx
    obtain rfl := Option.some.inj hy
    rw [expiry_owner (List.mem_of_getElem? hs), expiry_owner (List.mem_of_getElem? ht), ← Staged.le_iff]
    obtain ⟨hv, rfl⟩ := List.getElem?_eq_some_iff.1 hs
    obtain ⟨hw, rfl⟩ := List.getElem?_eq_some_iff.1 ht
    exact List.pairwise_iff_getElem.1 (staged_sortsBy.pairwise (p.staged C)) v w hv hw hvw
  dust x hx := by
    obtain ⟨s, hs, rfl⟩ := List.mem_map.1 hx
    exact dust_le hs
  owner v hv := by
    have hlen : v < (p.sortedStaged C).length := by
      have hmap : (p.assemble C).tx.output.length = (p.sortedStaged C).length := List.length_map _
      omega
    refine ⟨((p.sortedStaged C)[v]).owner, owns_iff.2 ⟨_, List.getElem?_eq_getElem hlen, rfl⟩, ?_⟩
    intro o ho
    obtain ⟨s, hs, rfl⟩ := owns_iff.1 ho
    rw [List.getElem?_eq_getElem hlen] at hs
    rw [Option.some.inj hs]
  parallel := by simp [assemble]
  trimmed i h hi := by
    rw [index_eq, if_pos (List.getElem?_eq_some_iff.1 hi).1, Option.some.injEq,
      List.findIdx?_eq_none_iff]
    constructor
    · intro hnone
      by_contra ht
      have hmem : p.stageHtlc C h i ∈ p.sortedStaged C := mem_sortedStaged.2
        (mem_staged.2 (.inr ⟨i, h, hi, Bool.eq_false_iff.2 ht, rfl⟩))
      have hfalse := hnone _ hmem
      rw [(isHtlc_iff i _).2 rfl] at hfalse
      cases hfalse
    · intro ht s hs
      refine Bool.eq_false_iff.2 fun hself => ?_
      obtain ⟨h', hi', ht', -⟩ := lt_of_owner hs ((isHtlc_iff i s).1 hself)
      obtain rfl := Option.some.inj (hi.symm.trans hi')
      rw [ht] at ht'
      cases ht'
  index i h v hi hv := by
    have hown : (p.assemble C).Owns v (.htlc i) := hv
    obtain ⟨s, hs, ho⟩ := owns_iff.1 hown
    obtain ⟨h', hi', -, rfl⟩ := lt_of_owner (List.mem_of_getElem? hs) ho
    obtain rfl := Option.some.inj (hi.symm.trans hi')
    rw [output_getElem?, hs]
    rfl
  injective i j v hi hj := by
    have hown : (p.assemble C).Owns v (.htlc i) := hi
    have hown' : (p.assemble C).Owns v (.htlc j) := hj
    obtain ⟨s, hs, ho⟩ := owns_iff.1 hown
    obtain ⟨s', hs', ho'⟩ := owns_iff.1 hown'
    obtain rfl := Option.some.inj (hs.symm.trans hs')
    exact Owner.htlc.inj (ho.symm.trans ho')
  order _ := mem_order
  increasing := by
    show ((p.sortedStaged C).filterMap Staged.htlcEntry).Pairwise _
    rw [List.pairwise_filterMap, List.pairwise_iff_getElem]
    intro v w hv hw hvw o ho o' ho'
    have howns (v : Nat) (hv : v < (p.sortedStaged C).length) (o : Nat × Script)
        (ho : ((p.sortedStaged C)[v]).htlcEntry = some o) : (p.assemble C).Owns v (.htlc o.1) := by
      refine owns_iff.2 ⟨_, List.getElem?_eq_getElem hv, ?_⟩
      unfold Staged.htlcEntry at ho
      unfold Staged.owner
      split at ho
      · next i script heq =>
        obtain rfl := Option.some.inj ho
        rw [heq]
      · cases ho
    exact ⟨v, w, howns v hv o ho, howns w hw o' ho', hvw⟩
  total := p.sum_output C
  secondStage h hh ht txid vout keys delay x hx := by
    obtain rfl := List.mem_singleton.1 hx
    have hle := not_trimmed_iff.1 ht
    show _ ≤ Msat.toSatFloor h.amountMsat - secondStageFee h p.feerate
    omega
  number := ⟨_, input_eq, unobscure_low C hn⟩

end CommitmentTxParams

namespace Demo

def key (n : Nat) : PublicKey := ⟨Crypto.Transparent.ofNat 33 n⟩

def htlc (offered : Bool) (amountMsat cltvExpiry hash : Nat) : HtlcOutputInCommitment :=
  ⟨offered, amountMsat, cltvExpiry, Crypto.Transparent.ofNat 32 hash⟩

/-- Two equal HTLCs, one that differs from them in its expiry only, and a trimmed one. -/
def params : CommitmentTxParams where
  fundingOutpoint := ⟨Crypto.Transparent.ofNat 32 9, 0⟩
  commitmentNumber := 42
  obscureFactor := 0x123456789abc
  broadcasterPaysFee := true
  feerate := 1000
  broadcasterDustLimitSat := 546
  toSelfDelay := 144
  keys := ⟨key 1, key 2, key 3, key 4, key 5⟩
  countersignatoryPaymentBasepoint := key 6
  toBroadcasterMsat := 500000000
  toCountersignatoryMsat := 400000000
  htlcs := [htlc true 5000000 100 7, htlc false 1000 100 8, htlc true 5000000 101 7,
    htlc true 5000000 100 7]

end Demo

end Commitment
