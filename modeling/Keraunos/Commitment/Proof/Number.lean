import Keraunos.Commitment.Build

/-!
# The number of a commitment transaction

The obscured commitment number is split over the locktime and the sequence of the funding input.
It can be read back (`CommitmentTxParams.unobscure`), and two commitments of one channel with
different numbers have different serialisations (`number_eq_of_serializeLegacy_eq`).
-/

namespace Commitment

open Bitcoin Bytes

theorem leBytes_inj {w a b : Nat} (h : leBytes w a = leBytes w b) (ha : a < 256 ^ w)
    (hb : b < 256 ^ w) : a = b := by
  have := beBytes_inj (List.reverse_injective h)
  rwa [Nat.mod_eq_of_lt ha, Nat.mod_eq_of_lt hb] at this

theorem commitNumberObscureFactor_lt (C : Crypto) (a b : PublicKey) :
    commitNumberObscureFactor C a b < 2 ^ 48 := by
  have := beVal_lt ((C.sha256 (a.serialize ++ b.serialize)).toList.drop 26)
  simpa [commitNumberObscureFactor] using this

/-- A flag byte above a 24-bit value. -/
theorem or_flag {flag v : Nat} (hv : v < 2 ^ 24) :
    (flag <<< 24 ||| v) >>> 24 = flag ∧ (flag <<< 24 ||| v) &&& 0xffffff = v := by
  rw [← Nat.shiftLeft_add_eq_or_of_lt hv, Nat.shiftRight_eq_div_pow, Nat.shiftLeft_eq,
    show (0xffffff : Nat) = 2 ^ 24 - 1 from rfl, Nat.and_two_pow_sub_one_eq_mod]
  omega

namespace CommitmentTxParams

variable {C : Crypto} {p q : CommitmentTxParams}

theorem obscured_lt (hn : p.commitmentNumber < 2 ^ 48) (hf : p.obscureFactor < 2 ^ 48) :
    p.obscured < 2 ^ 48 :=
  Nat.xor_lt_two_pow hn hf

theorem lockTime_eq : (p.tx C).lockTime = 0x20 <<< 24 ||| p.obscured % 2 ^ 24 := by
  show 0x20000000 ||| (p.obscured &&& 0xffffff) = _
  rw [show (0xffffff : Nat) = 2 ^ 24 - 1 from rfl, Nat.and_two_pow_sub_one_eq_mod]
  rfl

/-- The sequence of the funding input. -/
def sequence (p : CommitmentTxParams) : Nat := 0x80 <<< 24 ||| p.obscured / 2 ^ 24 % 2 ^ 24

theorem input_eq : (p.tx C).input = [⟨p.fundingOutpoint, [], p.sequence, []⟩] := by
  show [TxIn.mk p.fundingOutpoint [] (0x80000000 ||| ((p.obscured >>> 24) &&& 0xffffff)) []] = _
  rw [show (0xffffff : Nat) = 2 ^ 24 - 1 from rfl, Nat.and_two_pow_sub_one_eq_mod,
    Nat.shiftRight_eq_div_pow]
  rfl

theorem mod_lt_24 (x : Nat) : x % 2 ^ 24 < 2 ^ 24 := Nat.mod_lt _ (by decide)

/-- The number, read back from locktime and sequence. -/
theorem unobscure (hn : p.commitmentNumber < 2 ^ 48) (hf : p.obscureFactor < 2 ^ 48) :
    (((p.sequence &&& 0xffffff) <<< 24) ||| ((p.tx C).lockTime &&& 0xffffff)) ^^^ p.obscureFactor =
      p.commitmentNumber := by
  rw [lockTime_eq, sequence, (or_flag (mod_lt_24 _)).2, (or_flag (mod_lt_24 _)).2,
    ← Nat.shiftLeft_add_eq_or_of_lt (mod_lt_24 _), Nat.shiftLeft_eq]
  have hlt := obscured_lt hn hf
  rw [show p.obscured / 2 ^ 24 % 2 ^ 24 * 2 ^ 24 + p.obscured % 2 ^ 24 = p.obscured by omega]
  rw [obscured, Nat.xor_assoc, Nat.xor_self, Nat.xor_zero]

/-- The serialisation, with the sequence after 42 bytes and the locktime at the end. -/
theorem serializeLegacy_eq (p : CommitmentTxParams) (C : Crypto) :
    ∃ head outs, head.length = 42 ∧
      (p.tx C).serializeLegacy =
        head ++ (leBytes 4 p.sequence ++ (outs ++ leBytes 4 (p.tx C).lockTime)) := by
  refine ⟨leBytes 4 2 ++ compactSize 1 ++ p.fundingOutpoint.write ++ sizedBytes [],
    compactSize (p.tx C).output.length ++ (p.tx C).output.flatMap TxOut.write, ?_, ?_⟩
  · simp [compactSize, sizedBytes, OutPoint.write]
  · rw [Transaction.serializeLegacy, Transaction.writeInputsOutputs, input_eq]
    show leBytes 4 2 ++ _ ++ _ = _
    simp [List.append_assoc]

theorem sequence_lt (p : CommitmentTxParams) : p.sequence < 256 ^ 4 := by
  rw [sequence, ← Nat.shiftLeft_add_eq_or_of_lt (mod_lt_24 _), Nat.shiftLeft_eq]
  have := mod_lt_24 (p.obscured / 2 ^ 24)
  omega

theorem lockTime_lt : (p.tx C).lockTime < 256 ^ 4 := by
  rw [lockTime_eq, ← Nat.shiftLeft_add_eq_or_of_lt (mod_lt_24 _), Nat.shiftLeft_eq]
  have := mod_lt_24 p.obscured
  omega

/-- Commitments of one channel with the same serialisation have the same number: the sequence and
the locktime sit at fixed places from the two ends. -/
theorem number_eq_of_serializeLegacy_eq (hp : p.commitmentNumber < 2 ^ 48)
    (hq : q.commitmentNumber < 2 ^ 48) (hf : p.obscureFactor < 2 ^ 48)
    (hfq : q.obscureFactor = p.obscureFactor)
    (h : (p.tx C).serializeLegacy = (q.tx C).serializeLegacy) :
    p.commitmentNumber = q.commitmentNumber := by
  obtain ⟨hd, outs, hlen, hs⟩ := serializeLegacy_eq p C
  obtain ⟨hd', outs', hlen', hs'⟩ := serializeLegacy_eq q C
  rw [hs, hs'] at h
  obtain ⟨hseq, hrest⟩ := List.append_inj (List.append_inj h (hlen.trans hlen'.symm)).2 (by simp)
  have hseq := leBytes_inj hseq p.sequence_lt q.sequence_lt
  have hlock := leBytes_inj (List.append_inj' hrest (by simp)).2 lockTime_lt lockTime_lt
  rw [← unobscure (C := C) hp hf, ← unobscure (C := C) hq (hfq ▸ hf), hseq, hlock, hfq]

end CommitmentTxParams

end Commitment
