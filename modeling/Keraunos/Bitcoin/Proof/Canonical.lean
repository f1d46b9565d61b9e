import Keraunos.Bitcoin.Proof.Codec

/-!
# What the transaction parser accepts

Counts and lengths are minimal and nothing is skipped, so everything that `read` accepts is the legacy
form of a transaction with inputs and without witnesses, or the segwit form of some transaction
(`read_forms`). `serialize` writes the segwit form only when there is a witness. The parser does not
ask for one: the segwit form of a transaction without witnesses (`Superfluous`) is accepted, and it is
not what `serialize` writes.
-/

namespace Bitcoin

open Bytes Parse

/-! ## Primitives -/

theorem accepts_uintLe (w : Nat) : Accepts (Reader.uintLe w) (leBytes w) (· < 256 ^ w) := by
  intro s v s' h
  obtain ⟨b, rfl, rfl, hlen⟩ := (Accepts.take DecodeError.unexpectedEnd w).of_last h
  obtain rfl := hlen
  rw [show b.length = b.reverse.length from List.length_reverse.symm]
  refine ⟨?_, beVal_lt _⟩
  rw [leBytes, beBytes_beVal, List.reverse_reverse]
  rfl

theorem accepts_u8 : Accepts Reader.u8 (leBytes 1) (· < 256) := by
  intro s v s' h
  obtain ⟨b, rfl, rfl, hlen⟩ := (Accepts.take DecodeError.unexpectedEnd 1).of_last h
  have hv : beVal b < 256 ^ b.length := beVal_lt b
  have hb : beBytes b.length (beVal b) = b := beBytes_beVal b
  rw [hlen] at hv hb
  refine ⟨?_, hv⟩
  rw [leBytes, hb, List.length_eq_one_iff.1 hlen |>.choose_spec]
  rfl

theorem accepts_array (n : Nat) : Accepts (Reader.array n) Vector.toList fun _ => True := by
  intro s v s' h
  simp only [Reader.array, StateT.run] at h
  split at h
  · cases h
  · cases h
    refine ⟨?_, trivial⟩
    simp

theorem accepts_compactSize : Accepts Reader.compactSize compactSize (· < 2 ^ 64) := by
  intro s v s' h
  obtain ⟨first, s₁, rfl, hfirst, h₁⟩ := accepts_u8.of_bind h
  split at h₁
  · next hsmall =>
    cases h₁
    exact ⟨by rw [compactSize, if_pos hsmall], by omega⟩
  split at h₁
  · next htag =>
    obtain ⟨w, s₂, rfl, hw, h₂⟩ := (accepts_uintLe 2).of_bind h₁
    split at h₂
    · cases h₂
    · next hmin =>
      cases h₂
      rw [compactSize, if_neg (by omega), if_pos (by omega), htag]
      exact ⟨rfl, by omega⟩
  split at h₁
  · next htag =>
    obtain ⟨w, s₂, rfl, hw, h₂⟩ := (accepts_uintLe 4).of_bind h₁
    split at h₂
    · cases h₂
    · next hmin =>
      cases h₂
      rw [compactSize, if_neg (by omega), if_neg (by omega), if_pos (by omega), htag]
      exact ⟨rfl, by omega⟩
  · next hsmall h16 h32 =>
    obtain ⟨w, s₂, rfl, hw, h₂⟩ := (accepts_uintLe 8).of_bind h₁
    split at h₂
    · cases h₂
    · next hmin =>
      cases h₂
      have htag : first = 0xff := by omega
      rw [compactSize, if_neg (by omega), if_neg (by omega), if_neg (by omega), htag]
      exact ⟨rfl, by omega⟩

theorem accepts_sizedBytes (cap : Nat) :
    Accepts (Reader.sizedBytes cap) sizedBytes (·.length ≤ cap) := by
  intro s b s' h
  obtain ⟨len, s₁, rfl, -, h₁⟩ := accepts_compactSize.of_bind h
  split at h₁
  · cases h₁
  · next hcap =>
    obtain ⟨rfl, rfl⟩ := Accepts.take DecodeError.unexpectedEnd len s₁ b s' h₁
    rw [sizedBytes, List.append_assoc]
    exact ⟨rfl, Nat.not_lt.1 hcap⟩

/-! ## Inputs and outputs -/

theorem OutPoint.accepts_read : Accepts OutPoint.read OutPoint.write (·.vout < 2 ^ 32) := by
  intro s o s' h
  obtain ⟨txid, s₁, rfl, -, h₁⟩ := (accepts_array 32).of_bind h
  obtain ⟨vout, rfl, rfl, hvout⟩ := (accepts_uintLe 4).of_last h₁
  rw [OutPoint.write, List.append_assoc]
  exact ⟨rfl, hvout⟩

theorem TxOut.accepts_read : Accepts TxOut.read TxOut.write TxOut.Parseable := by
  intro s o s' h
  obtain ⟨value, s₁, rfl, hvalue, h₁⟩ := (accepts_uintLe 8).of_bind h
  obtain ⟨script, rfl, rfl, hscript⟩ := (accepts_sizedBytes 10000).of_last h₁
  rw [TxOut.write, List.append_assoc]
  exact ⟨rfl, hvalue, hscript⟩

theorem TxIn.accepts_read :
    Accepts TxIn.read TxIn.write fun i => i.Parseable ∧ i.witness = [] := by
  intro s i s' h
  obtain ⟨o, s₁, rfl, ho, h₁⟩ := OutPoint.accepts_read.of_bind h
  obtain ⟨script, s₂, rfl, hscript, h₂⟩ := (accepts_sizedBytes 10000).of_bind h₁
  obtain ⟨sequence, rfl, rfl, hsequence⟩ := (accepts_uintLe 4).of_last h₂
  rw [TxIn.write, List.append_assoc, List.append_assoc]
  exact ⟨rfl, ⟨ho, hscript, hsequence, Nat.zero_le _⟩, rfl⟩

/-- The witness of an input is read, and nothing else of it changes. -/
theorem TxIn.accepts_readWitness {i : TxIn} (hi : i.Parseable) (hempty : i.witness = []) :
    Accepts i.readWitness Transaction.writeWitness fun i' => i'.stripped = i ∧ i'.Parseable ∧
      ∀ w ∈ i'.witness, w.length ≤ 4000000 := by
  intro s i' s' h
  obtain ⟨items, s₁, rfl, -, h₁⟩ := accepts_compactSize.of_bind h
  split at h₁
  · cases h₁
  · next hitems =>
    obtain ⟨witness, rfl, rfl, rfl, hwitness⟩ :=
      ((accepts_sizedBytes 4000000).times items).of_last h₁
    rw [Transaction.writeWitness, List.append_assoc]
    refine ⟨rfl, ?_, ⟨hi.vout, hi.script, hi.sequence, Nat.not_lt.1 hitems⟩, hwitness⟩
    rw [TxIn.stripped, ← hempty]

theorem TxIn.accepts_readWitnesses {is : List TxIn} (h : ∀ i ∈ is, i.Parseable ∧ i.witness = []) :
    Accepts (TxIn.readWitnesses is) (fun is' => is'.flatMap Transaction.writeWitness) fun is' =>
      is'.map TxIn.stripped = is ∧ ∀ i ∈ is', i.Parseable ∧ ∀ w ∈ i.witness, w.length ≤ 4000000 := by
  induction is with
  | nil =>
    intro s is' s' hr
    cases hr
    exact ⟨rfl, rfl, fun i hi => nomatch hi⟩
  | cons i is ih =>
    intro s is' s' hr
    obtain ⟨⟨hi, hempty⟩, his⟩ := List.forall_mem_cons.1 h
    obtain ⟨i', s₁, rfl, ⟨hstripped, hi'⟩, h₁⟩ := (TxIn.accepts_readWitness hi hempty).of_bind hr
    obtain ⟨is'', rfl, rfl, hmap, hall⟩ := (ih his).of_last h₁
    refine ⟨?_, ?_, List.forall_mem_cons.2 ⟨hi', hall⟩⟩
    · show _ = (i' :: is'').flatMap _ ++ s'
      rw [List.flatMap_cons, List.append_assoc]
    · rw [List.map_cons, hstripped, hmap]

theorem TxIn.accepts_readWitnessesIf (segwit : Bool) {is : List TxIn}
    (h : ∀ i ∈ is, i.Parseable ∧ i.witness = []) :
    Accepts (TxIn.readWitnessesIf segwit is)
      (fun is' => if segwit then is'.flatMap Transaction.writeWitness else []) fun is' =>
        is'.map TxIn.stripped = is ∧ (segwit = false → ∀ i ∈ is', i.witness = []) ∧
        ∀ i ∈ is', i.Parseable ∧ ∀ w ∈ i.witness, w.length ≤ 4000000 := by
  intro s is' s' hr
  cases segwit with
  | false =>
    cases hr
    refine ⟨rfl, ?_, fun _ i hi => (h i hi).2, fun i hi => ⟨(h i hi).1, ?_⟩⟩
    · apply (List.map_congr_left fun i hi => ?_).trans (List.map_id is)
      rw [TxIn.stripped, ← (h i hi).2, id]
    · intro w hw
      rw [(h i hi).2] at hw
      exact absurd hw List.not_mem_nil
  | true =>
    obtain ⟨hs, hmap, hall⟩ := TxIn.accepts_readWitnesses h s is' s' hr
    exact ⟨hs, hmap, fun h => (by cases h), hall⟩

namespace Transaction

/-! ## The two forms -/

/-- Within the limits of the parser. -/
structure Received (tx : Transaction) : Prop where
  version : tx.version < 2 ^ 32
  lockTime : tx.lockTime < 2 ^ 32
  input : ∀ i ∈ tx.input, i.Parseable
  output : ∀ o ∈ tx.output, o.Parseable
  bounded : tx.Bounded

/-- The segwit form, with a witness or without. -/
def segwitForm (tx : Transaction) : List UInt8 :=
  leBytes 4 tx.version ++ [0x00, 0x01] ++ tx.writeInputsOutputs ++
    tx.input.flatMap writeWitness ++ leBytes 4 tx.lockTime

/-- The segwit form of a transaction that has no witness. -/
def Superfluous (b : List UInt8) : Prop :=
  ∃ tx : Transaction, tx.Received ∧ ¬ tx.hasWitness ∧ b = tx.segwitForm

variable {tx : Transaction}

/-- What follows the count of inputs. -/
def bodyForm (segwit : Bool) (tx : Transaction) : List UInt8 :=
  tx.input.flatMap TxIn.write ++ (compactSize tx.output.length ++ (tx.output.flatMap TxOut.write ++
    ((if segwit then tx.input.flatMap writeWitness else []) ++ leBytes 4 tx.lockTime)))

theorem flatMap_write_stripped (is : List TxIn) :
    (is.map TxIn.stripped).flatMap TxIn.write = is.flatMap TxIn.write := by
  rw [List.flatMap_map]
  rfl

theorem accepts_readBody {version : Nat} (hversion : version < 2 ^ 32) (segwit : Bool) (n : Nat) :
    Accepts (readBody version segwit n) (bodyForm segwit) fun tx => tx.Received ∧
      tx.version = version ∧ tx.input.length = n ∧ (segwit = false → ¬ tx.hasWitness) := by
  intro s tx s' h
  unfold readBody at h
  split at h
  · cases h
  next hin =>
  obtain ⟨is, s₁, rfl, ⟨hlen, his⟩, h₁⟩ := (TxIn.accepts_read.times n).of_bind h
  obtain ⟨m, s₂, rfl, -, h₂⟩ := accepts_compactSize.of_bind h₁
  split at h₂
  · cases h₂
  next hout =>
  obtain ⟨os, s₃, rfl, ⟨rfl, hos⟩, h₃⟩ := (TxOut.accepts_read.times m).of_bind h₂
  obtain ⟨is', s₄, rfl, ⟨rfl, hnone, his'⟩, h₄⟩ :=
    (TxIn.accepts_readWitnessesIf segwit his).of_bind h₃
  obtain ⟨lockTime, rfl, rfl, hlock⟩ := (accepts_uintLe 4).of_last h₄
  rw [List.length_map] at hlen
  refine ⟨?_, ⟨hversion, hlock, fun i hi => (his' i hi).1, hos,
    ⟨hlen ▸ Nat.not_lt.1 hin, Nat.not_lt.1 hout, fun i hi => (his' i hi).2⟩⟩, rfl, hlen, ?_⟩
  · simp only [bodyForm, flatMap_write_stripped, List.append_assoc]
  · intro hlegacy
    simpa [hasWitness] using hnone hlegacy

/-- What is accepted is in one of the two forms. -/
theorem read_forms {s s' : List UInt8} (h : read.run s = .ok (tx, s')) : tx.Received ∧
    (s = tx.serializeLegacy ++ s' ∧ ¬ tx.hasWitness ∨ s = tx.segwitForm ++ s') := by
  obtain ⟨version, s₁, rfl, hversion, h₁⟩ := (accepts_uintLe 4).of_bind h
  obtain ⟨count, s₂, hcount, h₂⟩ := of_run_bind h₁
  obtain ⟨rfl, hreceived, rfl, hlen, hnone⟩ :=
    accepts_readBody hversion count.1 count.2 s₂ tx s' h₂
  refine ⟨hreceived, ?_⟩
  obtain ⟨n, s₃, rfl, -, h₃⟩ := accepts_compactSize.of_bind hcount
  split at h₃
  · next hzero =>
    obtain ⟨flag, s₄, rfl, -, h₄⟩ := accepts_u8.of_bind h₃
    split at h₄
    · cases h₄
    next hflag =>
    obtain ⟨n', rfl, rfl, -⟩ := accepts_compactSize.of_last h₄
    right
    rw [segwitForm, writeInputsOutputs_eq, hzero, not_not.1 hflag, hlen]
    simp only [bodyForm, if_true, List.append_assoc]
    rfl
  · cases h₃
    left
    refine ⟨?_, hnone rfl⟩
    rw [serializeLegacy, writeInputsOutputs_eq, hlen]
    simp only [bodyForm, Bool.false_eq_true, if_false, List.nil_append, List.append_assoc]

theorem deserialize_eq_ok {b : List UInt8} : deserialize b = .ok tx ↔ read.run b = .ok (tx, []) := by
  unfold deserialize
  cases read.run b with
  | error e => exact ⟨nofun, nofun⟩
  | ok r =>
    obtain ⟨tx', rest⟩ := r
    change (if rest.isEmpty then _ else _) = _ ↔ _
    constructor
    · intro h
      split at h
      · next hempty =>
        cases h
        rw [List.isEmpty_iff.1 hempty]
      · cases h
    · intro h
      cases h
      rfl

/-- The segwit form is read back, also where `serialize` does not write it. -/
theorem deserialize_segwitForm (h : tx.Received) : deserialize tx.segwitForm = .ok tx := by
  have hin := h.bounded.inputs
  have hr := (reads_uintLe (w := 4) h.version).bind (f := fun version => do
      let count ← readInputCount
      readBody version count.1 count.2)
    ((reads_inputCount_segwit (by omega)).bind
      (reads_body h.input h.output h.lockTime h.bounded true
        (TxIn.reads_witnesses h.input h.bounded.item)))
  rw [deserialize_eq_ok, segwitForm, writeInputsOutputs_eq]
  simpa only [read, ReadsAll, List.append_assoc] using hr.all

/-- The marker, the flag and the counts of the witnesses make the segwit form longer. -/
theorem segwitForm_ne_serializeLegacy (tx : Transaction) : tx.segwitForm ≠ tx.serializeLegacy := by
  intro heq
  have hlen := congrArg List.length heq
  simp only [segwitForm, serializeLegacy, List.length_append, List.length_cons, List.length_nil] at hlen
  omega

/-- An accepted string is superfluous if it is the segwit form of what was read, without a witness. -/
theorem superfluous_iff {b : List UInt8} (h : deserialize b = .ok tx) :
    Superfluous b ↔ ¬ tx.hasWitness ∧ b = tx.segwitForm := by
  constructor
  · rintro ⟨tx', hreceived, hnone, rfl⟩
    obtain rfl := Except.ok.inj (h.symm.trans (deserialize_segwitForm hreceived))
    exact ⟨hnone, rfl⟩
  · rintro ⟨hnone, rfl⟩
    exact ⟨tx, (read_forms (deserialize_eq_ok.1 h)).1, hnone, rfl⟩

/-- `serialize` gives the received string back unless that was superfluous. -/
theorem serialize_eq_iff {b : List UInt8} (h : deserialize b = .ok tx) :
    tx.serialize = b ↔ ¬ Superfluous b := by
  rw [superfluous_iff h]
  obtain ⟨-, hforms⟩ := read_forms (deserialize_eq_ok.1 h)
  rw [List.append_nil, List.append_nil] at hforms
  rcases hforms with ⟨rfl, hnone⟩ | rfl
  · rw [serialize, if_neg hnone]
    exact iff_of_true rfl fun hsuper => segwitForm_ne_serializeLegacy tx hsuper.2.symm
  · unfold serialize
    split
    · next hsome => exact iff_of_true rfl fun hsuper => hsuper.1 hsome
    · next hnone =>
      exact iff_of_false (segwitForm_ne_serializeLegacy tx).symm (not_not.2 ⟨hnone, rfl⟩)

/-- Two strings of one transaction are equal if both or none of them are superfluous. -/
theorem eq_iff_superfluous_iff {b b' : List UInt8} (h : deserialize b = .ok tx)
    (h' : deserialize b' = .ok tx) : b = b' ↔ (Superfluous b ↔ Superfluous b') := by
  constructor
  · rintro rfl
    exact Iff.rfl
  · intro hiff
    by_cases hsuper : Superfluous b
    · rw [((superfluous_iff h).1 hsuper).2, ((superfluous_iff h').1 (hiff.1 hsuper)).2]
    · rw [← (serialize_eq_iff h).2 hsuper, ← (serialize_eq_iff h').2 (mt hiff.2 hsuper)]

/-- Reading is the inverse of writing, and the hash is that of the received bytes, exactly for the
strings that are not superfluous. -/
theorem canonical_iff {b : List UInt8} (h : deserialize b = .ok tx) :
    ((tx.serialize = b ∧ ∀ C : Crypto, tx.wtxid C = C.sha256d b) ↔ ¬ Superfluous b) ∧
    ∀ b', deserialize b' = .ok tx → (b = b' ↔ (Superfluous b ↔ Superfluous b')) := by
  refine ⟨?_, fun b' h' => eq_iff_superfluous_iff h h'⟩
  rw [← serialize_eq_iff h]
  constructor
  · exact And.left
  · intro heq
    exact ⟨heq, fun C => by rw [wtxid, heq]⟩

/-- An input that spends nothing real, and no output. -/
def bare (witness : List (List UInt8)) : Transaction where
  version := 2
  lockTime := 0
  input := [⟨⟨Vector.replicate 32 0, 0⟩, [], 0xffffffff, witness⟩]
  output := []

theorem canonical_iff_bare : ¬ Superfluous (bare []).serialize :=
  have h : deserialize (bare []).serialize = .ok (bare []) := by decide +kernel
  (canonical_iff h).1.1 ⟨rfl, fun _ => rfl⟩

/-- The segwit form of a transaction without a witness is accepted, serialises to another string,
which is accepted as the same transaction, and is hashed as that other string. -/
theorem superfluous_bare :
    deserialize (bare []).segwitForm = .ok (bare []) ∧ (bare []).serialize ≠ (bare []).segwitForm ∧
    deserialize (bare []).serialize = .ok (bare []) ∧
    (bare []).wtxid Crypto.transparent ≠ Crypto.transparent.sha256d (bare []).segwitForm := by
  decide +kernel

/-! ## Round trips -/

/-- All witnesses removed. -/
def withoutWitnesses (tx : Transaction) : Transaction := { tx with input := tx.input.map TxIn.stripped }

theorem withoutWitnesses_not_hasWitness (tx : Transaction) : ¬ tx.withoutWitnesses.hasWitness := by
  simp [hasWitness, withoutWitnesses, TxIn.stripped]

/-- The legacy form does not mention the witnesses. -/
theorem serializeLegacy_withoutWitnesses (tx : Transaction) :
    tx.withoutWitnesses.serializeLegacy = tx.serializeLegacy := by
  rw [serializeLegacy, serializeLegacy, writeInputsOutputs_eq, writeInputsOutputs_eq]
  simp only [withoutWitnesses, List.length_map, flatMap_write_stripped]

theorem serialize_withoutWitnesses (tx : Transaction) :
    tx.withoutWitnesses.serialize = tx.serializeLegacy := by
  rw [serialize, if_neg (withoutWitnesses_not_hasWitness tx), serializeLegacy_withoutWitnesses]

theorem Parseable.withoutWitnesses (h : tx.Parseable) : tx.withoutWitnesses.Parseable := by
  refine ⟨h.version, h.lockTime, fun hnil => h.nonempty (List.map_eq_nil_iff.1 hnil), ?_, h.output⟩
  intro i hi
  obtain ⟨j, hj, rfl⟩ := List.mem_map.1 hi
  have hin := h.input j hj
  exact ⟨hin.vout, hin.script, hin.sequence, Nat.zero_le _⟩

theorem Bounded.withoutWitnesses (h : tx.Bounded) : tx.withoutWitnesses.Bounded := by
  refine ⟨?_, h.outputs, ?_⟩
  · exact (List.length_map _).trans_le h.inputs
  · intro i hi w hw
    obtain ⟨j, -, rfl⟩ := List.mem_map.1 hi
    exact absurd hw List.not_mem_nil

theorem deserialize_of_bounded (h : tx.Parseable) (hb : tx.Bounded) :
    deserialize tx.serialize = .ok tx := deserialize_eq_ok.2 (reads_serialize h hb).all

/-- Both forms are read back: the full one as the transaction, the legacy one as the transaction
without its witnesses, under the same id. -/
theorem deserialize_both_forms (C : Crypto) (h : tx.Parseable) (hb : tx.Bounded) :
    deserialize tx.serialize = .ok tx ∧
    deserialize tx.serializeLegacy = .ok tx.withoutWitnesses ∧
    tx.withoutWitnesses.txid C = tx.txid C := by
  refine ⟨deserialize_of_bounded h hb, ?_, ?_⟩
  · rw [← serialize_withoutWitnesses]
    exact deserialize_of_bounded h.withoutWitnesses hb.withoutWitnesses
  · rw [txid, txid, serializeLegacy_withoutWitnesses]

theorem deserialize_both_forms_bare :
    deserialize (bare [[1, 2], []]).serialize = .ok (bare [[1, 2], []]) ∧
    deserialize (bare [[1, 2], []]).serializeLegacy = .ok (bare [[1, 2], []]).withoutWitnesses ∧
    (bare [[1, 2], []]).withoutWitnesses.txid Crypto.transparent =
      (bare [[1, 2], []]).txid Crypto.transparent := by
  refine deserialize_both_forms Crypto.transparent ⟨by decide, by decide, by decide, ?_, ?_⟩
    ⟨by decide, by decide, ?_⟩
  · intro i hi
    obtain rfl := List.mem_singleton.1 hi
    exact ⟨by decide, by decide, by decide, by decide⟩
  · exact fun o ho => absurd ho List.not_mem_nil
  · intro i hi
    obtain rfl := List.mem_singleton.1 hi
    decide

end Transaction

end Bitcoin
