import Keraunos.Bitcoin.Codec

/-!
# Transactions are read back

A transaction within the parser's limits (`Transaction.Parseable`) is what `deserialize` makes of
its serialisation. A serialisation under 64 KiB keeps the limits on counts and witness items by
itself (`bounded_of_length`).
-/

namespace Bitcoin

open Bytes Parse

/-! ## Primitives -/

theorem reads_take {b : List UInt8} {n : Nat} (h : b.length = n) : Reads (Reader.take n) b b :=
  Reads.take h

theorem reads_array {n : Nat} (v : Vector UInt8 n) : Reads (Reader.array n) v.toList v := by
  intro s
  have hn : ¬ (v.toList ++ s).length < n := by simp
  simp only [Reader.array, StateT.run, dif_neg hn, List.drop_left' (show v.toList.length = _ from Vector.length_toList)]
  congr 2
  apply Vector.toList_inj.1
  simp

theorem reads_uintLe {w v : Nat} (h : v < 256 ^ w) : Reads (Reader.uintLe w) (leBytes w v) v := by
  have hr := Reads.last (g := fun b => beVal b.reverse) (reads_take (length_leBytes w v))
  rwa [leBytes, List.reverse_reverse, beVal_beBytes, Nat.mod_eq_of_lt h] at hr

theorem reads_u8 {v : Nat} (h : v < 256) : Reads Reader.u8 (leBytes 1 v) v := by
  have hr := Reads.last (g := beVal) (reads_take (length_leBytes 1 v))
  rwa [leBytes, show (beBytes 1 v).reverse = beBytes 1 v from rfl, beVal_beBytes,
    Nat.mod_eq_of_lt (show v < 256 ^ 1 from h)] at hr

theorem reads_compactSize {n : Nat} (h : n < 2 ^ 64) : Reads Reader.compactSize (compactSize n) n := by
  intro s
  unfold compactSize Reader.compactSize
  split
  · next h1 => rw [run_bind_ok (reads_u8 (by omega) s), if_pos h1, StateT.run_pure]; rfl
  split
  · next h1 h2 =>
    rw [show (0xfd :: leBytes 2 n) ++ s = leBytes 1 0xfd ++ (leBytes 2 n ++ s) from rfl,
      run_bind_ok (reads_u8 (by decide) _), if_neg (by decide), if_pos rfl,
      run_bind_ok (reads_uintLe (by omega) s), if_neg (by omega), StateT.run_pure]
    rfl
  split
  · next h1 h2 h3 =>
    rw [show (0xfe :: leBytes 4 n) ++ s = leBytes 1 0xfe ++ (leBytes 4 n ++ s) from rfl,
      run_bind_ok (reads_u8 (by decide) _), if_neg (by decide), if_neg (by decide), if_pos rfl,
      run_bind_ok (reads_uintLe (by omega) s), if_neg (by omega), StateT.run_pure]
    rfl
  · next h1 h2 h3 =>
    rw [show (0xff :: leBytes 8 n) ++ s = leBytes 1 0xff ++ (leBytes 8 n ++ s) from rfl,
      run_bind_ok (reads_u8 (by decide) _), if_neg (by decide), if_neg (by decide),
      if_neg (by decide), run_bind_ok (reads_uintLe (by omega) s), if_neg (by omega),
      StateT.run_pure]
    rfl

theorem reads_sizedBytes {b : List UInt8} {cap : Nat} (h : b.length ≤ cap) (hcap : cap < 2 ^ 64) :
    Reads (Reader.sizedBytes cap) (sizedBytes b) b := by
  refine (reads_compactSize (by omega)).bind ?_
  rw [if_neg (by omega)]
  exact reads_take rfl

/-! ## Transactions -/

structure TxIn.Parseable (i : TxIn) : Prop where
  vout : i.previousOutput.vout < 2 ^ 32
  script : i.scriptSig.length ≤ 10000
  sequence : i.sequence < 2 ^ 32
  items : i.witness.length ≤ 1000

structure TxOut.Parseable (o : TxOut) : Prop where
  value : o.value < 2 ^ 64
  script : o.scriptPubkey.length ≤ 10000

/-- Within the limits of the parser. A transaction without inputs is not: its count of inputs
reads as the segwit marker. -/
structure Transaction.Parseable (tx : Transaction) : Prop where
  version : tx.version < 2 ^ 32
  lockTime : tx.lockTime < 2 ^ 32
  nonempty : tx.input ≠ []
  input : ∀ i ∈ tx.input, i.Parseable
  output : ∀ o ∈ tx.output, o.Parseable

/-- Within the limits on the counts and the witness items. -/
structure Transaction.Bounded (tx : Transaction) : Prop where
  inputs : tx.input.length ≤ 100000
  outputs : tx.output.length ≤ 100000
  item : ∀ i ∈ tx.input, ∀ w ∈ i.witness, w.length ≤ 4000000

/-- An input as it stands before the witnesses. -/
def TxIn.stripped (i : TxIn) : TxIn := { i with witness := [] }

def TxIn.write (i : TxIn) : List UInt8 :=
  i.previousOutput.write ++ sizedBytes i.scriptSig ++ leBytes 4 i.sequence

theorem OutPoint.reads {o : OutPoint} (h : o.vout < 2 ^ 32) : Reads OutPoint.read o.write o :=
  (reads_array o.txid).bind (reads_uintLe h).last

theorem TxOut.reads {o : TxOut} (h : o.Parseable) : Reads TxOut.read o.write o :=
  (reads_uintLe h.value).bind (reads_sizedBytes h.script (by decide)).last

theorem TxIn.reads {i : TxIn} (h : i.Parseable) : Reads TxIn.read i.write i.stripped := by
  unfold TxIn.write
  rw [List.append_assoc]
  exact (OutPoint.reads h.vout).bind <| (reads_sizedBytes h.script (by decide)).bind
    (reads_uintLe h.sequence).last

theorem TxIn.reads_witness {i : TxIn} (h : i.Parseable)
    (hitem : ∀ w ∈ i.witness, w.length ≤ 4000000) :
    Reads i.stripped.readWitness (Transaction.writeWitness i) i := by
  have hitems := h.items
  refine (reads_compactSize (by omega)).bind ?_
  rw [if_neg (by omega)]
  exact Reads.last (g := fun w => { i.stripped with witness := w })
    (Reads.times fun w hw => reads_sizedBytes (hitem w hw) (by decide))

theorem TxIn.reads_witnesses {is : List TxIn} (h : ∀ i ∈ is, i.Parseable)
    (hitem : ∀ i ∈ is, ∀ w ∈ i.witness, w.length ≤ 4000000) :
    Reads (TxIn.readWitnesses (is.map stripped)) (is.flatMap Transaction.writeWitness) is := by
  induction is with
  | nil => exact Reads.pure []
  | cons i is ih =>
    have hrest := ih (fun j hj => h j (List.mem_cons_of_mem _ hj))
      (fun j hj => hitem j (List.mem_cons_of_mem _ hj))
    exact (reads_witness (h i List.mem_cons_self) (hitem i List.mem_cons_self)).bind hrest.last

namespace Transaction

theorem witness_of_not_hasWitness {tx : Transaction} (h : ¬ tx.hasWitness) :
    ∀ i ∈ tx.input, i.witness = [] := by
  simpa [hasWitness] using h

theorem stripped_of_not_hasWitness {tx : Transaction} (h : ¬ tx.hasWitness) :
    tx.input.map TxIn.stripped = tx.input := by
  have hid : ∀ i ∈ tx.input, i.stripped = i := by
    intro i hi
    rw [TxIn.stripped, ← witness_of_not_hasWitness h i hi]
  calc tx.input.map TxIn.stripped = tx.input.map id := List.map_congr_left hid
    _ = tx.input := List.map_id _

variable {tx : Transaction}

theorem reads_inputs {is : List TxIn} (hall : ∀ i ∈ is, i.Parseable) :
    Reads (times TxIn.read is.length) (is.flatMap TxIn.write) (is.map TxIn.stripped) := by
  induction is with
  | nil => exact Reads.pure []
  | cons i is ih =>
    exact (TxIn.reads (hall i List.mem_cons_self)).bind
      (ih fun j hj => hall j (List.mem_cons_of_mem _ hj)).last

theorem writeInputsOutputs_eq (tx : Transaction) : tx.writeInputsOutputs =
    compactSize tx.input.length ++ (tx.input.flatMap TxIn.write ++
      (compactSize tx.output.length ++ tx.output.flatMap TxOut.write)) := by
  show compactSize tx.input.length ++ tx.input.flatMap TxIn.write ++ compactSize tx.output.length ++
    tx.output.flatMap TxOut.write = _
  simp only [List.append_assoc]

theorem reads_body (hinput : ∀ i ∈ tx.input, i.Parseable) (houtput : ∀ o ∈ tx.output, o.Parseable)
    (hlock : tx.lockTime < 2 ^ 32) (hb : tx.Bounded) (segwit : Bool)
    {w : List UInt8}
    (hw : Reads (TxIn.readWitnessesIf segwit (tx.input.map TxIn.stripped)) w tx.input) :
    Reads (readBody tx.version segwit tx.input.length)
      (tx.input.flatMap TxIn.write ++ (compactSize tx.output.length ++
        (tx.output.flatMap TxOut.write ++ (w ++ leBytes 4 tx.lockTime)))) tx := by
  have hin := hb.inputs
  have hout := hb.outputs
  rw [readBody, if_neg (by omega)]
  refine (reads_inputs hinput).bind <| (reads_compactSize (by omega)).bind ?_
  rw [if_neg (by omega)]
  exact (Reads.times fun o ho => TxOut.reads (houtput o ho)).bind <| hw.bind
    (reads_uintLe hlock).last

theorem reads_inputCount {n : Nat} (h0 : n ≠ 0) (h : n < 2 ^ 64) :
    Reads readInputCount (compactSize n) (false, n) := by
  have hr := (reads_compactSize h).bind (f := fun count => if count = 0 then do
      let flag ← Reader.u8
      if flag ≠ 0x01 then throw (.badFormat "bad segwit flag")
      else return (true, ← Reader.compactSize)
    else return (false, count)) (v := []) (b := (false, n))
      (by rw [if_neg h0]; exact Reads.pure _)
  rwa [List.append_nil] at hr

theorem reads_inputCount_segwit {n : Nat} (h : n < 2 ^ 64) :
    Reads readInputCount ([0x00, 0x01] ++ compactSize n) (true, n) := by
  refine (reads_compactSize (n := 0) (by decide)).bind (v := leBytes 1 1 ++ compactSize n) ?_
  rw [if_pos rfl]
  refine (reads_u8 (by decide)).bind ?_
  rw [if_neg (by decide)]
  exact (reads_compactSize h).last

theorem reads_serialize (h : tx.Parseable) (hb : tx.Bounded) : Reads Transaction.read tx.serialize tx := by
  have hin := hb.inputs
  have hpos : tx.input.length ≠ 0 := fun h0 => h.nonempty (List.length_eq_zero_iff.1 h0)
  unfold serialize
  split
  · rw [writeInputsOutputs_eq]
    have hr := (reads_uintLe (w := 4) h.version).bind (f := fun version => do
        let count ← readInputCount
        readBody version count.1 count.2)
      ((reads_inputCount_segwit (by omega)).bind
        (reads_body h.input h.output h.lockTime hb true (TxIn.reads_witnesses h.input hb.item)))
    simpa only [read, List.append_assoc] using hr
  · next hno =>
    rw [serializeLegacy, writeInputsOutputs_eq]
    have hr := (reads_uintLe (w := 4) h.version).bind (f := fun version => do
        let count ← readInputCount
        readBody version count.1 count.2)
      ((reads_inputCount hpos (by omega)).bind
        (reads_body h.input h.output h.lockTime hb false (w := []) ?_))
    · simpa only [read, List.append_assoc, List.nil_append] using hr
    · have hid := stripped_of_not_hasWitness hno
      rw [hid]
      exact Reads.pure _

/-! ## Short serialisations -/

theorem length_le_flatMap {α : Type} {w : α → List UInt8} (hw : ∀ a, w a ≠ []) (as : List α) :
    as.length ≤ (as.flatMap w).length := by
  induction as with
  | nil => exact Nat.zero_le _
  | cons a as ih =>
    have ha := List.length_pos_iff.2 (hw a)
    rw [List.flatMap_cons, List.length_append, List.length_cons]
    omega

theorem length_le_flatMap_of_mem {α : Type} {w : α → List UInt8} {as : List α} {a : α}
    (ha : a ∈ as) : (w a).length ≤ (as.flatMap w).length :=
  (List.sublist_flatten_of_mem (List.mem_map_of_mem ha)).length_le

theorem length_writeInputsOutputs (tx : Transaction) :
    tx.input.length ≤ tx.writeInputsOutputs.length ∧
      tx.output.length ≤ tx.writeInputsOutputs.length := by
  have hin := length_le_flatMap (w := TxIn.write) (fun i hi => by
    simpa [TxIn.write, OutPoint.write] using congrArg List.length hi) tx.input
  have hout := length_le_flatMap (w := TxOut.write) (fun o ho => by
    simpa [TxOut.write] using congrArg List.length ho) tx.output
  rw [writeInputsOutputs_eq]
  simp only [List.length_append]
  omega

theorem bounded_of_length (h : tx.serialize.length < 2 ^ 16) : tx.Bounded := by
  have hio := length_writeInputsOutputs tx
  unfold serialize at h
  split at h
  · simp only [List.length_append] at h
    refine ⟨by omega, by omega, fun i hi w hw => ?_⟩
    have h1 := length_le_flatMap_of_mem (w := writeWitness) hi
    have h2 := length_le_flatMap_of_mem (w := Bitcoin.sizedBytes) hw
    have h3 : (writeWitness i).length = (compactSize i.witness.length).length +
      (i.witness.flatMap Bitcoin.sizedBytes).length := by simp [writeWitness]
    have h4 : (Bitcoin.sizedBytes w).length = (compactSize w.length).length + w.length := by
      simp [Bitcoin.sizedBytes]
    omega
  · next hno =>
    simp only [serializeLegacy, List.length_append] at h
    refine ⟨by omega, by omega, fun i hi w hw => ?_⟩
    rw [witness_of_not_hasWitness hno i hi] at hw
    exact absurd hw List.not_mem_nil

/-! ## Cut serialisations -/

theorem local_uintLe (w : Nat) : Local (Reader.uintLe w) :=
  (Local.take _ _).bind fun _ => Local.pure _

theorem local_array (n : Nat) : Local (Reader.array n) := by
  intro s a s' h t
  simp only [Reader.array, StateT.run] at h ⊢
  split at h
  · cases h
  · next hn =>
    cases h
    have hlen : n ≤ s.length := by omega
    rw [dif_neg (by rw [List.length_append]; omega)]
    simp [List.take_append_of_le_length hlen, List.drop_append_of_le_length hlen]

theorem local_compactSize : Local Reader.compactSize := by
  refine ((Local.take _ _).bind fun _ => Local.pure _).bind fun first => Local.ite (Local.pure _) ?_
  refine Local.ite ((local_uintLe 2).bind fun _ => Local.ite (Local.throw _) (Local.pure _)) ?_
  refine Local.ite ((local_uintLe 4).bind fun _ => Local.ite (Local.throw _) (Local.pure _)) ?_
  exact (local_uintLe 8).bind fun _ => Local.ite (Local.throw _) (Local.pure _)

theorem local_sizedBytes (cap : Nat) : Local (Reader.sizedBytes cap) :=
  local_compactSize.bind fun _ => Local.ite (Local.throw _) (Local.take _ _)

theorem local_readWitnesses (is : List TxIn) : Local (TxIn.readWitnesses is) := by
  induction is with
  | nil => exact Local.pure []
  | cons i is ih =>
    have hone : Local i.readWitness := local_compactSize.bind fun n => Local.ite (Local.throw _)
      ((Local.times (local_sizedBytes _) n).bind fun _ => Local.pure _)
    exact hone.bind fun _ => ih.bind fun _ => Local.pure _

theorem local_read : Local Transaction.read := by
  have hin : Local TxIn.read :=
    ((local_array 32).bind fun _ => (local_uintLe 4).bind fun _ => Local.pure _).bind fun _ =>
      (local_sizedBytes _).bind fun _ => (local_uintLe 4).bind fun _ => Local.pure _
  have hout : Local TxOut.read :=
    (local_uintLe 8).bind fun _ => (local_sizedBytes _).bind fun _ => Local.pure _
  have hu8 : Local Reader.u8 := (Local.take _ _).bind fun _ => Local.pure _
  refine (local_uintLe 4).bind fun version => Local.bind ?_ fun count => Local.ite (Local.throw _) ?_
  · refine local_compactSize.bind fun n => Local.ite ?_ (Local.pure _)
    exact hu8.bind fun _ => Local.ite (Local.throw _) (local_compactSize.bind fun _ => Local.pure _)
  · refine (hin.times _).bind fun is => local_compactSize.bind fun n => Local.ite (Local.throw _) ?_
    refine (hout.times _).bind fun _ => Local.bind ?_ fun _ => (local_uintLe 4).bind fun _ => Local.pure _
    exact Local.ite (local_readWitnesses is) (Local.pure _)

/-- A serialisation that is cut short is refused. -/
theorem deserialize_take {n : Nat} (h : tx.Parseable) (hb : tx.Bounded)
    (hn : n < tx.serialize.length) (tx' : Transaction) :
    deserialize (tx.serialize.take n) ≠ .ok tx' := by
  intro hd
  have hr := reads_serialize h hb
  rw [← List.take_append_drop n tx.serialize] at hr
  have hcut := local_read.ne_of_cut (b := tx') hr (by simpa using hn)
  unfold deserialize at hd
  cases hrun : Transaction.read.run (tx.serialize.take n) with
  | error e =>
    rw [hrun] at hd
    cases hd
  | ok r =>
    rw [hrun] at hd
    simp only [bind, Except.bind] at hd
    split at hd
    · next he =>
      cases hd
      rw [List.isEmpty_iff] at he
      exact hcut (hrun.trans (by rw [← he]))
    · cases hd

/-- A short transaction within the parser's limits is read back. -/
theorem deserialize_serialize (h : tx.Parseable) (hlen : tx.serialize.length < 2 ^ 16) :
    deserialize tx.serialize = .ok tx := by
  have hr := (reads_serialize h (bounded_of_length hlen)).all
  rw [deserialize, hr]
  rfl

end Transaction

end Bitcoin
