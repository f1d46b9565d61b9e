import Keraunos.Wire.Codec

/-!
# Reading the primitives back

What each writer of `WireWriter` wrote is read back by its reader, and the readers of fixed fields
accept nothing else. TLV streams: an ascending list of records is read back (`parseStream_write`).
-/

namespace Wire

open Bytes Parse

/-! ## Fixed-width fields -/

theorem reads_take {b : List UInt8} {n : Nat} (h : b.length = n) : Reads (Reader.take n) b b :=
  Reads.take h

theorem reads_u8 {v : Nat} (h : v < 2 ^ 8) : Reads Reader.u8 (Writer.u8 v) v :=
  fun s => Reader.uint_append 1 v s h

theorem reads_u16 {v : Nat} (h : v < 2 ^ 16) : Reads Reader.u16 (Writer.u16 v) v :=
  fun s => Reader.uint_append 2 v s h

theorem reads_u32 {v : Nat} (h : v < 2 ^ 32) : Reads Reader.u32 (Writer.u32 v) v :=
  fun s => Reader.uint_append 4 v s h

theorem reads_u64 {v : Nat} (h : v < 2 ^ 64) : Reads Reader.u64 (Writer.u64 v) v :=
  fun s => Reader.uint_append 8 v s h

theorem reads_array {n : Nat} (v : Vector UInt8 n) : Reads (Reader.array n) v.toList v := by
  intro s
  have hn : ¬ (v.toList ++ s).length < n := by simp
  simp only [Reader.array, StateT.run, dif_neg hn, List.drop_left' (show v.toList.length = _ from Vector.length_toList)]
  congr 2
  apply Vector.toList_inj.1
  simp

theorem reads_bytesU16 {b : List UInt8} (h : b.length < 2 ^ 16) :
    Reads Reader.bytesU16 (Writer.bytesU16 b) b :=
  (reads_u16 h).bind (reads_take rfl)

section
variable {K : KeyParsers}

theorem reads_pubkey {pk : PublicKey} (h : K.fromSlice pk.serialize = some pk) :
    Reads (Reader.pubkey K) (Writer.pubkey pk) pk := by
  intro s
  rw [Reader.pubkey, Writer.pubkey, Reader.run_bind_ok (reads_take (b := pk.serialize) (by simp) s), h]
  rfl

theorem reads_signature {sig : Signature} (h : K.fromCompact sig.serializeCompact = some sig) :
    Reads (Reader.signature K) (Writer.signature sig) sig := by
  intro s
  rw [Reader.signature, Writer.signature,
    Reader.run_bind_ok (reads_take (b := sig.serializeCompact) (by simp) s), h]
  rfl

end

theorem reads_bigSize {v : Nat} (h : v < 2 ^ 64) : Reads BigSize.read (BigSize.write v) v :=
  fun s => BigSize.read_write h s

/-! ## Consumption -/

theorem costs_take (n : Nat) : Costs n (Reader.take n) := Costs.take WireError.unexpectedEnd n

theorem costs_uint (w : Nat) : Costs w (Reader.uint w) :=
  (costs_take w).bind_left fun _ => Costs.pure _

theorem costs_array (n : Nat) : Costs 0 (Reader.array n) := by
  intro s a s' hr
  simp only [Reader.array, StateT.run] at hr
  split at hr
  · cases hr
  · cases hr
    simp

theorem costs_bigSize : Costs 1 BigSize.read := by
  refine (costs_uint 1).bind_left fun first => ?_
  refine Costs.ite (Costs.pure _) (Costs.ite ?_ (Costs.ite ?_ ?_))
  · exact ((costs_uint 2).bind_left fun v => Costs.ite (Costs.throw _) (Costs.pure v)).mono (by omega)
  · exact ((costs_uint 4).bind_left fun v => Costs.ite (Costs.throw _) (Costs.pure v)).mono (by omega)
  · exact ((costs_uint 8).bind_left fun v => Costs.ite (Costs.throw _) (Costs.pure v)).mono (by omega)

/-! ## TLV streams -/

namespace Tlv

theorem record_consumes : Consumes record := by
  intro st
  refine costs_bigSize.bind_left fun typ => Costs.ite (Costs.throw _) ?_
  refine (costs_bigSize.mono (Nat.zero_le 1)).bind_left fun len => ?_
  intro s a s' hr
  obtain ⟨u, s1, hget, hr⟩ := of_run_bind hr
  cases hget
  refine Costs.ite (Costs.throw _) ?_ s a s' hr
  exact ((costs_take len).bind_left fun _ => Costs.pure _).mono (Nat.zero_le len)

/-- A record that follows smaller types. -/
theorem reads_record {st : Option Nat × List TlvRecord} {r : TlvRecord}
    (hlast : ∀ t ∈ st.1, t < r.typ) (htyp : r.typ < 2 ^ 64) (hlen : r.value.length < 2 ^ 64) :
    Reads (record st) (writeRecord r.typ r.value) (.yield (some r.typ, st.2 ++ [r])) := by
  have hasc : ¬ st.1.any (r.typ ≤ ·) := by
    cases hst : st.1 with
    | none => simp
    | some t =>
      have ht := hlast t hst
      simpa using ht
  intro s
  rw [record, writeRecord, List.append_assoc, List.append_assoc,
    Reader.run_bind_ok (reads_bigSize htyp _), if_neg hasc,
    Reader.run_bind_ok (reads_bigSize hlen _),
    Reader.run_bind_ok (show (get : Reader _).run _ = .ok (r.value ++ s, r.value ++ s) from rfl),
    if_neg (by simp), Reader.run_bind_ok (reads_take rfl s)]
  rfl

/-- An ascending stream is read back. -/
theorem parseStream_write {recs : List TlvRecord} (hasc : recs.Pairwise fun a b => a.typ < b.typ)
    (hfit : ∀ r ∈ recs, r.typ < 2 ^ 64 ∧ r.value.length < 2 ^ 64) :
    parseStream (recs.flatMap fun r => writeRecord r.typ r.value) = .ok recs := by
  have h : ReadsAll (whileMore record (([] : List TlvRecord).getLast?.map (·.typ), []))
      (recs.flatMap fun r => writeRecord r.typ r.value) (recs.getLast?.map (·.typ), recs) :=
    ReadsAll.whileMore record_consumes (fun pre => (pre.getLast?.map (·.typ), pre)) ?_ ?_
  · rw [parseStream]
    rw [ReadsAll] at h
    rw [show (none, []) = (([] : List TlvRecord).getLast?.map (·.typ), ([] : List TlvRecord)) from rfl, h]
    rfl
  · intro r
    have hpos : 0 < (BigSize.write r.typ).length := by
      rw [BigSize.length_write, BigSize.len]
      split <;> [skip; split <;> [skip; split]] <;> omega
    intro hnil
    rw [writeRecord, List.append_assoc, List.append_eq_nil_iff] at hnil
    rw [hnil.1] at hpos
    exact Nat.lt_irrefl _ hpos
  · intro pre r post hsplit
    subst hsplit
    have hr := hfit r (by simp)
    have hlast : ∀ t ∈ (pre.getLast?.map (·.typ), pre).1, t < r.typ := ?_
    · simpa using reads_record hlast hr.1 hr.2
    · intro t ht
      simp only [Option.mem_def, Option.map_eq_some_iff] at ht
      obtain ⟨q, hq, rfl⟩ := ht
      have hpre := (List.pairwise_append.1 hasc).2.2 q (List.mem_of_getLast? hq) r
      exact hpre List.mem_cons_self

/-- The record of an optional field. -/
def optional (typ : Nat) (value : Option (List UInt8)) : List TlvRecord :=
  (value.map (TlvRecord.mk typ)).toList

@[simp] theorem optional_none (typ : Nat) : optional typ none = [] := rfl

@[simp] theorem optional_some (typ : Nat) (v : List UInt8) : optional typ (some v) = [⟨typ, v⟩] := rfl

theorem flatMap_optional (typ : Nat) (value : Option (List UInt8)) :
    (optional typ value).flatMap (fun r => writeRecord r.typ r.value) = writeOption typ value := by
  cases value <;> simp [writeOption]

theorem parseStream_optional {typ : Nat} {value : Option (List UInt8)} (ht : typ < 2 ^ 64)
    (hv : ∀ v ∈ value, v.length < 2 ^ 64) :
    parseStream (writeOption typ value) = .ok (optional typ value) := by
  rw [← flatMap_optional]
  apply parseStream_write
  · cases value <;> simp
  · cases value with
    | none => simp
    | some v => simpa using ⟨ht, hv v rfl⟩

theorem parseStream_optional₂ {typ typ' : Nat} {value value' : Option (List UInt8)}
    (hlt : typ < typ') (ht : typ' < 2 ^ 64) (hv : ∀ v ∈ value, v.length < 2 ^ 64)
    (hv' : ∀ v ∈ value', v.length < 2 ^ 64) :
    parseStream (writeOption typ value ++ writeOption typ' value') =
      .ok (optional typ value ++ optional typ' value') := by
  rw [← flatMap_optional, ← flatMap_optional, ← List.flatMap_append]
  apply parseStream_write
  · cases value <;> cases value' <;> simp [hlt]
  · intro r hr
    rcases List.mem_append.1 hr with hr | hr
    · cases value with
      | none => simp at hr
      | some v =>
        obtain rfl : r = ⟨typ, v⟩ := by simpa using hr
        exact ⟨hlt.trans ht, hv v rfl⟩
    · cases value' with
      | none => simp at hr
      | some v =>
        obtain rfl : r = ⟨typ', v⟩ := by simpa using hr
        exact ⟨ht, hv' v rfl⟩

end Tlv

end Wire
