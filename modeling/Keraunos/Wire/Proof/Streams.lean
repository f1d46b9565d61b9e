import Keraunos.Wire.Proof.Gossip

/-!
# TLV streams and their encodings

`bigsize::read` accepts nothing but what `bigsize::write` writes (`exact_bigSize`), and the loop of
`parse_stream` nothing but a record that follows smaller types (`exact_record`). So an ascending list
of records has one encoding, and every other byte string is refused (`parseStream_eq_ok_iff`).
-/

namespace Wire

open Bytes Parse

/-! ## BigSize -/

/-- A marker byte. -/
theorem exact_marker {n first : Nat} {s s' : List UInt8} (h : Reader.u8.run s = .ok (first, s'))
    (hn : first = n) : s = beBytes 1 n ++ s' := hn ▸ exact_uint 1 s first s' h

/-- Only minimal encodings are accepted. -/
theorem exact_bigSize : Exact BigSize.read BigSize.write := by
  intro s v s' h
  obtain ⟨first, s1, hfirst, h⟩ := of_run_bind h
  have hlt : first < 256 := lt_of_uint hfirst
  split at h
  · next hsmall =>
    cases h
    rw [BigSize.write, if_pos hsmall]
    exact exact_uint 1 _ _ _ hfirst
  split at h
  · next hmark =>
    obtain ⟨v', s2, hv, h⟩ := of_run_bind h
    have hrest := exact_uint 2 s1 v' s2 hv
    have hlt' : v' < 256 ^ 2 := lt_of_uint hv
    split at h
    · cases h
    · next hmin =>
      cases h
      rw [BigSize.write, if_neg (by omega), if_pos (by omega), exact_marker hfirst hmark, hrest,
        List.append_assoc]
  split at h
  · next hmark =>
    obtain ⟨v', s2, hv, h⟩ := of_run_bind h
    have hrest := exact_uint 4 s1 v' s2 hv
    have hlt' : v' < 256 ^ 4 := lt_of_uint hv
    split at h
    · cases h
    · next hmin =>
      cases h
      rw [BigSize.write, if_neg (by omega), if_neg (by omega), if_pos (by omega),
        exact_marker hfirst hmark, hrest, List.append_assoc]
  · obtain ⟨v', s2, hv, h⟩ := of_run_bind h
    have hrest := exact_uint 8 s1 v' s2 hv
    split at h
    · cases h
    · next hmin =>
      cases h
      rw [BigSize.write, if_neg (by omega), if_neg (by omega), if_neg (by omega),
        exact_marker hfirst (by omega : first = 0xff), hrest, List.append_assoc]

/-- A BigSize is a `u64`. -/
theorem lt_of_bigSize {s s' : List UInt8} {v : Nat} (h : BigSize.read.run s = .ok (v, s')) :
    v < 2 ^ 64 := by
  obtain ⟨first, s1, hfirst, h⟩ := of_run_bind h
  have hlt : first < 256 := lt_of_uint hfirst
  split at h
  · cases h
    omega
  split at h
  · obtain ⟨v', s2, hv, h⟩ := of_run_bind h
    have hlt' : v' < 256 ^ 2 := lt_of_uint hv
    split at h
    · cases h
    · cases h
      omega
  split at h
  · obtain ⟨v', s2, hv, h⟩ := of_run_bind h
    have hlt' : v' < 256 ^ 4 := lt_of_uint hv
    split at h
    · cases h
    · cases h
      omega
  · obtain ⟨v', s2, hv, h⟩ := of_run_bind h
    have hlt' : v' < 256 ^ 8 := lt_of_uint hv
    split at h
    · cases h
    · cases h
      omega

namespace Tlv

/-- The encodings of the records, one after the other. -/
def writeStream (records : List TlvRecord) : List UInt8 :=
  records.flatMap fun r => writeRecord r.typ r.value

/-- Records of `u64` types and lengths, in strictly ascending order. -/
structure Stream (records : List TlvRecord) : Prop where
  ascending : records.Pairwise fun a b => a.typ < b.typ
  typ_lt : ∀ r ∈ records, r.typ < 2 ^ 64
  length_lt : ∀ r ∈ records, r.value.length < 2 ^ 64

/-! ## Records -/

/-- What one pass of the loop accepts. -/
theorem exact_record {st : Option Nat × List TlvRecord} {s s' : List UInt8}
    {x : ForInStep (Option Nat × List TlvRecord)} (h : (record st).run s = .ok (x, s')) :
    ∃ r : TlvRecord, x = .yield (some r.typ, st.2 ++ [r]) ∧ s = writeRecord r.typ r.value ++ s' ∧
      (∀ t ∈ st.1, t < r.typ) ∧ r.typ < 2 ^ 64 ∧ r.value.length < 2 ^ 64 := by
  obtain ⟨typ, s1, htyp, h⟩ := of_run_bind h
  split at h
  · cases h
  next hasc =>
  obtain ⟨len, s2, hlen, h⟩ := of_run_bind h
  obtain ⟨rest, s3, hget, h⟩ := of_run_bind h
  cases hget
  split at h
  · cases h
  obtain ⟨value, s4, hvalue, h⟩ := of_run_bind h
  cases h
  have hvlen := length_of_take hvalue
  refine ⟨⟨typ, value⟩, rfl, ?_, ?_, lt_of_bigSize htyp, hvlen ▸ lt_of_bigSize hlen⟩
  · rw [exact_bigSize s typ s1 htyp, exact_bigSize s1 len s2 hlen, exact_take len s2 value s' hvalue,
      writeRecord, hvlen, List.append_assoc, List.append_assoc]
    rfl
  · intro t ht
    rw [Option.mem_def] at ht
    simpa [ht] using hasc

/-- What the rest of the loop accepts and adds to its state. -/
structure Adds (st : Option Nat × List TlvRecord) (s : List UInt8) (st' : Option Nat × List TlvRecord)
    (records : List TlvRecord) : Prop where
  found : st'.2 = st.2 ++ records
  written : s = writeStream records
  stream : Stream records
  above : ∀ t ∈ st.1, ∀ r ∈ records, t < r.typ

theorem adds_nil (st : Option Nat × List TlvRecord) : Adds st [] st [] where
  found := (List.append_nil _).symm
  written := rfl
  stream := ⟨.nil, fun _ => nofun, fun _ => nofun⟩
  above := fun _ _ _ => nofun

theorem Adds.cons {st st' : Option Nat × List TlvRecord} {s : List UInt8} {r : TlvRecord}
    {records : List TlvRecord} (h : Adds (some r.typ, st.2 ++ [r]) s st' records)
    (habove : ∀ t ∈ st.1, t < r.typ) (htyp : r.typ < 2 ^ 64) (hlen : r.value.length < 2 ^ 64) :
    Adds st (writeRecord r.typ r.value ++ s) st' (r :: records) := by
  have hrest : ∀ q ∈ records, r.typ < q.typ := h.above r.typ rfl
  refine ⟨?_, ?_, ⟨?_, ?_, ?_⟩, ?_⟩
  · rw [h.found, List.append_assoc, List.singleton_append]
  · rw [h.written]
    rfl
  · exact List.pairwise_cons.2 ⟨hrest, h.stream.ascending⟩
  · exact List.forall_mem_cons.2 ⟨htyp, h.stream.typ_lt⟩
  · exact List.forall_mem_cons.2 ⟨hlen, h.stream.length_lt⟩
  · intro t ht
    exact List.forall_mem_cons.2 ⟨habove t ht, fun q hq => (habove t ht).trans (hrest q hq)⟩

/-- Induction over the passes of the loop. -/
theorem adds_of_run {st st' : Option Nat × List TlvRecord} {s s' : List UInt8}
    (h : (whileMore record st).run s = .ok (st', s')) : ∃ records, Adds st s st' records := by
  refine of_run_whileMore record_consumes (R := fun st s st' => ∃ records, Adds st s st' records)
    (fun st => ⟨[], adds_nil st⟩) (fun st s st' s' hr => ?_) (fun st s st₁ s₁ st' hr => ?_) h
  · obtain ⟨r, hx, -⟩ := exact_record hr
    cases hx
  · rintro ⟨records, hadds⟩
    obtain ⟨r, hx, rfl, habove, htyp, hlen⟩ := exact_record hr
    cases hx
    exact ⟨r :: records, hadds.cons habove htyp hlen⟩

/-! ## Streams -/

/-- `parse_stream` accepts exactly the encodings of ascending lists of records, each as its list. -/
theorem parseStream_eq_ok_iff (data : List UInt8) (records : List TlvRecord) :
    parseStream data = .ok records ↔ Stream records ∧ data = writeStream records := by
  constructor
  · intro h
    rw [parseStream] at h
    cases hrun : (whileMore record (none, [])).run data with
    | error e =>
      rw [hrun] at h
      cases h
    | ok x =>
      rw [hrun] at h
      obtain ⟨added, hadds⟩ := adds_of_run hrun
      obtain rfl : x.1.2 = records := Except.ok.inj h
      have hfound : x.1.2 = added := hadds.found
      exact hfound ▸ ⟨hadds.stream, hadds.written⟩
  · rintro ⟨hstream, rfl⟩
    exact parseStream_write hstream.ascending fun r hr => ⟨hstream.typ_lt r hr, hstream.length_lt r hr⟩

end Tlv

end Wire
