import Keraunos.Chain.Proof.Claim
import Keraunos.Channel.Proof.Crowd
import Keraunos.Commitment.Proof.Number
import Mathlib.Data.List.Dedup
import Mathlib.Data.Nat.ModEq

/-!
# The counts of a stored monitor

Every list and byte string is written after a 16-bit length, and the length is truncated. What a
channel brings fits as long as its commitments do, and those are small while the connection lasts; the
preimages are never dropped. So a monitor comes back exactly when it has fewer than 65536 of them
(`monitor_persists_iff`).
-/

open Bitcoin Commitment

/-! ## The size of a commitment transaction -/

namespace Bitcoin

theorem length_compactSize_le (n : Nat) : (compactSize n).length ≤ 9 := by
  unfold compactSize
  split
  · simp
  · split
    · simp
    · split <;> simp

/-- An output that pays a witness program. -/
theorem TxOut.length_write_le {o : TxOut} (h : o.scriptPubkey.length ≤ 34) :
    o.write.length ≤ 43 := by
  have hsize : (compactSize o.scriptPubkey.length).length = 1 := by
    rw [compactSize, if_pos (by omega), length_leBytes]
  simp only [TxOut.write, sizedBytes, List.length_append, length_leBytes, hsize]
  omega

end Bitcoin

namespace Commitment.CommitmentTxParams

variable {C : Crypto} {p : CommitmentTxParams}

/-- One input without a witness, and outputs that pay witness programs. -/
theorem length_serialize_le : (p.tx C).serialize.length ≤ 43 * (p.htlcs.length + 2) + 75 := by
  have hout : ((p.tx C).output.flatMap TxOut.write).length ≤ 43 * (p.tx C).output.length := by
    rw [List.length_flatMap, Nat.mul_comm]
    refine List.sum_le_card_nsmul _ 43 ?_ |>.trans (by simp)
    intro n hn
    obtain ⟨o, ho, rfl⟩ := List.mem_map.1 hn
    exact TxOut.length_write_le (length_scriptPubkey ho)
  have hlen : (p.tx C).output.length ≤ p.htlcs.length + 2 := length_output
  have hcount := length_compactSize_le (p.tx C).output.length
  have hone := length_compactSize_le (0 + 1)
  have hzero := length_compactSize_le 0
  have hplain : (p.tx C).hasWitness = false := by simp [Transaction.hasWitness, input_eq]
  rw [Transaction.serialize, hplain, if_neg (by simp), Transaction.serializeLegacy,
    Transaction.writeInputsOutputs, input_eq]
  simp only [List.length_append, length_leBytes, List.length_cons, List.length_nil, List.flatMap_cons,
    List.flatMap_nil, OutPoint.write, sizedBytes, Vector.length_toList]
  omega

end Commitment.CommitmentTxParams

/-! ## The widths of the fields -/

/-- The integers have the widths of the source's types. -/
structure HolderCommitment.Words (hc : HolderCommitment) : Prop where
  number : hc.number < 2 ^ 64
  vout : ∀ i ∈ hc.built.tx.input, i.previousOutput.vout < 2 ^ 32
  value : ∀ o ∈ hc.built.tx.output, o.value < 2 ^ 64
  fee : hc.built.feeSat < 2 ^ 64
  index : ∀ i ∈ hc.built.htlcOutputIndices, ∀ v ∈ i, v < 2 ^ 32
  broadcaster : ∀ v ∈ hc.built.toBroadcasterIndex, v < 2 ^ 32
  countersignatory : ∀ v ∈ hc.built.toCountersignatoryIndex, v < 2 ^ 32
  htlc : ∀ h ∈ hc.htlcs, h.Fits
  feerate : hc.feerate < 2 ^ 32

structure CounterpartyCommitmentData.Words (cp : CounterpartyCommitmentData) : Prop where
  number : cp.number < 2 ^ 64
  htlc : ∀ e ∈ cp.htlcs, e.1.Fits
  vout : ∀ e ∈ cp.htlcs, ∀ v ∈ e.2, v < 2 ^ 32

structure ChannelMonitor.Words (m : ChannelMonitor) : Prop where
  vout : m.fundingOutpoint.vout < 2 ^ 32
  capacity : m.capacitySat < 2 ^ 64
  obscure : m.obscureFactor < 2 ^ 64
  holderDelay : m.holderSelectedDelay < 2 ^ 16
  counterpartyDelay : m.counterpartySelectedDelay < 2 ^ 16
  index : ∀ e ∈ m.counterpartySecrets.entries, e.1 < 2 ^ 64
  current : ∀ cp ∈ m.counterpartyCurrent, cp.Words
  holder : ∀ hc ∈ m.holderCommitment, hc.Words
  feerate : m.holderCommitmentFeerate < 2 ^ 32

/-! ## The counts -/

/-- Every count and length of our commitment fits its 16 bits. -/
structure HolderCommitment.CountsFit (hc : HolderCommitment) : Prop where
  tx : hc.built.tx.serialize.length < 2 ^ 16
  indices : hc.built.htlcOutputIndices.length < 2 ^ 16
  order : hc.built.htlcsInOutputOrder.length < 2 ^ 16
  entry : ∀ e ∈ hc.built.htlcsInOutputOrder, e.1 < 2 ^ 16 ∧ e.2.length < 2 ^ 16
  sigs : hc.counterpartyHtlcSigs.length < 2 ^ 16
  htlcs : hc.htlcs.length < 2 ^ 16

/-- Every count and length that `serialize` writes fits its 16 bits. -/
structure ChannelMonitor.CountsFit (m : ChannelMonitor) : Prop where
  secrets : m.counterpartySecrets.entries.length < 2 ^ 16
  current : ∀ cp ∈ m.counterpartyCurrent, cp.htlcs.length < 2 ^ 16
  holder : ∀ hc ∈ m.holderCommitment, hc.CountsFit
  preimages : m.preimages.values.length < 2 ^ 16

/-- All counts fit, and what is read back has every preimage. -/
def ChannelMonitor.Persists (C : Crypto) (K : KeyParsers) (m : ChannelMonitor) : Prop :=
  m.CountsFit ∧ ∃ m', deserialize C K m.serialize = .ok m' ∧ m'.preimages = m.preimages

/-- The current commitments can be counted in 16 bits: their HTLCs, and the bytes of our transaction. -/
structure Channel.Sized (ch : Channel) : Prop where
  holder : ∀ hc ∈ ch.currentHolderCommitment,
    hc.htlcs.length < 2 ^ 16 ∧ hc.built.tx.serialize.length < 2 ^ 16
  counterparty : ∀ info ∈ ch.currentCounterpartyCommitment, info.htlcs.length < 2 ^ 16

/-! ## The preimages of a monitor -/

namespace ChannelMonitor

variable {C : Crypto} {K : KeyParsers} {m : ChannelMonitor}

theorem mem_keys_withPreimages {ps : List PaymentPreimage} {hash : PaymentHash} :
    hash ∈ (m.withPreimages C ps).preimages.entries.map Prod.fst ↔
      hash ∈ m.preimages.entries.map Prod.fst ∨ hash ∈ ps.map (paymentHash C) := by
  induction ps generalizing m with
  | nil => simp [withPreimages]
  | cons p ps ih =>
    refine (ih (m := m.addPreimage C p)).trans ?_
    have hins : hash ∈ (m.addPreimage C p).preimages.entries.map Prod.fst ↔
        hash ∈ m.preimages.entries.map Prod.fst ∨ hash = paymentHash C p := by
      simp only [addPreimage, List.mem_map, PreimageMap.mem_insert]
      constructor
      · rintro ⟨e, rfl | ⟨he, -⟩, rfl⟩
        · exact .inr rfl
        · exact .inl ⟨e, he, rfl⟩
      · rintro (⟨e, he, rfl⟩ | rfl)
        · by_cases hk : e.1 = paymentHash C p
          · exact ⟨_, .inl rfl, hk.symm⟩
          · exact ⟨e, .inr ⟨he, hk⟩, rfl⟩
        · exact ⟨_, .inl rfl, rfl⟩
    rw [hins, List.map_cons, List.mem_cons, or_assoc]

/-- A monitor without preimages gets one for each hash. -/
theorem length_withPreimages (h : m.preimages = .empty) (ps : List PaymentPreimage) :
    (m.withPreimages C ps).preimages.entries.length = (ps.map (paymentHash C)).dedup.length := by
  have hperm : ((m.withPreimages C ps).preimages.entries.map Prod.fst).Perm
      (ps.map (paymentHash C)).dedup := by
    refine (List.perm_ext_iff_of_nodup (m.withPreimages C ps).preimages.nodup
      (List.nodup_dedup _)).2 fun hash => ?_
    rw [mem_keys_withPreimages, List.mem_dedup, h]
    simp [PreimageMap.empty]
  rw [← hperm.length_eq, List.length_map]

end ChannelMonitor

/-! ## Monitors of a reachable channel -/

namespace Channel

variable {C : Crypto} {K : KeyParsers} {ch₀ ch : Channel}
  {tr : Trace Input ChannelError (List Wire.Message)} {m M : ChannelMonitor}

theorem Sized.counted (h : Sized ch) (hm : ChannelMonitor.fromChannel ch = some m) (hw : m.Words) :
    m.Counted := by
  simp only [ChannelMonitor.fromChannel, Option.bind_eq_bind, Option.bind_eq_some_iff, Option.pure_def,
    Option.some.injEq] at hm
  obtain ⟨cp, -, funding, -, rfl⟩ := hm
  refine ⟨⟨hw.vout, hw.capacity, hw.obscure, hw.holderDelay, hw.counterpartyDelay, hw.index,
    fun cp hcp => ?_⟩, fun hc hhc => ?_, hw.feerate⟩
  · have hcw := hw.current cp hcp
    obtain ⟨info, hinfo, rfl⟩ := Option.map_eq_some_iff.1 hcp
    exact ⟨hcw.number, h.counterparty info hinfo, hcw.htlc, hcw.vout⟩
  · have hcw := hw.holder hc hhc
    exact ⟨hcw.number, hcw.vout, hcw.value, hcw.fee, hcw.index, hcw.broadcaster, hcw.countersignatory,
      (h.holder hc hhc).1, hcw.htlc, hcw.feerate⟩

/-- Preimages change no other count. -/
theorem counted_withPreimages (h : m.Counted) (ps : List PaymentPreimage) :
    (m.withPreimages C ps).Counted := by
  rw [ChannelMonitor.withPreimages_eq]
  exact ⟨⟨h.vout, h.capacity, h.obscure, h.holderDelay, h.counterpartyDelay, h.index, h.current⟩,
    h.holder, h.feerate⟩

theorem keysRoundTrip_withPreimages (h : m.KeysRoundTrip K) (ps : List PaymentPreimage) :
    (m.withPreimages C ps).KeysRoundTrip K := by
  rw [ChannelMonitor.withPreimages_eq]
  exact ⟨h.pubkeys, h.signatures⟩

/-- What fits the encoding has counts that fit. -/
theorem Snapshot.countsFit (h : Snapshot C ch₀ tr ch M) (hcount : M.Counted)
    (hshort : ∀ hc ∈ M.holderCommitment, hc.built.tx.serialize.length < 2 ^ 16)
    (hpre : M.preimages.entries.length < 2 ^ 16) : M.CountsFit where
  secrets := ChannelMonitor.length_entries _
  current cp hcp := (hcount.current cp hcp).htlcs
  holder hc hhc := by
    obtain ⟨hread, hfits⟩ := h.readable hcount hshort
    have hf := hfits hc hhc
    exact ⟨hf.built.tx, hf.built.indices, hf.built.order,
      fun e he => ⟨hread.htlcIndex hc hhc e he, hf.built.script e he⟩, hf.sigs, hf.htlcs⟩
  preimages := by
    rw [PreimageMap.values, List.length_map]
    exact hpre

/-- While few HTLCs are included, the current commitments are small. -/
theorem Few.sized (h : Few ch)
    (hkept : ∀ hc, ch.currentHolderCommitment = some hc → Kept C ch₀ tr ch hc) : Sized ch where
  holder hc hhc := by
    have hfew := h.holder hc hhc
    obtain ⟨ch₁, n, b, hb, -⟩ := hkept hc hhc
    obtain ⟨p, hbuilt, hhtlcs, -⟩ := hb.assembled
    have hlen := CommitmentTxParams.length_serialize_le (C := C) (p := p)
    rw [hhtlcs] at hlen
    rw [show hc.built.tx = p.tx C by rw [hbuilt]; rfl]
    simp only [maxHtlcsPerSide] at hfew
    omega
  counterparty info hinfo := by
    have hfew := h.counterparty info hinfo
    simp only [maxHtlcsPerSide] at hfew
    omega

/-- In every reachable state, after any preimages: all counts of the monitor fit and it is read back
with every preimage, exactly when there are fewer than 65536 preimages and the current commitments can
be counted. The commitments always can while the connection lasts, if we ask for no more HTLCs than the
protocol allows. -/
theorem monitor_persists_iff (h₀ : Fresh C ch₀) (hr : Run (step C) ch₀ tr ch)
    (hm : ChannelMonitor.fromChannel ch = some m) (hwords : m.Words) (hkeys : m.KeysRoundTrip K)
    (ps : List PaymentPreimage) :
    ((m.withPreimages C ps).Persists C K ↔
      (ps.map (paymentHash C)).dedup.length < 2 ^ 16 ∧ ch.Sized) ∧
    ((∀ x ∈ tr, x.1 ≠ .disconnect) → ch₀.config.maxAcceptedHtlcs ≤ maxHtlcsPerSide → ch.Sized) := by
  obtain ⟨hholder, -, -, hempty⟩ := ChannelMonitor.fromChannel_eq hm
  have hlen := ChannelMonitor.length_withPreimages (C := C) hempty ps
  have heq := ChannelMonitor.withPreimages_eq (C := C) (m := m) ps
  refine ⟨⟨fun hp => ?_, fun ⟨hps, hs⟩ => ?_⟩, fun hd hconfig => ?_⟩
  · have hfit := hp.1
    refine ⟨?_, ⟨fun hc hhc => ?_, fun info hinfo => ?_⟩⟩
    · have hpre := hfit.preimages
      rwa [PreimageMap.values, List.length_map, hlen] at hpre
    · have hc₁ := hfit.holder hc (by rw [heq]; exact hholder.trans hhc)
      exact ⟨hc₁.htlcs, hc₁.tx⟩
    · refine hfit.current ⟨info.number, info.txid, info.perCommitmentPoint, info.htlcs⟩ ?_
      rw [heq]
      simp only [ChannelMonitor.fromChannel, Option.bind_eq_bind, Option.bind_eq_some_iff,
        Option.pure_def, Option.some.injEq] at hm
      obtain ⟨cp, -, funding, -, rfl⟩ := hm
      exact Option.mem_map_of_mem _ hinfo
  · have hsnap := snapshot_of_run h₀ hr hm ps
    have hcount := counted_withPreimages (C := C) (hs.counted hm hwords) ps
    have hshort : ∀ hc ∈ (m.withPreimages C ps).holderCommitment,
        hc.built.tx.serialize.length < 2 ^ 16 := by
      rw [heq]
      intro hc hhc
      exact (hs.holder hc (hholder ▸ hhc)).2
    have hpre : (m.withPreimages C ps).preimages.entries.length < 2 ^ 16 := hlen ▸ hps
    exact ⟨hsnap.countsFit hcount hshort hpre, _,
      hsnap.persisted hcount (keysRoundTrip_withPreimages hkeys ps) hshort hpre, rfl⟩
  · exact (few_htlcs h₀ hconfig hr hd).sized (KeepsHolder.of_run h₀ hr).kept

end Channel

/-! ## Concrete runs -/

instance (h : HtlcOutputInCommitment) : Decidable h.Fits :=
  decidable_of_iff (h.amountMsat < 2 ^ 64 ∧ h.cltvExpiry < 2 ^ 32)
    ⟨fun ⟨ha, he⟩ => ⟨ha, he⟩, fun h => ⟨h.amount, h.expiry⟩⟩

instance (hc : HolderCommitment) : Decidable hc.Words :=
  decidable_of_iff (hc.number < 2 ^ 64 ∧ (∀ i ∈ hc.built.tx.input, i.previousOutput.vout < 2 ^ 32) ∧
      (∀ o ∈ hc.built.tx.output, o.value < 2 ^ 64) ∧ hc.built.feeSat < 2 ^ 64 ∧
      (∀ i ∈ hc.built.htlcOutputIndices, ∀ v ∈ i, v < 2 ^ 32) ∧
      (∀ v ∈ hc.built.toBroadcasterIndex, v < 2 ^ 32) ∧
      (∀ v ∈ hc.built.toCountersignatoryIndex, v < 2 ^ 32) ∧ (∀ h ∈ hc.htlcs, h.Fits) ∧
      hc.feerate < 2 ^ 32)
    ⟨fun ⟨h1, h2, h3, h4, h5, h6, h7, h8, h9⟩ => ⟨h1, h2, h3, h4, h5, h6, h7, h8, h9⟩,
      fun ⟨h1, h2, h3, h4, h5, h6, h7, h8, h9⟩ => ⟨h1, h2, h3, h4, h5, h6, h7, h8, h9⟩⟩

instance (cp : CounterpartyCommitmentData) : Decidable cp.Words :=
  decidable_of_iff (cp.number < 2 ^ 64 ∧ (∀ e ∈ cp.htlcs, e.1.Fits) ∧
      ∀ e ∈ cp.htlcs, ∀ v ∈ e.2, v < 2 ^ 32)
    ⟨fun ⟨h1, h2, h3⟩ => ⟨h1, h2, h3⟩, fun ⟨h1, h2, h3⟩ => ⟨h1, h2, h3⟩⟩

instance (m : ChannelMonitor) : Decidable m.Words :=
  decidable_of_iff (m.fundingOutpoint.vout < 2 ^ 32 ∧ m.capacitySat < 2 ^ 64 ∧
      m.obscureFactor < 2 ^ 64 ∧ m.holderSelectedDelay < 2 ^ 16 ∧
      m.counterpartySelectedDelay < 2 ^ 16 ∧
      (∀ e ∈ m.counterpartySecrets.entries, e.1 < 2 ^ 64) ∧ (∀ cp ∈ m.counterpartyCurrent, cp.Words) ∧
      (∀ hc ∈ m.holderCommitment, hc.Words) ∧ m.holderCommitmentFeerate < 2 ^ 32)
    ⟨fun ⟨h1, h2, h3, h4, h5, h6, h7, h8, h9⟩ => ⟨h1, h2, h3, h4, h5, h6, h7, h8, h9⟩,
      fun ⟨h1, h2, h3, h4, h5, h6, h7, h8, h9⟩ => ⟨h1, h2, h3, h4, h5, h6, h7, h8, h9⟩⟩

/-- Every string of the right size is a key or a signature. -/
def KeyParsers.bySize : KeyParsers where
  fromSlice b := if h : b.length = 33 then some ⟨⟨b.toArray, h⟩⟩ else none
  fromCompact b := if h : b.length = 64 then some ⟨⟨b.toArray, h⟩⟩ else none

theorem ChannelMonitor.keysRoundTrip_bySize (m : ChannelMonitor) : m.KeysRoundTrip .bySize where
  pubkeys pk _ := by
    refine (dif_pos pk.length_serialize).trans (congrArg some (PublicKey.serialize_inj ?_))
    simp [PublicKey.serialize]
  signatures sig _ := by
    obtain ⟨bytes⟩ := sig
    refine (dif_pos (Signature.length_serializeCompact ⟨bytes⟩)).trans ?_
    exact congrArg (fun v => some (Signature.mk v)) (Vector.toList_inj.1 (by simp [Signature.serializeCompact]))

namespace Channel

/-- The receiver of a payment, who learned the preimage. -/
theorem monitor_persists_demo :
    ∃ tr ch m, Run (step Demo.C) Demo.bob.1 tr ch ∧ ch.htlcs.length = 1 ∧
      ChannelMonitor.fromChannel ch = some m ∧
      (m.withPreimages Demo.C [Demo.bytes 3]).Persists Demo.C .bySize := by
  obtain ⟨tr, ch, hr, ⟨hlen, hmon⟩, hd⟩ := Demo.exists_chan
    (Demo.handshake ++ Demo.payment) .b
    (fun ch => ch.htlcs.length = 1 ∧ (ChannelMonitor.fromChannel ch).any (decide ·.Words) = true)
    (by decide +kernel)
  have hd' : ∀ x ∈ tr, x.1 ≠ .disconnect := fun x hx hxd => by
    have hmem := hd x hx hxd
    simp [Demo.handshake, Demo.payment] at hmem
  obtain ⟨m, hm, hw⟩ := (Option.any_eq_true _ _).1 hmon
  have hiff := monitor_persists_iff Demo.bob_fresh hr hm (of_decide_eq_true hw)
    m.keysRoundTrip_bySize [Demo.bytes 3]
  exact ⟨tr, ch, m, hr, hlen, hm, hiff.1.2 ⟨by decide, hiff.2 hd' (by decide)⟩⟩

end Channel

namespace Demo

/-- The last two bytes of a number are the end of its checksum. -/
theorem foldl_beBytes_low {a : Nat} (ha : a < 65536) (w acc : Nat) :
    (Bytes.beBytes (w + 2) a).foldl (fun acc b => acc * 257 + b.toNat + 1) acc =
      (Bytes.beBytes (w + 2) 0).foldl (fun acc b => acc * 257 + b.toNat + 1) acc +
        (a / 256 * 257 + a % 256) := by
  induction w generalizing acc with
  | zero =>
    simp only [Bytes.beBytes, List.foldl_cons, List.foldl_nil, UInt8.toNat_ofNat']
    omega
  | succ w ih =>
    have hhead : a / 256 ^ (w + 2) = 0 := by
      have hpow : 256 ^ 2 ≤ 256 ^ (w + 2) := Nat.pow_le_pow_right (by decide) (by omega)
      exact Nat.div_eq_of_lt (by omega)
    show (UInt8.ofNat (a / 256 ^ (w + 2)) :: Bytes.beBytes (w + 2) a).foldl _ _ =
      (UInt8.ofNat (0 / 256 ^ (w + 2)) :: Bytes.beBytes (w + 2) 0).foldl _ _ + _
    rw [hhead, Nat.zero_div, List.foldl_cons, List.foldl_cons, ih]

/-- Numbers below 65536 have different hashes. -/
theorem paymentHash_bytes_inj {a b : Nat} (ha : a < 65536) (hb : b < 65536)
    (h : paymentHash C (bytes a) = paymentHash C (bytes b)) : a = b := by
  have hmod : ∀ x y, Crypto.Transparent.ofNat 32 x = Crypto.Transparent.ofNat 32 y →
      x % 256 ^ 32 = y % 256 ^ 32 := by
    intro x y hxy
    have hbytes : Bytes.beBytes 32 x = Bytes.beBytes 32 y := congrArg Vector.toList hxy
    rw [← Bytes.beVal_beBytes, hbytes, Bytes.beVal_beBytes]
  have hsum : ∀ n, n < 65536 → Crypto.Transparent.checksum (bytes n).toList =
      Crypto.Transparent.checksum (Bytes.beBytes 32 0) + (n / 256 * 257 + n % 256) :=
    fun n hn => foldl_beBytes_low hn 30 0
  have hsmall : ∀ n, n < 65536 → n / 256 * 257 + n % 256 < 256 ^ 32 := by omega
  have heq := hmod _ _ h
  rw [hsum a ha, hsum b hb] at heq
  have hlow := Nat.ModEq.add_left_cancel' _ heq
  rw [Nat.ModEq, Nat.mod_eq_of_lt (hsmall a ha), Nat.mod_eq_of_lt (hsmall b hb)] at hlow
  clear heq
  omega

end Demo

/-- Every channel can outgrow its monitor: after 65536 payments the file is refused. -/
theorem Channel.monitor_outgrown :
    ∃ tr ch m ps, Run (step Demo.C) Demo.bob.1 tr ch ∧ ch.Sized ∧
      ChannelMonitor.fromChannel ch = some m ∧ m.Words ∧
      ¬ (m.withPreimages Demo.C ps).CountsFit ∧
      ∀ m', ChannelMonitor.deserialize Demo.C .bySize (m.withPreimages Demo.C ps).serialize ≠ .ok m' := by
  obtain ⟨tr, ch, hr, hmon, hd⟩ := Demo.exists_chan Demo.handshake .b
    (fun ch => (ChannelMonitor.fromChannel ch).any (decide ·.Words) = true) (by decide +kernel)
  have hd' : ∀ x ∈ tr, x.1 ≠ .disconnect := fun x hx hxd => by
    have hmem := hd x hx hxd
    simp [Demo.handshake] at hmem
  obtain ⟨m, hm, hw⟩ := (Option.any_eq_true _ _).1 hmon
  have hwords : m.Words := of_decide_eq_true hw
  have hsized : ch.Sized :=
    (few_htlcs Demo.bob_fresh (by decide) hr hd').sized (KeepsHolder.of_run Demo.bob_fresh hr).kept
  have hnodup : (((List.range 65536).map Demo.bytes).map (paymentHash Demo.C)).Nodup := by
    rw [List.map_map]
    refine List.Nodup.map_on (fun a ha b hb h => ?_) List.nodup_range
    exact Demo.paymentHash_bytes_inj (List.mem_range.1 ha) (List.mem_range.1 hb) h
  have hlen : (m.withPreimages Demo.C ((List.range 65536).map Demo.bytes)).preimages.entries.length =
      65536 := by
    rw [ChannelMonitor.length_withPreimages (ChannelMonitor.fromChannel_eq hm).2.2.2, hnodup.dedup,
      List.length_map, List.length_map, List.length_range]
  refine ⟨tr, ch, m, (List.range 65536).map Demo.bytes, hr, hsized, hm, hwords, fun hfit => ?_, fun m' hread => ?_⟩
  · have hpre := hfit.preimages
    rw [PreimageMap.values, List.length_map, hlen] at hpre
    exact absurd hpre (by decide)
  · have hpre := ((snapshot_of_run Demo.bob_fresh hr hm _).counted
      (counted_withPreimages (hsized.counted hm hwords) _) (ChannelMonitor.keysRoundTrip_bySize _)
      hread).2
    rw [hlen] at hpre
    exact absurd hpre (by decide)
