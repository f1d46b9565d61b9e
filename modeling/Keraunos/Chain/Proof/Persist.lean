import Keraunos.Bitcoin.Proof.Codec
import Keraunos.Shachain.Proof.Sound
import Keraunos.Chain.Persist

/-!
# A monitor survives persistence

`ChannelMonitor.Fits`: integers fit their words, lists and byte strings their length fields, and
the holder transaction the limits of the transaction parser. What such a monitor serialises to is
read back as that monitor (`deserialize_serialize`).
-/

open Bytes Parse Bitcoin Commitment

namespace Persist

/-! ## Primitives -/

/-- A word keeps what fits it. -/
theorem reads_uint_mod (w v : Nat) : Reads (R.uint w) (beBytes w v) (v % 256 ^ w) := by
  have hr := Reads.last (g := beVal) (reads_take (length_beBytes w v))
  rwa [beVal_beBytes] at hr

theorem reads_uint {w v : Nat} (h : v < 256 ^ w) : Reads (R.uint w) (beBytes w v) v := by
  have hr := reads_uint_mod w v
  rwa [Nat.mod_eq_of_lt h] at hr

theorem reads_u8 {v : Nat} (h : v < 2 ^ 8) : Reads R.u8 (W.u8 v) v := reads_uint (w := 1) h
theorem reads_u16 {v : Nat} (h : v < 2 ^ 16) : Reads R.u16 (W.u16 v) v := reads_uint (w := 2) h
theorem reads_u32 {v : Nat} (h : v < 2 ^ 32) : Reads R.u32 (W.u32 v) v := reads_uint (w := 4) h
theorem reads_u64 {v : Nat} (h : v < 2 ^ 64) : Reads R.u64 (W.u64 v) v := reads_uint (w := 8) h

theorem reads_varBytes {b : List UInt8} (h : b.length < 2 ^ 16) : Reads R.varBytes (W.varBytes b) b :=
  (reads_u16 h).bind (reads_take rfl)

theorem reads_list {α : Type} {f : Reader α} {w : α → List UInt8} {xs : List α}
    (hlen : xs.length < 2 ^ 16) (h : ∀ x ∈ xs, Reads f (w x) x) :
    Reads (R.list f) (W.list w xs) xs :=
  (reads_u16 hlen).bind (Reads.times h)

theorem reads_opt {α : Type} {f : Reader α} {w : α → List UInt8} {x : Option α}
    (h : ∀ a ∈ x, Reads f (w a) a) : Reads (R.opt f) (W.opt w x) x := by
  cases x with
  | none =>
    have hr := (reads_u8 (v := 0) (by decide)).bind (v := []) (b := (none : Option α))
      (f := fun tag => if tag = 0 then pure none
        else if tag = 1 then do return some (← f) else throw (.badFormat "invalid option tag"))
      (Reads.pure none)
    rwa [List.append_nil] at hr
  | some a =>
    refine (reads_u8 (v := 1) (by decide)).bind ?_
    exact (h a rfl).last

section
variable {K : KeyParsers}

theorem reads_pubkey {pk : PublicKey} (h : K.fromSlice pk.serialize = some pk) :
    Reads (R.pubkey K) (W.pubkey pk) pk := by
  intro s
  rw [R.pubkey, W.pubkey, PublicKey.serialize, run_bind_ok (reads_array pk.bytes s),
    show K.fromSlice pk.bytes.toList = some pk from h]
  rfl

theorem reads_sig {sig : Signature} (h : K.fromCompact sig.serializeCompact = some sig) :
    Reads (R.sig K) (W.sig sig) sig := by
  intro s
  rw [R.sig, W.sig, Signature.serializeCompact, run_bind_ok (reads_array sig.bytes s),
    show K.fromCompact sig.bytes.toList = some sig from h]
  rfl

end

end Persist

/-! ## Monitors that fit their encoding -/

def ChannelPublicKeys.keys (pk : ChannelPublicKeys) : List PublicKey :=
  [pk.fundingPubkey, pk.revocationBasepoint, pk.paymentBasepoint, pk.delayedPaymentBasepoint,
    pk.htlcBasepoint]

def TxCreationKeys.keys (k : TxCreationKeys) : List PublicKey :=
  [k.perCommitmentPoint, k.revocationKey, k.broadcasterHtlcKey, k.countersignatoryHtlcKey,
    k.broadcasterDelayedPaymentKey]

structure Commitment.HtlcOutputInCommitment.Fits (h : HtlcOutputInCommitment) : Prop where
  amount : h.amountMsat < 2 ^ 64
  expiry : h.cltvExpiry < 2 ^ 32

structure CounterpartyCommitmentData.Fits (cp : CounterpartyCommitmentData) : Prop where
  number : cp.number < 2 ^ 64
  htlcs : cp.htlcs.length < 2 ^ 16
  htlc : ∀ e ∈ cp.htlcs, e.1.Fits
  vout : ∀ e ∈ cp.htlcs, ∀ v ∈ e.2, v < 2 ^ 32

structure Commitment.BuiltCommitmentTx.Fits (b : BuiltCommitmentTx) : Prop where
  tx : b.tx.serialize.length < 2 ^ 16
  fee : b.feeSat < 2 ^ 64
  indices : b.htlcOutputIndices.length < 2 ^ 16
  index : ∀ i ∈ b.htlcOutputIndices, ∀ v ∈ i, v < 2 ^ 32
  order : b.htlcsInOutputOrder.length < 2 ^ 16
  script : ∀ e ∈ b.htlcsInOutputOrder, e.2.length < 2 ^ 16
  broadcaster : ∀ v ∈ b.toBroadcasterIndex, v < 2 ^ 32
  countersignatory : ∀ v ∈ b.toCountersignatoryIndex, v < 2 ^ 32

structure HolderCommitment.Fits (hc : HolderCommitment) : Prop where
  number : hc.number < 2 ^ 64
  built : hc.built.Fits
  sigs : hc.counterpartyHtlcSigs.length < 2 ^ 16
  htlcs : hc.htlcs.length < 2 ^ 16
  htlc : ∀ h ∈ hc.htlcs, h.Fits
  feerate : hc.feerate < 2 ^ 32

/-- Integers fit their words, lists and byte strings their length fields. -/
structure ChannelMonitor.Fits (m : ChannelMonitor) : Prop where
  vout : m.fundingOutpoint.vout < 2 ^ 32
  capacity : m.capacitySat < 2 ^ 64
  obscure : m.obscureFactor < 2 ^ 64
  holderDelay : m.holderSelectedDelay < 2 ^ 16
  counterpartyDelay : m.counterpartySelectedDelay < 2 ^ 16
  index : ∀ e ∈ m.counterpartySecrets.entries, e.1 < 2 ^ 64
  current : ∀ cp ∈ m.counterpartyCurrent, cp.Fits
  holder : ∀ hc ∈ m.holderCommitment, hc.Fits
  feerate : m.holderCommitmentFeerate < 2 ^ 32
  preimages : m.preimages.entries.length < 2 ^ 16

/-- What the rest of the code keeps of a monitor: the txid is that of the transaction, preimages
are keyed by their hash, secrets sit in the bucket of their index. -/
structure ChannelMonitor.Coherent (C : Crypto) (m : ChannelMonitor) : Prop where
  txid : ∀ hc ∈ m.holderCommitment, hc.built.txid = hc.built.tx.txid C
  keyed : ∀ e ∈ m.preimages.entries, e.1 = paymentHash C e.2
  bucket : ∀ t e, m.counterpartySecrets.slot t = some e → Shachain.SecretStore.bucket e.1 = t

/-- The holder transaction is within the limits of the transaction parser, and its HTLC indices
are 16-bit. -/
structure ChannelMonitor.Readable (m : ChannelMonitor) : Prop where
  tx : ∀ hc ∈ m.holderCommitment, hc.built.tx.Parseable
  htlcIndex : ∀ hc ∈ m.holderCommitment, ∀ e ∈ hc.built.htlcsInOutputOrder, e.1 < 2 ^ 16

def ChannelMonitor.pubkeys (m : ChannelMonitor) : List PublicKey :=
  m.holderPubkeys.keys ++ m.counterpartyPubkeys.keys ++
    m.counterpartyCurrent.toList.map (·.perCommitmentPoint) ++
    m.holderCommitment.toList.flatMap (·.keys.keys)

def ChannelMonitor.signatures (m : ChannelMonitor) : List Signature :=
  m.holderCommitment.toList.flatMap fun hc => hc.counterpartySig :: hc.counterpartyHtlcSigs

/-- The monitor's keys and signatures round-trip through their serialisation. -/
structure ChannelMonitor.KeysRoundTrip (K : KeyParsers) (m : ChannelMonitor) : Prop where
  pubkeys : ∀ pk ∈ m.pubkeys, K.fromSlice pk.serialize = some pk
  signatures : ∀ sig ∈ m.signatures, K.fromCompact sig.serializeCompact = some sig

/-! ## Parts -/

namespace Persist

section
variable {K : KeyParsers}

theorem reads_pubkeys {pk : ChannelPublicKeys}
    (h : ∀ k ∈ pk.keys, K.fromSlice k.serialize = some k) :
    Reads (readPubkeys K) (writePubkeys pk) pk := by
  simp only [ChannelPublicKeys.keys, List.forall_mem_cons] at h
  obtain ⟨hf, hr, hp, hd, hh, -⟩ := h
  unfold writePubkeys
  simp only [List.append_assoc]
  exact (reads_pubkey hf).bind <| (reads_pubkey hr).bind <| (reads_pubkey hp).bind <|
    (reads_pubkey hd).bind (reads_pubkey hh).last

theorem reads_keys {k : TxCreationKeys} (h : ∀ pk ∈ k.keys, K.fromSlice pk.serialize = some pk) :
    Reads (readKeys K) (writeKeys k) k := by
  simp only [TxCreationKeys.keys, List.forall_mem_cons] at h
  obtain ⟨hp, hr, hb, hc, hd, -⟩ := h
  unfold writeKeys
  simp only [List.append_assoc]
  exact (reads_pubkey hp).bind <| (reads_pubkey hr).bind <| (reads_pubkey hb).bind <|
    (reads_pubkey hc).bind (reads_pubkey hd).last

theorem reads_htlc {h : HtlcOutputInCommitment} (hf : h.Fits) : Reads readHtlc (writeHtlc h) h := by
  have htag : (if h.offered then 1 else 0) < 2 ^ 8 := by split <;> decide
  have hoff : (decide ((if h.offered then 1 else 0) = 1)) = h.offered := by cases h.offered <;> rfl
  unfold writeHtlc
  simp only [List.append_assoc]
  refine (reads_u8 htag).bind <| (reads_u64 hf.amount).bind <| (reads_u32 hf.expiry).bind ?_
  rw [hoff]
  exact (reads_array h.paymentHash).last

theorem reads_secret {e : Nat × Bytes32} (h : e.1 < 2 ^ 64) : Reads readSecret (writeSecret e) e :=
  (reads_u64 h).bind (reads_array e.2).last

theorem reads_counterparty {cp : CounterpartyCommitmentData} (h : cp.Fits)
    (hk : K.fromSlice cp.perCommitmentPoint.serialize = some cp.perCommitmentPoint) :
    Reads (readCounterparty K) (writeCounterparty cp) cp := by
  unfold writeCounterparty
  simp only [List.append_assoc]
  refine (reads_u64 h.number).bind <| (reads_array cp.txid).bind <| (reads_pubkey hk).bind <|
    Reads.last (reads_list h.htlcs ?_)
  intro e he
  exact (reads_htlc (h.htlc e he)).bind
    (reads_opt fun v hv => reads_u32 (h.vout e he v hv)).last

theorem reads_tx {tx : Transaction} (h : tx.Parseable) (hlen : tx.serialize.length < 2 ^ 16) :
    Reads readTx (W.varBytes tx.serialize) tx := by
  intro s
  rw [readTx, run_bind_ok (reads_varBytes hlen s), Transaction.deserialize_serialize h hlen]
  rfl

theorem reads_built {C : Crypto} {b : BuiltCommitmentTx} (h : b.Fits) (htx : b.tx.Parseable)
    (hidx : ∀ e ∈ b.htlcsInOutputOrder, e.1 < 2 ^ 16) (hid : b.txid = b.tx.txid C) :
    Reads (readBuilt C) (writeBuilt b) b := by
  unfold writeBuilt
  simp only [List.append_assoc]
  refine (reads_tx htx h.tx).bind <| (reads_u64 h.fee).bind <|
    (reads_list h.indices fun i hi => reads_opt fun v hv => reads_u32 (h.index i hi v hv)).bind <|
    (reads_list h.order fun e he => ?_).bind <|
    (reads_opt fun v hv => reads_u32 (h.broadcaster v hv)).bind ?_
  · exact (reads_u16 (hidx e he)).bind (reads_varBytes (h.script e he)).last
  · rw [← hid]
    exact (reads_opt fun v hv => reads_u32 (h.countersignatory v hv)).last

theorem reads_holder {C : Crypto} {hc : HolderCommitment} (h : hc.Fits)
    (htx : hc.built.tx.Parseable) (hidx : ∀ e ∈ hc.built.htlcsInOutputOrder, e.1 < 2 ^ 16)
    (hid : hc.built.txid = hc.built.tx.txid C)
    (hk : ∀ pk ∈ hc.keys.keys, K.fromSlice pk.serialize = some pk)
    (hs : ∀ sig ∈ hc.counterpartySig :: hc.counterpartyHtlcSigs,
      K.fromCompact sig.serializeCompact = some sig) :
    Reads (readHolder K C) (writeHolder hc) hc := by
  unfold writeHolder
  simp only [List.append_assoc]
  exact (reads_u64 h.number).bind <| (reads_built h.built htx hidx hid).bind <|
    (reads_sig (hs _ List.mem_cons_self)).bind <|
    (reads_list h.sigs fun s hsig => reads_sig (hs s (List.mem_cons_of_mem _ hsig))).bind <|
    (reads_list h.htlcs fun x hx => reads_htlc (h.htlc x hx)).bind <| (reads_keys hk).bind
    (reads_u32 h.feerate).last

end

end Persist

/-! ## Preimages -/

namespace PreimageMap

theorem insert_new {m : PreimageMap} {hash : PaymentHash} {p : PaymentPreimage}
    (h : hash ∉ m.entries.map Prod.fst) : (m.insert hash p).entries = m.entries ++ [(hash, p)] := by
  rw [insert, dif_neg h]

/-- Inserting the values of a map keyed by their hashes rebuilds the map. -/
theorem foldl_insert {C : Crypto} (es : List (PaymentHash × PaymentPreimage)) (m : PreimageMap)
    (hk : ∀ e ∈ es, e.1 = paymentHash C e.2)
    (hn : ((m.entries ++ es).map Prod.fst).Nodup) :
    ((es.map Prod.snd).foldl (fun m p => m.insert (paymentHash C p) p) m).entries =
      m.entries ++ es := by
  induction es generalizing m with
  | nil => simp
  | cons e es ih =>
    have he := hk e List.mem_cons_self
    have hnew : e.1 ∉ m.entries.map Prod.fst := by
      rw [List.map_append, List.nodup_append] at hn
      exact fun hmem => hn.2.2 _ hmem e.1 (by simp) rfl
    have hins : (m.insert (paymentHash C e.2) e.2).entries = m.entries ++ [e] := by
      rw [← he]
      exact insert_new hnew
    have hrest := ih (m.insert (paymentHash C e.2) e.2) (fun x hx => hk x (List.mem_cons_of_mem _ hx))
      (by rw [hins]; simpa using hn)
    rw [hins] at hrest
    simpa using hrest

theorem ext {m m' : PreimageMap} (h : m.entries = m'.entries) : m = m' := by
  cases m
  cases m'
  congr

theorem foldl_insert_values {C : Crypto} {m : PreimageMap}
    (hk : ∀ e ∈ m.entries, e.1 = paymentHash C e.2) :
    m.values.foldl (fun m p => m.insert (paymentHash C p) p) .empty = m := by
  apply ext
  exact foldl_insert m.entries .empty hk m.nodup

end PreimageMap

/-! ## The round trip -/

namespace ChannelMonitor

open Persist

/-- A store has 49 buckets. -/
theorem length_entries (st : Shachain.SecretStore) : st.entries.length < 2 ^ 16 := by
  have hle := List.length_filterMap_le id st.known.toList
  rw [Vector.length_toList] at hle
  exact Nat.lt_of_le_of_lt hle (by decide)

/-- The holder commitment that fits is read back. -/
theorem reads_holderCommitment {C : Crypto} {K : KeyParsers} {m : ChannelMonitor}
    (hfit : ∀ hc ∈ m.holderCommitment, hc.Fits) (hco : m.Coherent C) (hr : m.Readable)
    (hk : m.KeysRoundTrip K) :
    Reads (R.opt (readHolder K C)) (W.opt writeHolder m.holderCommitment) m.holderCommitment := by
  refine reads_opt fun hc hhc => reads_holder (hfit hc hhc) (hr.tx hc hhc) (hr.htlcIndex hc hhc)
    (hco.txid hc hhc) ?_ ?_
  · intro pk hpk
    refine hk.pubkeys pk (List.mem_append_right _ ?_)
    exact List.mem_flatMap.2 ⟨hc, Option.mem_toList.2 hhc, hpk⟩
  · intro sig hsig
    exact hk.signatures sig (List.mem_flatMap.2 ⟨hc, Option.mem_toList.2 hhc, hsig⟩)

theorem reads_read {C : Crypto} {K : KeyParsers} {m : ChannelMonitor} (hfit : m.Fits)
    (hco : m.Coherent C) (hr : m.Readable) (hk : m.KeysRoundTrip K) :
    Reads (read C K) m.serialize m := by
  have hpk := hk.pubkeys
  simp only [pubkeys, List.forall_mem_append] at hpk
  obtain ⟨⟨⟨hhold, hcp⟩, hcur⟩, -⟩ := hpk
  unfold serialize read
  simp only [List.append_assoc]
  refine (Persist.reads_u8 (by decide)).bind ?_
  rw [if_neg (by simp)]
  refine (reads_array m.fundingOutpoint.txid).bind <| (reads_u32 hfit.vout).bind <|
    (reads_u64 hfit.capacity).bind <| (reads_u64 hfit.obscure).bind <|
    (reads_pubkeys hhold).bind <| (reads_pubkeys hcp).bind <| (reads_u16 hfit.holderDelay).bind <|
    (reads_u16 hfit.counterpartyDelay).bind <|
    (reads_list (length_entries _) fun e he => reads_secret (hfit.index e he)).bind <|
    (reads_opt fun cp hcp => reads_counterparty (hfit.current cp hcp) (hcur _ ?_)).bind <|
    (reads_holderCommitment hfit.holder hco hr hk).bind <| (reads_u32 hfit.feerate).bind <|
    Reads.last_eq (reads_list ?_ fun p _ => reads_array p) ?_
  · exact List.mem_map.2 ⟨cp, Option.mem_toList.2 hcp, rfl⟩
  · rw [PreimageMap.values, List.length_map]
    exact hfit.preimages
  · rw [Shachain.fromEntries_entries hco.bucket, PreimageMap.foldl_insert_values hco.keyed]

/-- A monitor that fits its encoding is read back in every field. -/
theorem persist_round_trip (C : Crypto) (K : KeyParsers) (m : ChannelMonitor) (hfit : m.Fits)
    (hco : m.Coherent C) (hr : m.Readable) (hk : m.KeysRoundTrip K) :
    deserialize C K m.serialize = .ok m := by
  have hall := (reads_read hfit hco hr hk).all
  rw [deserialize, hall]
  rfl

/-! ## What a successful read says

A length or a count that does not fit its field is written modulo `2 ^ 16`. A transaction cut that
way is refused, and preimages that are not counted are trailing bytes. -/

theorem reads_u16_mod (v : Nat) : Reads R.u16 (W.u16 v) (v % 2 ^ 16) := reads_uint_mod 2 v

/-- A transaction longer than its 16-bit length field is not read back. -/
theorem length_of_readTx {tx tx' : Transaction} {s s' : List UInt8} (h : tx.Parseable)
    (hb : tx.Bounded) (hr : readTx.run (W.varBytes tx.serialize ++ s) = .ok (tx', s')) :
    tx.serialize.length < 2 ^ 16 := by
  by_contra hlen
  have hcut : tx.serialize.length % 2 ^ 16 < tx.serialize.length := by omega
  revert hcut
  generalize hn : tx.serialize.length % 2 ^ 16 = n
  intro hcut
  have hbytes : R.varBytes.run (W.varBytes tx.serialize ++ s) =
      .ok (tx.serialize.take n, tx.serialize.drop n ++ s) := by
    rw [W.varBytes, List.append_assoc, R.varBytes, run_bind_ok (reads_u16_mod _ _), hn]
    conv_lhs => rw [← List.take_append_drop n tx.serialize, List.append_assoc]
    exact Reads.take (by rw [List.length_take]; omega) _
  rw [readTx, run_bind_ok hbytes] at hr
  cases hd : Transaction.deserialize (tx.serialize.take n) with
  | error e =>
    rw [hd] at hr
    cases hr
  | ok t => exact Transaction.deserialize_take h hb hcut t hd

/-- A list of fixed-size strings that is read to the end was counted right. -/
theorem length_of_times_array {w n : Nat} {s s' : List UInt8} {xs : List (Vector UInt8 w)}
    (h : (times (Reader.array w) n).run s = .ok (xs, s')) : s.length = w * n + s'.length := by
  induction n generalizing s xs with
  | zero =>
    cases h
    simp
  | succ n ih =>
    obtain ⟨a, s1, h1, h2⟩ := of_run_bind h
    obtain ⟨as, h3, -⟩ := of_run_last h2
    have hlen := ih h3
    simp only [Reader.array, StateT.run] at h1
    split at h1
    · cases h1
    · cases h1
      rw [List.length_drop] at hlen
      rw [Nat.mul_succ]
      omega

/-- What is written before the holder commitment fits. -/
structure HeadFits (m : ChannelMonitor) : Prop where
  vout : m.fundingOutpoint.vout < 2 ^ 32
  capacity : m.capacitySat < 2 ^ 64
  obscure : m.obscureFactor < 2 ^ 64
  holderDelay : m.holderSelectedDelay < 2 ^ 16
  counterpartyDelay : m.counterpartySelectedDelay < 2 ^ 16
  index : ∀ e ∈ m.counterpartySecrets.entries, e.1 < 2 ^ 64
  current : ∀ cp ∈ m.counterpartyCurrent, cp.Fits

section
variable {C : Crypto} {K : KeyParsers} {m m' : ChannelMonitor}

/-- A monitor that is read back: what follows the counterparty's data is read. -/
theorem run_of_deserialize (hfit : m.HeadFits) (hk : m.KeysRoundTrip K)
    (h : deserialize C K m.serialize = .ok m') :
    ∃ hc s, (R.opt (readHolder K C)).run (W.opt writeHolder m.holderCommitment ++
        (W.u32 m.holderCommitmentFeerate ++ W.list Vector.toList m.preimages.values)) = .ok (hc, s) ∧
      ∃ fee s' ps, R.u32.run s = .ok (fee, s') ∧
        (R.list (Reader.array 32)).run s' = .ok (ps, []) := by
  have hpk := hk.pubkeys
  simp only [pubkeys, List.forall_mem_append] at hpk
  obtain ⟨⟨⟨hhold, hcp⟩, hcur⟩, -⟩ := hpk
  have hrun : (read C K).run m.serialize = .ok (m', []) := by
    unfold deserialize at h
    cases hr : (read C K).run m.serialize with
    | error e =>
      rw [hr] at h
      cases h
    | ok r =>
      rw [hr] at h
      simp only [bind, Except.bind] at h
      split at h
      · next he =>
        cases h
        rw [← List.isEmpty_iff.1 he]
      · cases h
  unfold serialize read at hrun
  simp only [List.append_assoc] at hrun
  have h1 := (Persist.reads_u8 (v := version) (by decide)).of_run hrun
  rw [if_neg (by simp)] at h1
  have h2 := (reads_array m.fundingOutpoint.txid).of_run h1
  have h3 := (reads_u32 hfit.vout).of_run h2
  have h4 := (reads_u64 hfit.capacity).of_run h3
  have h5 := (reads_u64 hfit.obscure).of_run h4
  have h6 := (reads_pubkeys hhold).of_run h5
  have h7 := (reads_pubkeys hcp).of_run h6
  have h8 := (reads_u16 hfit.holderDelay).of_run h7
  have h9 := (reads_u16 hfit.counterpartyDelay).of_run h8
  have h10 := (reads_list (length_entries _) fun e he => reads_secret (hfit.index e he)).of_run h9
  have h11 := (reads_opt fun cp hcp => reads_counterparty (hfit.current cp hcp)
    (hcur _ (List.mem_map.2 ⟨cp, Option.mem_toList.2 hcp, rfl⟩))).of_run h10
  obtain ⟨hc, s, h12, h13⟩ := of_run_bind h11
  obtain ⟨fee, s', h14, h15⟩ := of_run_bind h13
  obtain ⟨ps, h16, -⟩ := of_run_last h15
  exact ⟨hc, s, h12, fee, s', ps, h14, h16⟩

/-- The holder transaction fits its length field. -/
theorem tx_short_of_deserialize (hfit : m.HeadFits) (hk : m.KeysRoundTrip K)
    (h : deserialize C K m.serialize = .ok m') {hc : HolderCommitment}
    (hhc : m.holderCommitment = some hc) (hn : hc.number < 2 ^ 64) (htx : hc.built.tx.Parseable)
    (hb : hc.built.tx.Bounded) : hc.built.tx.serialize.length < 2 ^ 16 := by
  obtain ⟨_, s, hr, -⟩ := run_of_deserialize hfit hk h
  rw [hhc] at hr
  simp only [W.opt, writeHolder, writeBuilt, List.append_assoc] at hr
  have h1 := (Persist.reads_u8 (v := 1) (by decide)).of_run hr
  rw [if_neg (by decide), if_pos rfl] at h1
  obtain ⟨_, h2, -⟩ := of_run_last h1
  have h3 := (reads_u64 hn).of_run h2
  obtain ⟨_, _, h4, -⟩ := of_run_bind h3
  obtain ⟨_, _, h5, -⟩ := of_run_bind h4
  exact length_of_readTx htx hb h5

/-- The preimages fit their count. -/
theorem preimages_short_of_deserialize (hfit : m.HeadFits) (hk : m.KeysRoundTrip K)
    (h : deserialize C K m.serialize = .ok m')
    (hh : Reads (R.opt (readHolder K C)) (W.opt writeHolder m.holderCommitment) m.holderCommitment)
    (hfee : m.holderCommitmentFeerate < 2 ^ 32) : m.preimages.entries.length < 2 ^ 16 := by
  obtain ⟨_, s, hr, _, s', ps, h1, h2⟩ := run_of_deserialize hfit hk h
  rw [hh _] at hr
  cases hr
  rw [reads_u32 hfee _] at h1
  cases h1
  rw [W.list] at h2
  have h3 := (reads_u16_mod _).of_run h2
  have hlen := length_of_times_array h3
  have hflat : (m.preimages.values.flatMap Vector.toList).length = 32 * m.preimages.values.length := by
    simp [List.length_flatMap, Nat.mul_comm]
  rw [hflat] at hlen
  simp only [PreimageMap.values, List.length_map, List.length_nil] at hlen
  omega

end

namespace Sample

/-- The generator of the curve, compressed. -/
def key : PublicKey :=
  ⟨Crypto.Transparent.ofNat 33 0x0279be667ef9dcbbac55a06295ce870b07029bfcdb2dce28d959f2815b16f81798⟩

def input : TxIn := ⟨⟨Vector.replicate 32 1, 0⟩, [], 0x80000000, []⟩

def tx (inputs : List TxIn) : Transaction := ⟨2, 0x20000000, inputs, [⟨50000, [0, 1]⟩]⟩

/-- A monitor with one HTLC, whose holder transaction has the given inputs. -/
def monitor (inputs : List TxIn) (htlcIdx : Nat) : ChannelMonitor where
  fundingOutpoint := ⟨Vector.replicate 32 1, 0⟩
  capacitySat := 100000
  obscureFactor := 7
  holderPubkeys := ⟨key, key, key, key, key⟩
  counterpartyPubkeys := ⟨key, key, key, key, key⟩
  holderSelectedDelay := 144
  counterpartySelectedDelay := 144
  counterpartySecrets := .new
  counterpartyCurrent := none
  holderCommitment := some {
    number := 0
    built := {
      tx := tx inputs
      txid := (tx inputs).txid Crypto.transparent
      feeSat := 1000
      htlcOutputIndices := [some 0]
      htlcsInOutputOrder := [(htlcIdx, [0, 1])]
      toBroadcasterIndex := none
      toCountersignatoryIndex := none }
    counterpartySig := ⟨Vector.replicate 64 7⟩
    counterpartyHtlcSigs := [⟨Vector.replicate 64 7⟩]
    htlcs := [⟨true, 50000000, 500000, Vector.replicate 32 9⟩]
    keys := ⟨key, key, key, key, key⟩
    feerate := 1000 }
  holderCommitmentFeerate := 1000
  preimages := .empty

theorem fits (inputs : List TxIn) (i : Nat) (h : (tx inputs).serialize.length < 2 ^ 16) :
    (monitor inputs i).Fits where
  vout := Nat.le_of_ble_eq_true rfl
  capacity := Nat.le_of_ble_eq_true rfl
  obscure := Nat.le_of_ble_eq_true rfl
  holderDelay := Nat.le_of_ble_eq_true rfl
  counterpartyDelay := Nat.le_of_ble_eq_true rfl
  index := by
    intro e he
    obtain ⟨t, ht⟩ := Shachain.mem_entries.1 he
    rw [show (monitor inputs i).counterpartySecrets = .new from rfl, Shachain.slot_new] at ht
    cases ht
  current := by simp [monitor]
  holder := by
    intro hc hhc
    cases hhc
    refine ⟨Nat.le_of_ble_eq_true rfl, ⟨h, Nat.le_of_ble_eq_true rfl, by simp, by simp, by simp,
      by simp, by simp, by simp⟩, by simp, by simp, ?_, Nat.le_of_ble_eq_true rfl⟩
    intro x hx
    obtain rfl := List.mem_singleton.1 hx
    exact ⟨Nat.le_of_ble_eq_true rfl, Nat.le_of_ble_eq_true rfl⟩
  feerate := Nat.le_of_ble_eq_true rfl
  preimages := Nat.le_of_ble_eq_true rfl

theorem coherent (inputs : List TxIn) (i : Nat) : (monitor inputs i).Coherent Crypto.transparent where
  txid := by
    intro hc hhc
    cases hhc
    rfl
  keyed := by simp [monitor, PreimageMap.empty]
  bucket := by
    intro t e he
    rw [show (monitor inputs i).counterpartySecrets = .new from rfl, Shachain.slot_new] at he
    cases he

theorem keys (inputs : List TxIn) (i : Nat) :
    (monitor inputs i).KeysRoundTrip KeyParsers.transparent where
  pubkeys := by
    have hkey : KeyParsers.transparent.fromSlice key.serialize = some key := by decide +kernel
    intro pk hpk
    obtain rfl : pk = key := by simpa [pubkeys, monitor, ChannelPublicKeys.keys,
      TxCreationKeys.keys] using hpk
    exact hkey
  signatures := by
    intro sig hsig
    obtain rfl : sig = ⟨Vector.replicate 64 7⟩ := by simpa [signatures, monitor] using hsig
    decide +kernel

theorem readable : (monitor [input] 0).Readable where
  tx := by
    intro hc hhc
    cases hhc
    refine ⟨by decide, by decide, by decide, ?_, ?_⟩
    · intro i hi
      obtain rfl : i = input := by simpa [tx] using hi
      exact ⟨by decide, by decide, by decide, by decide⟩
    · intro o ho
      obtain rfl : o = ⟨50000, [0, 1]⟩ := by simpa [tx] using ho
      exact ⟨by decide, by decide⟩
  htlcIndex := by
    intro hc hhc
    cases hhc
    simp

end Sample

theorem persist_round_trip_sample :
    deserialize Crypto.transparent KeyParsers.transparent (Sample.monitor [Sample.input] 0).serialize =
      .ok (Sample.monitor [Sample.input] 0) := by
  apply persist_round_trip
  · exact Sample.fits _ _ (by decide +kernel)
  · exact Sample.coherent _ _
  · exact Sample.readable
  · exact Sample.keys _ _

/-- A holder transaction without inputs is refused, and an HTLC index over 16 bits comes back
as another. -/
theorem persist_lossy :
    ((Sample.monitor [] 0).Fits ∧ (Sample.monitor [] 0).Coherent Crypto.transparent ∧
      (Sample.monitor [] 0).KeysRoundTrip KeyParsers.transparent ∧
      deserialize Crypto.transparent KeyParsers.transparent (Sample.monitor [] 0).serialize =
        .error (.badFormat "invalid holder commitment tx")) ∧
    ((Sample.monitor [Sample.input] 65536).Fits ∧
      (Sample.monitor [Sample.input] 65536).Coherent Crypto.transparent ∧
      (Sample.monitor [Sample.input] 65536).KeysRoundTrip KeyParsers.transparent ∧
      deserialize Crypto.transparent KeyParsers.transparent
        (Sample.monitor [Sample.input] 65536).serialize ≠
          .ok (Sample.monitor [Sample.input] 65536)) := by
  refine ⟨⟨Sample.fits _ _ (by decide +kernel), Sample.coherent _ _, Sample.keys _ _, ?_⟩,
    ⟨Sample.fits _ _ (by decide +kernel), Sample.coherent _ _, Sample.keys _ _, ?_⟩⟩
  · decide +kernel
  · decide +kernel

/-! ## The order of the preimages

The preimages are written in the order in which the map is visited, and that is not the same for two
maps with the same entries. -/

/-- The same monitor, with its preimages visited in another order. -/
def Reordered (m m' : ChannelMonitor) : Prop :=
  ∃ preimages : PreimageMap, preimages.entries.Perm m.preimages.entries ∧ m' = { m with preimages }

instance (m m' : ChannelMonitor) : Decidable (Reordered m m') :=
  decidable_of_iff (m'.preimages.entries.Perm m.preimages.entries ∧
      m' = { m with preimages := m'.preimages })
    ⟨fun h => ⟨m'.preimages, h⟩, fun ⟨_, hp, hm⟩ => by subst hm; exact ⟨hp, rfl⟩⟩

/-- What is written before the preimages. -/
theorem serialize_preimages (m : ChannelMonitor) : ∃ front, ∀ preimages : PreimageMap,
    ({ m with preimages } : ChannelMonitor).serialize =
      front ++ W.list Vector.toList preimages.values := by
  refine ⟨W.u8 version ++ m.fundingOutpoint.txid.toList ++ W.u32 m.fundingOutpoint.vout ++
    W.u64 m.capacitySat ++ W.u64 m.obscureFactor ++ writePubkeys m.holderPubkeys ++
    writePubkeys m.counterpartyPubkeys ++ W.u16 m.holderSelectedDelay ++
    W.u16 m.counterpartySelectedDelay ++ W.list writeSecret m.counterpartySecrets.entries ++
    W.opt writeCounterparty m.counterpartyCurrent ++ W.opt writeHolder m.holderCommitment ++
    W.u32 m.holderCommitmentFeerate, fun _ => rfl⟩

/-- A map with at most one entry is visited in one order. -/
theorem Reordered.eq {m m' : ChannelMonitor} (h : Reordered m m')
    (hlen : m.preimages.entries.length ≤ 1) : m' = m := by
  obtain ⟨preimages, hperm, rfl⟩ := h
  have hentries : preimages.entries = m.preimages.entries := by
    have hcases : m.preimages.entries = [] ∨ ∃ e, m.preimages.entries = [e] := by
      match hm : m.preimages.entries with
      | [] => exact .inl rfl
      | [e] => exact .inr ⟨e, rfl⟩
      | _ :: _ :: _ => simp [hm] at hlen
    rcases hcases with hnil | ⟨e, he⟩
    · rw [hnil] at hperm ⊢
      exact List.perm_nil.1 hperm
    · rw [he] at hperm ⊢
      exact List.perm_singleton.1 hperm
  rw [PreimageMap.ext hentries]

/-- Two preimages can be written either way round. -/
theorem exists_reordered {C : Crypto} {m : ChannelMonitor} (hco : m.Coherent C)
    (hlen : 2 ≤ m.preimages.entries.length) : ∃ m', Reordered m m' ∧ m'.serialize ≠ m.serialize := by
  obtain ⟨e, e', rest, hes⟩ : ∃ e e' rest, m.preimages.entries = e :: e' :: rest := by
    match hm : m.preimages.entries with
    | [] | [_] => simp [hm] at hlen
    | e :: e' :: rest => exact ⟨e, e', rest, rfl⟩
  have hkeyed := hco.keyed
  have hnodup := m.preimages.nodup
  rw [hes] at hkeyed hnodup
  have hswap : (e' :: e :: rest).Perm (e :: e' :: rest) := List.Perm.swap _ _ _
  have hnodup' : ((e' :: e :: rest).map Prod.fst).Nodup := (hswap.map _).nodup_iff.2 hnodup
  refine ⟨{ m with preimages := ⟨e' :: e :: rest, hnodup'⟩ }, ⟨_, hes ▸ hswap, rfl⟩, ?_⟩
  intro heq
  obtain ⟨front, hfront⟩ := serialize_preimages m
  have hself : m.serialize = front ++ W.list Vector.toList m.preimages.values := hfront m.preimages
  rw [hself, hfront, List.append_cancel_left_eq] at heq
  simp only [W.list, PreimageMap.values, hes, List.map_cons, List.length_cons, List.flatMap_cons,
    List.append_cancel_left_eq] at heq
  -- The counts agree, so the first preimages are the same.
  have hfirst := List.append_inj_left heq (by simp)
  have hne : e.1 ≠ e'.1 := by
    intro he
    rw [List.map_cons, List.nodup_cons] at hnodup
    exact hnodup.1 (he ▸ List.mem_map_of_mem (List.mem_cons_self ..))
  refine hne ?_
  rw [hkeyed e (by simp), hkeyed e' (by simp), Vector.toList_inj.1 hfirst]

/-- What a monitor is written to depends on no order exactly when it has at most one preimage: neither
of its own map, nor of the map of the monitor that is read back. -/
theorem encoding_stable_iff (C : Crypto) (K : KeyParsers) (m : ChannelMonitor) (hfit : m.Fits)
    (hco : m.Coherent C) (hr : m.Readable) (hk : m.KeysRoundTrip K) :
    ((∀ m', Reordered m m' → m'.serialize = m.serialize) ∧
      ∀ m', deserialize C K m.serialize = .ok m' →
        ∀ m'', Reordered m' m'' → m''.serialize = m.serialize) ↔
      m.preimages.entries.length ≤ 1 := by
  have hback := (reads_read hfit hco hr hk).all
  constructor
  · intro hstable
    by_contra hlen
    obtain ⟨m', hm', hne⟩ := exists_reordered hco (by omega)
    exact hne (hstable.1 m' hm')
  · intro hlen
    refine ⟨fun m' hm' => by rw [hm'.eq hlen], fun m' hread m'' hm'' => ?_⟩
    rw [deserialize, hback] at hread
    obtain rfl : m = m' := Except.ok.inj hread
    rw [hm''.eq hlen]

namespace Sample

def preimage (n : Nat) : PaymentPreimage := Vector.replicate 32 n.toUInt8

/-- The monitor after it learned these preimages. -/
def knowing (preimages : List PaymentPreimage) : ChannelMonitor :=
  preimages.foldl (addPreimage Crypto.transparent) (monitor [input] 0)

end Sample

/-- A monitor with one preimage. -/
theorem encoding_stable_sample :
    (∀ m', Reordered (Sample.knowing [Sample.preimage 3]) m' →
      m'.serialize = (Sample.knowing [Sample.preimage 3]).serialize) ∧
    ∀ m', deserialize Crypto.transparent KeyParsers.transparent
        (Sample.knowing [Sample.preimage 3]).serialize = .ok m' →
      ∀ m'', Reordered m' m'' → m''.serialize = (Sample.knowing [Sample.preimage 3]).serialize := by
  have hfit := Sample.fits [Sample.input] 0 (by decide +kernel)
  have hco := Sample.coherent [Sample.input] 0
  have hk := Sample.keys [Sample.input] 0
  refine (encoding_stable_iff Crypto.transparent KeyParsers.transparent
    (Sample.knowing [Sample.preimage 3]) ?_ ?_ ?_ ⟨hk.pubkeys, hk.signatures⟩).2 (by decide +kernel)
  · exact ⟨hfit.vout, hfit.capacity, hfit.obscure, hfit.holderDelay, hfit.counterpartyDelay, hfit.index,
      hfit.current, hfit.holder, hfit.feerate, by decide +kernel⟩
  · exact ⟨hco.txid, by decide +kernel, hco.bucket⟩
  · have hr := Sample.readable
    exact ⟨hr.tx, hr.htlcIndex⟩

/-- Two preimages visited in the other order give other bytes, also when the monitor was read back. -/
theorem encoding_unstable : ∃ m' m'',
    Reordered (Sample.knowing [Sample.preimage 3, Sample.preimage 4]) m' ∧
    m'.serialize ≠ (Sample.knowing [Sample.preimage 3, Sample.preimage 4]).serialize ∧
    deserialize Crypto.transparent KeyParsers.transparent
      (Sample.knowing [Sample.preimage 3, Sample.preimage 4]).serialize = .ok m'' ∧
    Reordered m'' m' := by
  refine ⟨Sample.knowing [Sample.preimage 4, Sample.preimage 3],
    Sample.knowing [Sample.preimage 3, Sample.preimage 4], ?_, ?_, ?_, ?_⟩ <;> decide +kernel

end ChannelMonitor
