import Keraunos.Chain.Justice
import Keraunos.Chain.Proof.Recognise
import Keraunos.Commitment.Proof.Construction

/-!
# What justice spends

An output of a revoked commitment is spent once for every script that pays to its address, among the
scripts the monitor rebuilds (`count_vouts`). From it follow the two questions about the justice
transaction: when its inputs are distinct (`justice_well_formed_iff`), and when it leaves nothing
revocable behind (`justice_sweeps_iff`).
-/

open Bitcoin Commitment Shachain

namespace Demo

/-- The revocation signatures of `alice`. -/
def signRevocation (digest secret : Bytes32) : Signature :=
  C.signEcdsa ((C.addTweak ⟨bytes 102⟩ secret).getD ⟨secret⟩) digest

/-- Two HTLCs of one hash from `a` to `b`, committed on both sides. -/
def twins : List Pair.Input :=
  [.command .a (.sendAddHtlc 5000000 (paymentHash C (bytes 3)) 100 [] (.outbound (bytes 0))),
    .command .a (.sendAddHtlc 5000000 (paymentHash C (bytes 3)) 100 [] (.outbound (bytes 0))),
    .command .a .sendCommitmentSigned, .deliver .b, .deliver .b, .deliver .b,
    .command .b .sendCommitmentSigned, .deliver .a, .deliver .a, .deliver .b]

end Demo

/-- The outpoints a transaction spends. -/
def Bitcoin.Transaction.spends (tx : Transaction) : List OutPoint := tx.input.map (·.previousOutput)

namespace ChannelMonitor

variable {C : Crypto} {m : ChannelMonitor}

/-- All the scripts an output may pay to. -/
def revocableScripts (C : Crypto) (m : ChannelMonitor) (keys : TxCreationKeys) : List Script :=
  m.toLocalScript keys :: m.htlcScripts C keys

/-! ## Inputs -/

/-- The positions of the outputs that pay to a script. -/
def positions (C : Crypto) (tx : Transaction) (script : Script) : List Nat :=
  (tx.output.zipIdx.filter fun ov => ov.1.scriptPubkey = newP2wsh C script).map Prod.snd

theorem vout_outputsPaying (tx : Transaction) (script : Script) (control : List UInt8) :
    (outputsPaying C tx script control).map (·.vout) = positions C tx script := by
  rw [outputsPaying, List.map_map]
  rfl

theorem vout_justiceInputs (tx : Transaction) (keys : TxCreationKeys) :
    (m.justiceInputs C tx keys).map (·.vout) =
      (m.revocableScripts C keys).flatMap (positions C tx) := by
  rw [justiceInputs, List.map_append, vout_outputsPaying, List.map_flatMap, revocableScripts,
    List.flatMap_cons]
  simp only [vout_outputsPaying]

theorem mem_positions {tx : Transaction} {script : Script} {v : Nat} :
    v ∈ positions C tx script ↔ ∃ o, tx.output[v]? = some o ∧ o.scriptPubkey = newP2wsh C script := by
  simp only [positions, List.mem_map, List.mem_filter, decide_eq_true_eq]
  constructor
  · intro ⟨⟨o, w⟩, ⟨hmem, ho⟩, hw⟩
    obtain rfl : w = v := hw
    exact ⟨o, List.mem_zipIdx_iff_getElem?.1 hmem, ho⟩
  · intro ⟨o, hv, ho⟩
    exact ⟨(o, v), ⟨List.mem_zipIdx_iff_getElem?.2 hv, ho⟩, rfl⟩

theorem nodup_positions (tx : Transaction) (script : Script) : (positions C tx script).Nodup := by
  have hsub : (positions C tx script).Sublist (tx.output.zipIdx.map Prod.snd) :=
    List.filter_sublist.map _
  refine hsub.nodup ?_
  rw [List.zipIdx_map_snd]
  exact List.nodup_range'

/-- An output is spent once for every script that it may pay to. -/
theorem count_vouts (tx : Transaction) (scripts : List Script) (v : Nat) :
    (scripts.flatMap (positions C tx)).count v =
      (tx.output[v]?).elim 0 fun o => (scripts.map (newP2wsh C)).count o.scriptPubkey := by
  induction scripts with
  | nil => cases tx.output[v]? <;> rfl
  | cons script scripts ih =>
    rw [List.flatMap_cons, List.count_append, ih, (nodup_positions tx script).count]
    simp only [mem_positions, List.map_cons, List.count_cons, beq_iff_eq]
    cases tx.output[v]? with
    | none => simp
    | some o =>
      simp only [Option.some.injEq, exists_eq_left', Option.elim_some, eq_comm (a := newP2wsh C script)]
      exact Nat.add_comm _ _

/-- The inputs are distinct when no output pays to two of the scripts. -/
theorem nodup_vouts_iff (tx : Transaction) (scripts : List Script) :
    (scripts.flatMap (positions C tx)).Nodup ↔
      ∀ o ∈ tx.output, (scripts.map (newP2wsh C)).count o.scriptPubkey ≤ 1 := by
  rw [List.nodup_iff_count_le_one]
  constructor
  · intro h o ho
    obtain ⟨v, hv⟩ := List.getElem?_of_mem ho
    have hcount := h v
    rwa [count_vouts, hv] at hcount
  · intro h v
    rw [count_vouts]
    cases hv : tx.output[v]? with
    | none => exact Nat.zero_le 1
    | some o => exact h o (List.mem_of_getElem? hv)

theorem mem_vouts {tx : Transaction} {scripts : List Script} {v : Nat} :
    v ∈ scripts.flatMap (positions C tx) ↔
      ∃ o, tx.output[v]? = some o ∧ o.scriptPubkey ∈ scripts.map (newP2wsh C) := by
  rw [List.mem_flatMap]
  constructor
  · intro ⟨script, hs, hv⟩
    obtain ⟨o, ho, heq⟩ := mem_positions.1 hv
    exact ⟨o, ho, List.mem_map.2 ⟨script, hs, heq.symm⟩⟩
  · intro ⟨o, ho, hmem⟩
    obtain ⟨script, hs, heq⟩ := List.mem_map.1 hmem
    exact ⟨script, hs, mem_positions.2 ⟨o, ho, heq.symm⟩⟩

/-- An input carries the value of the output it spends. -/
theorem value_justiceInputs {tx : Transaction} {keys : TxCreationKeys} {i : RevokedInput}
    (hi : i ∈ m.justiceInputs C tx keys) :
    ∃ o, tx.output[i.vout]? = some o ∧ i.value = o.value := by
  have hpay : ∀ script control, i ∈ outputsPaying C tx script control →
      ∃ o, tx.output[i.vout]? = some o ∧ i.value = o.value := by
    intro script control hmem
    obtain ⟨⟨o, v⟩, hov, rfl⟩ := List.mem_map.1 hmem
    exact ⟨o, List.mem_zipIdx_iff_getElem?.1 (List.mem_filter.1 hov).1, rfl⟩
  rcases List.mem_append.1 hi with hi | hi
  · exact hpay _ _ hi
  · obtain ⟨script, -, hi⟩ := List.mem_flatMap.1 hi
    exact hpay _ _ hi

/-! ## The transaction -/

section
variable {signRevocation : Bytes32 → Bytes32 → Signature} {tx : Transaction} {number : Nat}
  {destination : Script} {feerate : FeeRatePerKw}

/-- With the keys of the revoked commitment there is one transaction for its inputs, or nothing to
spend. -/
theorem punishRevoked_of_keys (signRevocation : Bytes32 → Bytes32 → Signature) (tx : Transaction)
    (destination : Script) (feerate : FeeRatePerKw) {secret : Bytes32} {keys : TxCreationKeys}
    (hs : m.counterpartySecrets.secretFor C.sha256Bytes32 (indexForCommitment number) = some secret)
    (hk : m.revokedKeys C secret = some keys) :
    (m.justiceInputs C tx keys = [] ∧
      m.punishRevoked C signRevocation tx number destination feerate = some []) ∨
    ∃ c fee, m.punishRevoked C signRevocation tx number destination feerate = some [c] ∧
      c.tx.spends = (m.justiceInputs C tx keys).map (fun i => ⟨tx.txid C, i.vout⟩) ∧
      c.tx.output = [⟨((m.justiceInputs C tx keys).map (·.value)).sum - fee, destination⟩] := by
  simp only [punishRevoked, hs, hk, Option.bind_eq_bind, Option.bind_some, Option.pure_def]
  split
  · next hnil => exact .inl ⟨List.isEmpty_iff.1 hnil, rfl⟩
  · refine .inr ⟨_, _, rfl, ?_, rfl⟩
    -- Signing an input leaves its outpoint.
    simp only [justiceTx, Transaction.spends, List.zipWith_map_left, List.zipWith_self,
      List.map_map]
    rfl

/-- Every claim comes from the keys of the revoked commitment. -/
theorem keys_of_punishRevoked {claims : List Claim} {c : Claim}
    (h : m.punishRevoked C signRevocation tx number destination feerate = some claims)
    (hc : c ∈ claims) : ∃ secret keys,
      m.counterpartySecrets.secretFor C.sha256Bytes32 (indexForCommitment number) = some secret ∧
      m.revokedKeys C secret = some keys := by
  unfold punishRevoked at h
  split at h
  · obtain rfl := Option.some.inj h
    cases hc
  · next secret hs =>
    cases hk : m.revokedKeys C secret with
    | none =>
      rw [hk] at h
      cases h
    | some keys => exact ⟨secret, keys, hs, hk⟩

end

/-- With the keys of the revoked commitment the claims spend just the outputs that pay to one of the
scripts. -/
theorem spent_iff (signRevocation : Bytes32 → Bytes32 → Signature) (tx : Transaction) {number : Nat}
    (destination : Script) (feerate : FeeRatePerKw) {secret : Bytes32} {keys : TxCreationKeys}
    (hs : m.counterpartySecrets.secretFor C.sha256Bytes32 (indexForCommitment number) = some secret)
    (hk : m.revokedKeys C secret = some keys) :
    ∃ claims, m.punishRevoked C signRevocation tx number destination feerate = some claims ∧
      ∀ v, (∃ c ∈ claims, ⟨tx.txid C, v⟩ ∈ c.tx.spends) ↔ ∃ o, tx.output[v]? = some o ∧
        o.scriptPubkey ∈ (m.revocableScripts C keys).map (newP2wsh C) := by
  have hvout : ∀ v, v ∈ (m.justiceInputs C tx keys).map (·.vout) ↔ ∃ o, tx.output[v]? = some o ∧
      o.scriptPubkey ∈ (m.revocableScripts C keys).map (newP2wsh C) := by
    intro v
    rw [vout_justiceInputs, mem_vouts]
  rcases punishRevoked_of_keys signRevocation tx destination feerate hs hk with
    ⟨hnil, heq⟩ | ⟨c, fee, heq, hspends, -⟩
  · refine ⟨[], heq, fun v => ?_⟩
    rw [← hvout, hnil]
    simp
  · refine ⟨[c], heq, fun v => ?_⟩
    rw [← hvout]
    simp [hspends]

/-- The value of the output of `tx` that an outpoint names. -/
def spentValue (C : Crypto) (tx : Transaction) (o : OutPoint) : Nat :=
  if o.txid = tx.txid C then (tx.output[o.vout]?).elim 0 (·.value) else 0

/-- A transaction that spends outputs of `tx` can be valid: no outpoint is spent twice, and the
outputs are paid for. -/
structure WellFormed (C : Crypto) (tx justice : Transaction) : Prop where
  distinct : justice.spends.Nodup
  covered : (justice.output.map (·.value)).sum ≤ (justice.spends.dedup.map (spentValue C tx)).sum

instance (tx justice : Transaction) : Decidable (WellFormed C tx justice) :=
  decidable_of_iff (_ ∧ _) ⟨fun h => ⟨h.1, h.2⟩, fun h => ⟨h.distinct, h.covered⟩⟩

/-- The inputs are worth what they spend. -/
theorem sum_spentValue (tx : Transaction) (keys : TxCreationKeys) :
    (((m.justiceInputs C tx keys).map fun i => OutPoint.mk (tx.txid C) i.vout).map
      (spentValue C tx)).sum = ((m.justiceInputs C tx keys).map (·.value)).sum := by
  rw [List.map_map]
  congr 1
  apply List.map_congr_left
  intro i hi
  obtain ⟨o, ho, hv⟩ := value_justiceInputs hi
  simp only [Function.comp_apply, spentValue, if_true, ho, Option.elim_some, hv]

/-- Distinct inputs are all that a well-formed justice transaction takes. -/
theorem wellFormed_iff {tx : Transaction} {keys : TxCreationKeys} {c : Claim} {fee : Nat}
    {destination : Script}
    (hspends : c.tx.spends = (m.justiceInputs C tx keys).map fun i => ⟨tx.txid C, i.vout⟩)
    (hout : c.tx.output = [⟨((m.justiceInputs C tx keys).map (·.value)).sum - fee, destination⟩]) :
    WellFormed C tx c.tx ↔ ∀ o ∈ tx.output,
      ((m.revocableScripts C keys).map (newP2wsh C)).count o.scriptPubkey ≤ 1 := by
  have hinj : Function.Injective (OutPoint.mk (tx.txid C)) := fun v w h => (OutPoint.mk.inj h).2
  have hnodup : c.tx.spends.Nodup ↔ ∀ o ∈ tx.output,
      ((m.revocableScripts C keys).map (newP2wsh C)).count o.scriptPubkey ≤ 1 := by
    rw [← nodup_vouts_iff, ← vout_justiceInputs, hspends, ← List.nodup_map_iff hinj, List.map_map]
    rfl
  rw [← hnodup]
  refine ⟨fun h => h.distinct, fun h => ⟨h, ?_⟩⟩
  rw [h.dedup, hspends, sum_spentValue, hout]
  exact Nat.sub_le _ _

end ChannelMonitor

namespace Channel

variable {C : Crypto}

/-! ## How a signed commitment was built -/

/-- What the commitment was built from, the HTLCs apart. -/
structure BuiltWith (C : Crypto) (counterparty : Option ChannelPublicKeys)
    (holder : ChannelPublicKeys) (delay : Nat) (e : SignedCommitment) (cp : ChannelPublicKeys)
    (p : CommitmentTxParams) : Prop where
  counterparty : counterparty = some cp
  keys : TxCreationKeys.derive C e.point cp holder = some p.keys
  delay : p.toSelfDelay = delay
  htlcs : p.htlcs = e.htlcs
  number : p.commitmentNumber < 2 ^ 48
  built : e.built = p.assemble C

/-- The channel still has what the commitment was built from. -/
def Rebuilds (C : Crypto) (ch : Channel) (e : SignedCommitment) : Prop :=
  ∃ cp p, BuiltWith C ch.counterpartyPubkeys ch.holderPubkeys ch.params.holderSelectedDelay e cp p

theorem rebuilds_of_build {ch : Channel} {n : Nat} {point : PublicKey} {b : Built}
    (h : ch.buildCounterpartyCommitmentAt C n point = .ok b) (sources : List HtlcSource) :
    Rebuilds C ch ⟨n, point, b.built, b.htlcs, sources⟩ := by
  obtain ⟨cp, keys, funding, hcp, hk, -, hn, rfl⟩ := buildCounterpartyCommitmentAt_spec h
  exact ⟨cp, ch.counterpartyParams keys funding n, hcp, hk, rfl, rfl, hn, rfl⟩

/-- The history, with how its commitments were built. -/
structure Rebuilt (C : Crypto) (ch : Channel) : Prop where
  logged : Logged C ch
  built : ∀ e ∈ ch.signed, Rebuilds C ch e

namespace Rebuilt

variable {ch ch' : Channel}

theorem move (hm : Move C ch ch') (h : Rebuilt C ch) : Rebuilt C ch' := by
  refine ⟨h.logged.move hm, ?_⟩
  cases hm with
  | negotiate msg hmsg =>
    -- Nothing is signed while the keys are still open.
    have hst : ch.state = .openSent := by
      simp only [checkAcceptChannel, Fault.bind_eq_ok, Fault.require_eq_ok] at hmsg
      exact hmsg.choose_spec.1
    intro e he
    rw [show _ = ch.signed from rfl, (h.logged.early (by rw [hst]; rfl)).1] at he
    cases he
  | signInitial point b st hr hst hp hb =>
    intro e he
    rcases List.mem_append.1 he with he | he
    · exact h.built e he
    · rw [List.mem_singleton.1 he]
      exact rebuilds_of_build hb _
  | sign point b ha hp hb =>
    intro e he
    rcases List.mem_append.1 he with he | he
    · exact h.built e he
    · rw [List.mem_singleton.1 he]
      exact rebuilds_of_build hb _
  | _ => exact h.built

theorem run {ch₀ : Channel} {tr : Trace Input ChannelError (List Wire.Message)}
    (h₀ : Fresh C ch₀) (hr : Run (Channel.step C) ch₀ tr ch) : Rebuilt C ch := by
  have hinit : Rebuilt C ch₀ := by
    refine ⟨.initial h₀.initial, fun e he => ?_⟩
    rw [h₀.initial.signed] at he
    cases he
  refine Run.invariant (A := fun _ => True) hinit (fun ch i _ h => ?_) hr fun _ _ => trivial
  have hlogged : Act.Ends (Channel.step C i) ch (Logged C) :=
    Act.wp_mono (h.logged.step i) (fun _ _ h => h) fun _ _ h _ _ => h
  refine (hlogged.and (step_stepped i ch)).mono fun ch' hs => ?_
  obtain ⟨hl, hs⟩ := hs
  cases hs with
  | moves _ hm => exact hm.invariant (fun _ _ => move) h
  | refused | accepted | rolledBack => exact ⟨hl, h.built⟩

end Rebuilt

/-! ## What is swept -/

/-- The output belongs to the broadcaster's balance or to an HTLC. -/
def Revocable (e : SignedCommitment) (v : Nat) : Prop :=
  e.built.toBroadcasterIndex = some v ∨ some v ∈ e.built.htlcOutputIndices

/-- The monitor of the channel builds a transaction for `tx`, revoked as the commitment `e`, that
spends all of the revocable outputs of `e`. -/
def Sweeps (C : Crypto) (ch : Channel) (e : SignedCommitment)
    (signRevocation : Bytes32 → Bytes32 → Signature) (tx : Transaction) (destination : Script)
    (feerate : FeeRatePerKw) : Prop :=
  ∃ m claims, ChannelMonitor.fromChannel ch = some m ∧
    m.punishRevoked C signRevocation tx e.number destination feerate = some claims ∧
    ∀ v, Revocable e v → ∃ c ∈ claims, ⟨tx.txid C, v⟩ ∈ c.tx.spends

/-- The address of an HTLC of an old commitment is that of an HTLC of the peer's current one, in
either direction, at the keys of the old one; or that of the old `to_local`. -/
def Remembered (C : Crypto) (ch : Channel) (keys : TxCreationKeys) (h : HtlcOutputInCommitment) :
    Prop :=
  newP2wsh C (htlcWitnessScript C keys h) = newP2wsh C (revocableDelayed keys.revocationKey
    ch.params.holderSelectedDelay keys.broadcasterDelayedPaymentKey) ∨
  ∃ info ∈ ch.currentCounterpartyCommitment, ∃ h' ∈ info.htlcs,
    newP2wsh C (htlcWitnessScript C keys h) = newP2wsh C (htlcWitnessScript C keys h'.1) ∨
    newP2wsh C (htlcWitnessScript C keys h) = newP2wsh C (htlcWitnessScript C keys h'.1.flipped)

/-- Every HTLC of the commitment that has an output is remembered. -/
def RemembersHtlcs (C : Crypto) (ch : Channel) (e : SignedCommitment) : Prop :=
  ∀ cp ∈ ch.counterpartyPubkeys, ∀ keys ∈ TxCreationKeys.derive C e.point cp ch.holderPubkeys,
    ∀ hv ∈ e.htlcs.zip e.built.htlcOutputIndices, hv.2.isSome → Remembered C ch keys hv.1

instance (ch : Channel) (keys : TxCreationKeys) (h : HtlcOutputInCommitment) :
    Decidable (Remembered C ch keys h) :=
  inferInstanceAs (Decidable (_ ∨ _))

instance (ch : Channel) (e : SignedCommitment) : Decidable (RemembersHtlcs C ch e) :=
  inferInstanceAs (Decidable (∀ cp ∈ ch.counterpartyPubkeys,
    ∀ keys ∈ TxCreationKeys.derive C e.point cp ch.holderPubkeys,
    ∀ hv ∈ e.htlcs.zip e.built.htlcOutputIndices, hv.2.isSome → Remembered C ch keys hv.1))

section
variable {ch : Channel} {e : SignedCommitment}

/-- The monitor looks for what the channel remembers. -/
theorem remembered_iff {m : ChannelMonitor} {keys : TxCreationKeys} {h : HtlcOutputInCommitment}
    (hdelay : m.holderSelectedDelay = ch.params.holderSelectedDelay)
    (hcurrent : m.counterpartyCurrent = ch.currentCounterpartyCommitment.map fun c =>
      ⟨c.number, c.txid, c.perCommitmentPoint, c.htlcs⟩) :
    newP2wsh C (htlcWitnessScript C keys h) ∈ (m.revocableScripts C keys).map (newP2wsh C) ↔
      Remembered C ch keys h := by
  rw [ChannelMonitor.revocableScripts, List.map_cons, List.mem_cons,
    ChannelMonitor.toLocalScript, hdelay, Remembered, ChannelMonitor.htlcScripts, hcurrent]
  apply or_congr_right
  cases ch.currentCounterpartyCommitment with
  | none => simp
  | some info =>
    simp only [Option.map_some, List.mem_map, List.mem_flatMap, List.mem_cons, List.not_mem_nil,
      or_false, Option.mem_def, Option.some.injEq, exists_eq_left']
    constructor
    · rintro ⟨script, ⟨h', hmem, rfl | rfl⟩, heq⟩
      · exact ⟨h', hmem, .inl heq.symm⟩
      · exact ⟨h', hmem, .inr heq.symm⟩
    · rintro ⟨h', hmem, heq | heq⟩
      · exact ⟨_, ⟨h', hmem, .inl rfl⟩, heq.symm⟩
      · exact ⟨_, ⟨h', hmem, .inr rfl⟩, heq.symm⟩

theorem broadcaster_output (C : Crypto) {p : CommitmentTxParams} {v : Nat}
    (h : (p.assemble C).toBroadcasterIndex = some v) :
    ∃ o, (p.assemble C).tx.output[v]? = some o ∧
      o.scriptPubkey = newP2wsh C (revocableDelayed p.keys.revocationKey p.toSelfDelay
        p.keys.broadcasterDelayedPaymentKey) := by
  have howns : (p.assemble C).Owns v .broadcaster := h
  obtain ⟨s, hs, ho⟩ := CommitmentTxParams.owns_iff.1 howns
  refine ⟨s.out, by rw [CommitmentTxParams.output_getElem?, hs]; rfl, ?_⟩
  have hmem := CommitmentTxParams.mem_sortedStaged.1 (List.mem_of_getElem? hs)
  rcases CommitmentTxParams.mem_staged.1 hmem with hb | ⟨i, h, -, -, rfl⟩
  · simp only [CommitmentTxParams.stageBalances, List.mem_append] at hb
    rcases hb with hb | hb
    · split at hb
      · rw [List.mem_singleton.1 hb]
      · cases hb
    · split at hb
      · rw [List.mem_singleton.1 hb] at ho
        cases ho
      · cases hb
  · cases ho

/-- The monitor of the channel has the keys of a revoked commitment. -/
theorem Rebuilt.monitor (h : Rebuilt C ch) (he : e ∈ ch.signed) {cp : ChannelPublicKeys}
    {p : CommitmentTxParams} (hw : BuiltWith C ch.counterpartyPubkeys ch.holderPubkeys
      ch.params.holderSelectedDelay e cp p)
    (hsec : (ch.counterpartySecrets.secretFor C.sha256Bytes32
      (indexForCommitment e.number)).isSome) :
    ∃ m secret, ChannelMonitor.fromChannel ch = some m ∧
      m.holderSelectedDelay = ch.params.holderSelectedDelay ∧
      (m.counterpartyCurrent = ch.currentCounterpartyCommitment.map fun c =>
        ⟨c.number, c.txid, c.perCommitmentPoint, c.htlcs⟩) ∧
      m.counterpartySecrets.secretFor C.sha256Bytes32 (indexForCommitment e.number) = some secret ∧
      m.revokedKeys C secret = some p.keys := by
  obtain ⟨_, q, -, -, hf, -⟩ := h.logged.built e he
  have hlt : e.number < ch.counterpartyCommitmentNumber := by
    apply Nat.lt_of_not_le
    intro hle
    rw [(h.logged.secretFor he).2 hle] at hsec
    cases hsec
  obtain ⟨secret, hs, hpoint⟩ := (h.logged.secretFor he).1 hlt
  have hm : ∃ m, ChannelMonitor.fromChannel ch = some m ∧
      m.holderSelectedDelay = ch.params.holderSelectedDelay ∧
      (m.counterpartyCurrent = ch.currentCounterpartyCommitment.map fun c =>
        ⟨c.number, c.txid, c.perCommitmentPoint, c.htlcs⟩) ∧
      m.counterpartySecrets = ch.counterpartySecrets ∧ m.counterpartyPubkeys = cp ∧
      m.holderPubkeys = ch.holderPubkeys := by
    simp only [ChannelMonitor.fromChannel, hw.counterparty, hf, Option.bind_eq_bind,
      Option.bind_some, Option.pure_def]
    exact ⟨_, rfl, rfl, rfl, rfl, rfl, rfl⟩
  obtain ⟨m, hm, hdelay, hcurrent, hsecrets, hcp, hholder⟩ := hm
  refine ⟨m, secret, hm, hdelay, hcurrent, by rw [hsecrets]; exact hs, ?_⟩
  simp only [ChannelMonitor.revokedKeys, hpoint, Option.bind_eq_bind, Option.bind_some, hcp,
    hholder]
  exact hw.keys

/-- Over every run of a channel and every revoked commitment it signed: the justice transaction
spends every revocable output exactly when every HTLC that has an output is remembered. -/
theorem justice_sweeps_iff {ch₀ : Channel} {tr : Trace Input ChannelError (List Wire.Message)}
    (h₀ : Fresh C ch₀) (hr : Run (step C) ch₀ tr ch) (he : e ∈ ch.signed)
    (hsec : (ch.counterpartySecrets.secretFor C.sha256Bytes32
      (indexForCommitment e.number)).isSome)
    (signRevocation : Bytes32 → Bytes32 → Signature) {tx : Transaction}
    (htx : tx.output = e.built.tx.output) (destination : Script) (feerate : FeeRatePerKw) :
    Sweeps C ch e signRevocation tx destination feerate ↔ RemembersHtlcs C ch e := by
  have hrebuilt := Rebuilt.run h₀ hr
  obtain ⟨cp, p, hw⟩ := hrebuilt.built e he
  obtain ⟨m, secret, hm, hdelay, hcurrent, hs, hk⟩ := hrebuilt.monitor he hw hsec
  obtain ⟨claims, heq, hspent⟩ :=
    ChannelMonitor.spent_iff signRevocation tx destination feerate hs hk
  have hwell := CommitmentTxParams.assemble_wellBuilt C hw.number
  have houtput : ∀ (i : Nat) h v, e.htlcs[i]? = some h →
      e.built.htlcOutputIndices[i]? = some (some v) → tx.output[v]? =
        some ⟨Msat.toSatFloor h.amountMsat, newP2wsh C (htlcWitnessScript C p.keys h)⟩ := by
    intro i h v hi hv
    rw [htx, hw.built]
    exact hwell.index i h v (hw.htlcs ▸ hi) (hw.built ▸ hv)
  constructor
  · intro ⟨m', claims', hm', heq', hall⟩ cp' hcp' keys' hkeys' hv hmem hsome
    obtain rfl := Option.some.inj (hm.symm.trans hm')
    obtain rfl := Option.some.inj (heq.symm.trans heq')
    obtain rfl := Option.some.inj (hw.counterparty.symm.trans hcp')
    obtain rfl := Option.some.inj (hw.keys.symm.trans hkeys')
    obtain ⟨h, vo⟩ := hv
    obtain ⟨v, rfl⟩ := Option.isSome_iff_exists.1 hsome
    obtain ⟨i, hi⟩ := List.getElem?_of_mem hmem
    obtain ⟨hh, hv⟩ := List.getElem?_zip_eq_some.1 hi
    obtain ⟨o, ho, hspk⟩ := (hspent v).1 (hall v (.inr (List.mem_of_getElem? hv)))
    obtain rfl := Option.some.inj ((houtput i h v hh hv).symm.trans ho)
    exact (remembered_iff hdelay hcurrent).1 hspk
  · intro hrem
    refine ⟨m, claims, hm, heq, fun v hrev => (hspent v).2 ?_⟩
    rcases hrev with hloc | hhtlc
    · rw [hw.built] at hloc
      obtain ⟨o, ho, hspk⟩ := broadcaster_output C hloc
      refine ⟨o, by rw [htx, hw.built]; exact ho, List.mem_map.2 ⟨_, List.mem_cons_self, ?_⟩⟩
      rw [hspk, ChannelMonitor.toLocalScript, hdelay, hw.delay]
    · obtain ⟨i, hv⟩ := List.getElem?_of_mem hhtlc
      have hi : i < e.htlcs.length := by
        rw [← hw.htlcs, ← hwell.parallel, ← hw.built]
        exact (List.getElem?_eq_some_iff.1 hv).1
      have hh := List.getElem?_eq_getElem hi
      have hmem : (e.htlcs[i], some v) ∈ e.htlcs.zip e.built.htlcOutputIndices :=
        List.mem_of_getElem? (List.getElem?_zip_eq_some.2 ⟨hh, hv⟩)
      exact ⟨_, houtput i _ v hh hv, (remembered_iff hdelay hcurrent).2
        (hrem cp hw.counterparty p.keys hw.keys _ hmem rfl)⟩

/-- A payment whose HTLC is still in the peer's current commitment. -/
theorem justice_sweeps_live :
    ∃ tr ch, Run (step Demo.C) Demo.alice.1 tr ch ∧ ∃ e ∈ ch.signed,
      (∃ v, some v ∈ e.built.htlcOutputIndices) ∧
      Sweeps Demo.C ch e Demo.signRevocation e.built.tx [] 1000 := by
  obtain ⟨tr, ch, hr, ⟨e, he, hout, hsec, hrem⟩, -⟩ := Demo.exists_chan
    (Demo.handshake ++ Demo.payment ++ [.command .a (.sendUpdateFee 2000),
      .command .a .sendCommitmentSigned, .deliver .b, .deliver .b, .deliver .a]) .a
    (fun ch => ∃ e ∈ ch.signed, (e.built.htlcOutputIndices.any Option.isSome) ∧
      (ch.counterpartySecrets.secretFor Demo.C.sha256Bytes32
        (indexForCommitment e.number)).isSome ∧ RemembersHtlcs Demo.C ch e) (by decide +kernel)
  obtain ⟨vo, hvo, hsome⟩ := List.any_eq_true.1 hout
  obtain ⟨v, rfl⟩ := Option.isSome_iff_exists.1 hsome
  exact ⟨tr, ch, hr, e, he, ⟨v, hvo⟩,
    (justice_sweeps_iff Demo.alice_fresh hr he hsec _ rfl _ _).2 hrem⟩

/-- Once the payment is settled, the HTLC output of the old commitment is left to the peer. -/
theorem justice_leaves_settled :
    ∃ tr ch, Run (step Demo.C) Demo.alice.1 tr ch ∧ ∃ e ∈ ch.signed, ∃ v,
      some v ∈ e.built.htlcOutputIndices ∧ ∃ m ∈ ChannelMonitor.fromChannel ch,
        m.classify Demo.C e.built.tx = some (.counterpartyRevoked e.number) ∧
        ∃ claims ∈ m.punishRevoked Demo.C Demo.signRevocation e.built.tx e.number [] 1000,
          ∀ c ∈ claims, ⟨e.built.tx.txid Demo.C, v⟩ ∉ c.tx.spends := by
  obtain ⟨tr, ch, hr, h, -⟩ := Demo.exists_chan
    (Demo.handshake ++ Demo.payment ++ [.command .b (.sendFulfillHtlc 0 (Demo.bytes 3)),
      .command .b .sendCommitmentSigned, .deliver .a, .deliver .a, .command .a .sendCommitmentSigned,
      .deliver .b, .deliver .b, .deliver .a]) .a
    (fun ch => ∃ e ∈ ch.signed, ∃ vo ∈ e.built.htlcOutputIndices, ∃ v ∈ vo,
      ∃ m ∈ ChannelMonitor.fromChannel ch,
        m.classify Demo.C e.built.tx = some (.counterpartyRevoked e.number) ∧
        ∃ claims ∈ m.punishRevoked Demo.C Demo.signRevocation e.built.tx e.number [] 1000,
          ∀ c ∈ claims, ⟨e.built.tx.txid Demo.C, v⟩ ∉ c.tx.spends) (by decide +kernel)
  obtain ⟨e, he, vo, hvo, v, rfl, hrest⟩ := h
  exact ⟨tr, ch, hr, e, he, v, hvo, hrest⟩

end

end Channel
