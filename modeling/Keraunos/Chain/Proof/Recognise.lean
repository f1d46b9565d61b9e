import Keraunos.Chain.Monitor
import Keraunos.Channel.Proof.Revocation
import Keraunos.Commitment.Proof.Number
import Keraunos.Shachain.Proof.Sound

/-!
# Which counterparty commitments the monitor recognises

`Logged` relates the history of signed counterparty commitments to what the channel keeps: the
current one, the one in flight, the secrets of the revoked ones. From it follows exactly which
signed commitments a monitor taken from the channel recognises (`recognised_iff`): all but the one
in flight, unless one is at the same time our own current commitment.
-/

open Bitcoin Commitment Shachain

namespace Channel

variable {C : Crypto}

/-- What is kept about a signed commitment. -/
structure Describes (info : CounterpartyCommitmentInfo) (e : SignedCommitment) : Prop where
  number : info.number = e.number
  txid : info.txid = e.built.txid
  point : info.perCommitmentPoint = e.point
  htlcs : info.htlcs = e.htlcs.zipIdx.map fun hi =>
    (hi.1, (e.built.htlcOutputIndices[hi.2]?).join)

theorem describes_infoFromBuilt (ch : Channel) (n : Nat) (point : PublicKey)
    (built : BuiltCommitmentTx) (htlcs : List HtlcOutputInCommitment)
    (sources : List HtlcSource) :
    Describes (ch.counterpartyInfoFromBuilt n point built htlcs)
      ⟨n, point, built, htlcs, sources⟩ :=
  ⟨rfl, rfl, rfl, rfl⟩

/-- A signed commitment is the commitment of its number on this channel's funding output. -/
structure BuiltFor (C : Crypto) (obscure : Nat) (funding : Option OutPoint) (e : SignedCommitment) :
    Prop where
  lt : e.number < 2 ^ 48
  built : ∃ p : CommitmentTxParams, p.commitmentNumber = e.number ∧ p.obscureFactor = obscure ∧
    funding = some p.fundingOutpoint ∧ e.built = p.assemble C

/-- The history of signed commitments and what the channel keeps of it. -/
structure Logged (C : Crypto) (ch : Channel) : Prop where
  obscure : ch.obscureFactor < 2 ^ 48
  early : ch.state.rank = 0 → ch.signed = [] ∧ ch.awaitingRaa = false ∧
    ch.counterpartyCommitmentNumber = 0 ∧ ch.counterpartyNextPoint = none
  numbers : 0 < ch.state.rank → ch.signed.map (·.number) =
    List.range (ch.counterpartyCommitmentNumber + 1 + ch.awaitingRaa.toNat)
  built : ∀ e ∈ ch.signed, BuiltFor C ch.obscureFactor ch.fundingOutpoint e
  keys : 0 < ch.state.rank → ∃ cp, ch.counterpartyPubkeys = some cp
  current : 0 < ch.state.rank → ∃ e ∈ ch.signed, ∃ info,
    e.number = ch.counterpartyCommitmentNumber ∧ ch.counterpartyCurrentPoint = some e.point ∧
    ch.currentCounterpartyCommitment = some info ∧ Describes info e
  pending : ch.awaitingRaa = true → ∃ e ∈ ch.signed, ∃ pd,
    e.number = ch.counterpartyCommitmentNumber + 1 ∧ ch.counterpartyNextPoint = some e.point ∧
    ch.pendingCounterpartyCommitment = some pd ∧ Describes pd.info e
  secrets : ∃ f, Holds C.sha256Bytes32 ch.counterpartySecrets
      (2 ^ 48 - ch.counterpartyCommitmentNumber) f ∧
    ∀ e ∈ ch.signed, e.number < ch.counterpartyCommitmentNumber →
      Keys.perCommitmentPoint C (f (maxIndex - e.number)) = some e.point

theorem buildCounterpartyCommitmentAt_spec {ch : Channel} {n : Nat} {point : PublicKey} {b : Built}
    (h : ch.buildCounterpartyCommitmentAt C n point = .ok b) :
    ∃ cp keys funding, ch.counterpartyPubkeys = some cp ∧
      TxCreationKeys.derive C point cp ch.holderPubkeys = some keys ∧
      ch.fundingOutpoint = some funding ∧ n < 2 ^ 48 ∧
      b = ⟨(ch.counterpartyParams keys funding n).assemble C, keys, ch.commitmentHtlcs false⟩ := by
  simp only [buildCounterpartyCommitmentAt, counterparty, Fault.bind_eq_ok, Fault.okOr_eq_ok,
    Fault.expect_eq_ok, pure, Except.pure, Except.ok.injEq] at h
  obtain ⟨cp, hcp, keys, hk, funding, hf, built, hb, rfl⟩ := h
  obtain ⟨hn, rfl⟩ := buildCommitmentTx_eq hb
  exact ⟨cp, keys, funding, hcp, hk, hf, hn, rfl⟩

theorem builtFor_of_build {ch : Channel} {n : Nat} {point : PublicKey} {b : Built}
    (h : ch.buildCounterpartyCommitmentAt C n point = .ok b) (sources : List HtlcSource) :
    BuiltFor C ch.obscureFactor ch.fundingOutpoint ⟨n, point, b.built, b.htlcs, sources⟩ := by
  obtain ⟨cp, keys, funding, -, -, hf, hn, rfl⟩ := buildCounterpartyCommitmentAt_spec h
  exact ⟨hn, _, rfl, rfl, hf, rfl⟩

theorem indexForCommitment_eq {n : Nat} (h : n < 2 ^ 48) : indexForCommitment n = maxIndex - n := by
  simp only [indexForCommitment, maxIndex]
  omega

namespace Logged

variable {ch ch' : Channel}

/-- The invariant only depends on these fields. -/
theorem frame (h : Logged C ch) (ho : ch'.obscureFactor = ch.obscureFactor)
    (hs : ch'.state.rank = 0 ↔ ch.state.rank = 0) (hl : ch'.signed = ch.signed)
    (ha : ch'.awaitingRaa = ch.awaitingRaa)
    (hn : ch'.counterpartyCommitmentNumber = ch.counterpartyCommitmentNumber)
    (hk : ch'.counterpartyPubkeys = ch.counterpartyPubkeys)
    (hf : ch'.fundingOutpoint = ch.fundingOutpoint)
    (hp : ch'.counterpartyCurrentPoint = ch.counterpartyCurrentPoint)
    (hc : ch'.currentCounterpartyCommitment = ch.currentCounterpartyCommitment)
    (hpd : ch'.pendingCounterpartyCommitment = ch.pendingCounterpartyCommitment)
    (hnp : ch.awaitingRaa = true ∨ ch.state.rank = 0 →
      ch'.counterpartyNextPoint = ch.counterpartyNextPoint)
    (hst : ch'.counterpartySecrets = ch.counterpartySecrets) : Logged C ch' := by
  have hpos : 0 < ch'.state.rank ↔ 0 < ch.state.rank := by
    rw [Nat.pos_iff_ne_zero, Nat.pos_iff_ne_zero]
    exact not_congr hs
  obtain ⟨h1, h2, h3, h4, h5, h6, h7, h8⟩ := h
  refine ⟨ho ▸ h1, fun hr => ?_, by rw [hpos, hl, hn, ha]; exact h3, ?_,
    by rw [hpos, hk]; exact h5, by rw [hpos, hl, hn, hp, hc]; exact h6, fun haw => ?_,
    by rw [hst, hn, hl]; exact h8⟩
  · rw [hs] at hr
    rw [hl, ha, hn, hnp (.inr hr)]
    exact h2 hr
  · intro e he
    rw [ho, hf]
    exact h4 e (hl ▸ he)
  · rw [ha] at haw
    rw [hl, hn, hnp (.inl haw), hpd]
    exact h7 haw

/-- Before the funding is bound nothing is signed, and the negotiated values are free. -/
theorem early_update (h : Logged C ch) (hr : ch.state.rank = 0) (ho : ch'.obscureFactor < 2 ^ 48)
    (hs : ch'.state = ch.state) (hl : ch'.signed = ch.signed)
    (ha : ch'.awaitingRaa = ch.awaitingRaa)
    (hn : ch'.counterpartyCommitmentNumber = ch.counterpartyCommitmentNumber)
    (hnp : ch'.counterpartyNextPoint = ch.counterpartyNextPoint)
    (hst : ch'.counterpartySecrets = ch.counterpartySecrets) : Logged C ch' := by
  obtain ⟨hnil, haw, hzero, hnone⟩ := h.early hr
  have hr' : ¬ 0 < ch'.state.rank := by rw [hs, hr]; exact Nat.lt_irrefl 0
  refine ⟨ho, fun _ => ⟨hl.trans hnil, ha.trans haw, hn.trans hzero, hnp.trans hnone⟩, fun hc => absurd hc hr', ?_,
    fun hc => absurd hc hr', fun hc => absurd hc hr', ?_, ?_⟩
  · rw [hl, hnil]
    simp
  · rw [ha, haw]
    simp
  · rw [hst, hn, hl]
    exact h.secrets

/-- Each number is signed once. -/
theorem number_inj (h : Logged C ch) {e e' : SignedCommitment} (he : e ∈ ch.signed)
    (he' : e' ∈ ch.signed) (hn : e.number = e'.number) : e = e' := by
  by_cases hr : ch.state.rank = 0
  · rw [(h.early hr).1] at he
    cases he
  · have hnodup : (ch.signed.map (·.number)).Nodup := by
      rw [h.numbers (Nat.pos_of_ne_zero hr)]
      exact List.nodup_range
    exact List.inj_on_of_nodup_map hnodup he he' hn

theorem initial (hinit : Initial ch) : Logged C ch := by
  have hr : ¬ 0 < ch.state.rank := by rw [hinit.state]; exact Nat.lt_irrefl 0
  refine ⟨hinit.obscure, fun _ => ⟨hinit.signed, hinit.awaiting, hinit.counterpartyNumber, hinit.nextPoint⟩,
    fun h => absurd h hr, ?_, fun h => absurd h hr, fun h => absurd h hr, ?_, ?_⟩
  · rw [hinit.signed]
    simp
  · rw [hinit.awaiting]
    simp
  · rw [hinit.signed, hinit.secrets, hinit.counterpartyNumber]
    exact ⟨fun _ => Vector.replicate 32 0, holds_new _ _, by simp⟩

theorem signInitial (h : Logged C ch) {point : PublicKey} {b : Built} {st : ChannelState}
    (hr : ch.state.rank = 0) (hst : 0 < st.rank) (hp : ch.counterpartyCurrentPoint = some point)
    (hb : ch.buildCounterpartyCommitmentAt C 0 point = .ok b) :
    Logged C { ch with
      currentCounterpartyCommitment := some (ch.counterpartyInfoFromBuilt 0 point b.built b.htlcs)
      signed := ch.signed ++ [SignedCommitment.mk 0 point b.built b.htlcs ch.commitmentSources]
      state := st } := by
  obtain ⟨hnil, haw, hzero, -⟩ := h.early hr
  obtain ⟨f, hf, -⟩ := h.secrets
  have hmem : ∀ e, e ∈ ch.signed ++
        [SignedCommitment.mk 0 point b.built b.htlcs ch.commitmentSources] ↔
      e = ⟨0, point, b.built, b.htlcs, ch.commitmentSources⟩ := by simp [hnil]
  refine ⟨h.obscure, fun h0 => absurd h0 (Nat.pos_iff_ne_zero.1 hst), fun _ => ?_, ?_, fun _ => ?_,
    fun _ => ?_, fun ha => ?_, f, hf, ?_⟩
  · simp [hnil, haw, hzero]
  · intro e he
    obtain rfl := (hmem e).1 he
    exact builtFor_of_build hb _
  · obtain ⟨cp, -, -, hcp, -⟩ := buildCounterpartyCommitmentAt_spec hb
    exact ⟨cp, hcp⟩
  · exact ⟨_, (hmem _).2 rfl, _, hzero.symm, hp, rfl, describes_infoFromBuilt ..⟩
  · exact absurd (ha : ch.awaitingRaa = true) (by simp [haw])
  · intro e he hlt
    have hlt' : e.number < ch.counterpartyCommitmentNumber := hlt
    omega

theorem sign (h : Logged C ch) {point : PublicKey} {b : Built} (ha : ch.awaitingRaa = false)
    (hr : 0 < ch.state.rank) (hp : ch.counterpartyNextPoint = some point)
    (hb : ch.buildCounterpartyCommitmentAt C (ch.counterpartyCommitmentNumber + 1) point = .ok b) :
    Logged C (ch.sign point b) := by
  have hlog : (ch.sign point b).signed =
    ch.signed ++ [⟨ch.counterpartyCommitmentNumber + 1, point, b.built, b.htlcs,
      ch.commitmentSources⟩] := rfl
  obtain ⟨e₀, he₀, info, hn₀, hpt₀, hinfo, hd₀⟩ := h.current hr
  obtain ⟨f, hf, hpts⟩ := h.secrets
  refine ⟨h.obscure, fun h0 => absurd h0 (Nat.pos_iff_ne_zero.1 hr), fun _ => ?_, ?_,
    fun _ => h.keys hr, fun _ => ?_, fun _ => ?_, f, hf, ?_⟩
  · rw [hlog, List.map_append, h.numbers hr, ha]
    exact List.range_succ.symm
  · intro e he
    rw [hlog, List.mem_append, List.mem_singleton] at he
    rcases he with he | rfl
    · exact h.built e he
    · exact builtFor_of_build hb _
  · exact ⟨e₀, hlog ▸ List.mem_append_left _ he₀, info, hn₀, hpt₀, hinfo, hd₀⟩
  · exact ⟨⟨ch.counterpartyCommitmentNumber + 1, point, b.built, b.htlcs, ch.commitmentSources⟩,
      hlog ▸ List.mem_append_right _ (List.mem_singleton.2 rfl), _, rfl, hp, rfl,
      describes_infoFromBuilt ..⟩
  · intro e he hlt
    rw [hlog, List.mem_append, List.mem_singleton] at he
    rcases he with he | rfl
    · exact hpts e he hlt
    · exact absurd hlt (Nat.not_lt.2 (Nat.le_succ ch.counterpartyCommitmentNumber))

theorem rank_pos_of_point (h : Logged C ch) {point : PublicKey}
    (hp : ch.counterpartyNextPoint = some point) : 0 < ch.state.rank := by
  refine Nat.pos_iff_ne_zero.2 fun hr => ?_
  rw [(h.early hr).2.2.2] at hp
  cases hp

theorem rank_pos_of_awaiting (h : Logged C ch) (ha : ch.awaitingRaa = true) :
    0 < ch.state.rank := by
  refine Nat.pos_iff_ne_zero.2 fun hr => ?_
  rw [(h.early hr).2.1] at ha
  cases ha

/-- A revocation stores the secret of the current commitment and makes the pending one current. -/
theorem revoke (h : Logged C ch) {pending : PendingCounterpartyCommitment} {secret : Bytes32}
    {point nextPoint : PublicKey} {secrets : SecretStore} (ha : ch.awaitingRaa = true)
    (hpd : ch.pendingCounterpartyCommitment = some pending)
    (hpt : ch.counterpartyCurrentPoint = some point)
    (hsec : Keys.perCommitmentPoint C secret = some point)
    (hins : ch.insertSecret C secret = .ok secrets) :
    Logged C (ch.acceptRevocation pending secrets nextPoint).gcHtlcs.processed := by
  have hr := h.rank_pos_of_awaiting ha
  obtain ⟨e₀, he₀, info, hn₀, hpt₀, hinfo, hd₀⟩ := h.current hr
  obtain ⟨e₁, he₁, pd, hn₁, hnp, hpd₁, hd₁⟩ := h.pending ha
  obtain ⟨f, hf, hpts⟩ := h.secrets
  obtain rfl := Option.some.inj (hpd.symm.trans hpd₁)
  obtain rfl := Option.some.inj (hpt.symm.trans hpt₀)
  have hlt : ch.counterpartyCommitmentNumber + 1 < 2 ^ 48 := hn₁ ▸ (h.built e₁ he₁).lt
  refine ⟨h.obscure, fun h0 => absurd h0 (Nat.pos_iff_ne_zero.1 hr), fun _ => ?_, h.built,
    fun _ => h.keys hr, fun _ => ⟨e₁, he₁, _, hn₁, hnp, rfl, hd₁⟩,
    fun hc => Bool.noConfusion hc, ?_⟩
  · have := h.numbers hr
    rw [ha] at this
    exact this
  · -- The new secret is the one of index `2 ^ 48 - 1 - number`, just below the stored ones.
    obtain ⟨m, hm⟩ : ∃ m, 2 ^ 48 - ch.counterpartyCommitmentNumber = m + 1 :=
      ⟨2 ^ 48 - ch.counterpartyCommitmentNumber - 1, by omega⟩
    have hidx : indexForCommitment ch.counterpartyCommitmentNumber = m := by
      rw [indexForCommitment_eq (by omega), maxIndex]
      omega
    have hinsert : ch.counterpartySecrets.insert C.sha256Bytes32 m secret = .ok secrets := by
      unfold insertSecret at hins
      rw [hidx] at hins
      split at hins
      · next st hst => rw [hst, Except.ok.inj hins]
      · cases hins
      · cases hins
    have hf' : Holds C.sha256Bytes32 ch.counterpartySecrets (m + 1) (Function.update f m secret) :=
      (hm ▸ hf).congr fun i hi => (Function.update_of_ne (by omega) _ _).symm
    refine ⟨Function.update f m secret, ?_, fun e he hne => ?_⟩
    · show Holds _ secrets (2 ^ 48 - (ch.counterpartyCommitmentNumber + 1)) _
      rw [show 2 ^ 48 - (ch.counterpartyCommitmentNumber + 1) = m by omega]
      exact hf'.insert (by omega) (by rw [Function.update_self]; exact hinsert)
    · have hne' : e.number < ch.counterpartyCommitmentNumber + 1 := hne
      rcases Nat.lt_succ_iff_lt_or_eq.1 hne' with hlt' | heq
      · rw [Function.update_of_ne (by rw [maxIndex]; omega)]
        exact hpts e he hlt'
      · obtain rfl := h.number_inj he he₀ (heq.trans hn₀.symm)
        rw [show maxIndex - e.number = m by rw [maxIndex]; omega, Function.update_self]
        exact hsec

theorem move (hm : Move C ch ch') (h : Logged C ch) : Logged C ch' := by
  cases hm with
  | negotiate msg hmsg =>
    have hst : ch.state = .openSent := by
      simp only [checkAcceptChannel, Fault.bind_eq_ok, Fault.require_eq_ok] at hmsg
      exact hmsg.choose_spec.1
    exact h.early_update (by rw [hst]; rfl) (commitNumberObscureFactor_lt _ _ _) rfl rfl rfl rfl rfl
      rfl
  | bind funding hr => exact h.early_update hr h.obscure rfl rfl rfl rfl rfl rfl
  | signInitial point b st hr hst hp hb => exact h.signInitial hr hst hp hb
  | admin a ha =>
    refine h.frame rfl ?_ rfl rfl rfl rfl rfl rfl rfl rfl (fun _ => rfl) rfl
    rcases ha with ha | ⟨hpos, hlt⟩
    · show a.state.rank = 0 ↔ _
      rw [ha]
    · show a.state.rank = 0 ↔ _
      omega
  | nextPoint point hpos hn ha =>
    refine h.frame rfl Iff.rfl rfl rfl rfl rfl rfl rfl rfl rfl (fun hc => ?_) rfl
    rcases hc with hc | hc
    · simp [ha] at hc
    · omega
  | sign point b ha hp hb => exact h.sign ha (h.rank_pos_of_point hp) hp hb
  | revoke pending secret point secrets nextPoint ha hpd hpt hsec hins =>
    exact h.revoke ha hpd hpt hsec hins
  | storeInitial | park | offer | resolveInbound | fee | receive | resolveOutbound | receiveFee =>
    exact h.frame rfl Iff.rfl rfl rfl rfl rfl rfl rfl rfl rfl (fun _ => rfl) rfl

theorem step (h : Logged C ch) (i : Input) :
    Act.wp (Channel.step C i) ch (fun _ ch' => Logged C ch') (fun _ ch' => Logged C ch') := by
  by_cases hi : i.Plain
  · exact Act.wp_mono (step_moves hi ch) (fun _ _ hm => hm.invariant (fun _ _ => move) h)
      (fun _ _ hm => hm.invariant (fun _ _ => move) h)
  · cases i with
    | commitmentSigned msg =>
      refine (Act.wp_map _ _).2 (Act.wp_mono (onCommitmentSigned_spec msg ch) ?_ ?_)
      · rintro _ _ ⟨b, -, -, -, -, -, rfl⟩
        exact h.frame rfl Iff.rfl rfl rfl rfl rfl rfl rfl rfl rfl (fun _ => rfl) rfl
      · rintro _ _ rfl
        exact h
    | disconnect =>
      refine (Act.wp_map _ _).2 (Act.wp_mono (onDisconnect_spec ch) ?_ ?_)
      · rintro _ _ ⟨rs, -, rfl⟩
        exact h.frame rfl Iff.rfl rfl rfl rfl rfl rfl rfl rfl rfl (fun _ => rfl) rfl
      · rintro _ _ ⟨-, rfl⟩
        exact h
    | _ => exact absurd trivial hi

theorem run {ch₀ : Channel} {tr : Trace Input ChannelError (List Wire.Message)}
    (h₀ : Fresh C ch₀) (hr : Run (Channel.step C) ch₀ tr ch) : Logged C ch :=
  hr.induct (P := fun _ ch => Logged C ch) (initial h₀.initial) fun _ _ i h =>
    Act.wp_mono (h.step i) (fun _ _ h => h) (fun _ _ h _ _ => h)

end Logged

/-! ## Classification -/

/-- The monitor of the channel recognises the signed commitment `e`: as current with the data of
`e` while `e` is not revoked, as revoked with its number and the secret of its point after. -/
def Recognised (C : Crypto) (ch : Channel) (e : SignedCommitment) : Prop :=
  ∃ m, ChannelMonitor.fromChannel ch = some m ∧
    if e.number < ch.counterpartyCommitmentNumber then
      m.classify C e.built.tx = some (.counterpartyRevoked e.number) ∧
      ∃ secret, m.counterpartySecrets.secretFor C.sha256Bytes32 (indexForCommitment e.number) =
        some secret ∧ Keys.perCommitmentPoint C secret = some e.point
    else
      m.classify C e.built.tx = some .counterpartyCurrent ∧
      m.counterpartyCurrent = some ⟨e.number, e.built.txid, e.point, e.htlcs.zipIdx.map fun hi =>
        (hi.1, (e.built.htlcOutputIndices[hi.2]?).join)⟩

/-- The commitment is signed and sent, and the peer has not answered yet. -/
def InFlight (ch : Channel) (e : SignedCommitment) : Prop :=
  ch.awaitingRaa = true ∧ e.number = ch.counterpartyCommitmentNumber + 1

/-- Our own current commitment is the same transaction. -/
def IsOwn (ch : Channel) (e : SignedCommitment) : Prop :=
  ch.currentHolderCommitment.map (·.built.txid) = some e.built.txid

instance (ch : Channel) (e : SignedCommitment) : Decidable (InFlight ch e) :=
  inferInstanceAs (Decidable (_ ∧ _))

instance (ch : Channel) (e : SignedCommitment) : Decidable (IsOwn ch e) :=
  inferInstanceAs (Decidable (_ = _))

section
variable {ch : Channel} {e : SignedCommitment}

theorem fromChannel_spec (h : Logged C ch) (he : e ∈ ch.signed) :
    ∃ m, ChannelMonitor.fromChannel ch = some m ∧
      ch.fundingOutpoint = some m.fundingOutpoint ∧ m.obscureFactor = ch.obscureFactor ∧
      m.counterpartySecrets = ch.counterpartySecrets ∧
      m.holderCommitment = ch.currentHolderCommitment ∧
      m.counterpartyCurrent = ch.currentCounterpartyCommitment.map fun c =>
        ⟨c.number, c.txid, c.perCommitmentPoint, c.htlcs⟩ := by
  obtain ⟨_, p, -, -, hf, -⟩ := h.built e he
  obtain ⟨cp, hcp⟩ := h.keys (Nat.pos_of_ne_zero fun hr => by simp [(h.early hr).1] at he)
  simp only [ChannelMonitor.fromChannel, hcp, hf, Option.bind_eq_bind, Option.bind_some,
    Option.pure_def]
  exact ⟨_, rfl, rfl, rfl, rfl, rfl, rfl⟩

/-- How a signed commitment is classified. -/
theorem classify_signed (h : Logged C ch) (he : e ∈ ch.signed) {m : ChannelMonitor}
    (hf : ch.fundingOutpoint = some m.fundingOutpoint) (ho : m.obscureFactor = ch.obscureFactor) :
    m.classify C e.built.tx = some
      (if m.holderCommitment.map (·.built.txid) = some e.built.txid then .holderCommitment
      else if m.counterpartyCurrent.map (·.txid) = some e.built.txid then .counterpartyCurrent
      else if (m.counterpartySecrets.secretFor C.sha256Bytes32
        (indexForCommitment e.number)).isSome then .counterpartyRevoked e.number
      else .unknownCommitment) := by
  obtain ⟨hlt, p, hpn, hpo, hpf, hb⟩ := h.built e he
  have hfund : p.fundingOutpoint = m.fundingOutpoint := Option.some.inj (hpf.symm.trans hf)
  have hn : p.commitmentNumber < 2 ^ 48 := hpn ▸ hlt
  have hfac : p.obscureFactor < 2 ^ 48 := hpo ▸ h.obscure
  have hnum : m.commitmentNumber (p.tx C) ⟨p.fundingOutpoint, [], p.sequence, []⟩ = e.number := by
    rw [ChannelMonitor.commitmentNumber, ho, ← hpo, CommitmentTxParams.unobscure hn hfac, hpn]
  have hlock : (p.tx C).lockTime >>> 24 = 0x20 := by
    rw [CommitmentTxParams.lockTime_eq]
    exact (or_flag (CommitmentTxParams.mod_lt_24 _)).1
  have hseq : p.sequence >>> 24 = 0x80 := (or_flag (CommitmentTxParams.mod_lt_24 _)).1
  have htx : e.built.tx = p.tx C := by rw [hb]; rfl
  have htxid : e.built.txid = (p.tx C).txid C := by rw [hb]; rfl
  rw [htx, htxid, ChannelMonitor.classify, CommitmentTxParams.input_eq, hfund]
  simp only [List.find?_cons, decide_true, Option.bind_eq_bind, Option.bind_some, Option.pure_def]
  rw [← hfund, hnum]
  have hshape : (p.tx C).lockTime >>> 24 = 0x20 ∧ p.sequence >>> 24 = 0x80 ∧ (p.tx C).version = 2 :=
    ⟨hlock, hseq, rfl⟩
  simp only [hshape, not_true_eq_false, if_false, and_self]
  split_ifs <;> rfl

/-- The hash does not collide on the commitments the channel signed. -/
def NoCollision (ch : Channel) : Prop :=
  ∀ e ∈ ch.signed, ∀ e' ∈ ch.signed, e.built.txid = e'.built.txid →
    e.built.tx.serializeLegacy = e'.built.tx.serializeLegacy

instance (ch : Channel) : Decidable (NoCollision ch) :=
  inferInstanceAs (Decidable (∀ e ∈ ch.signed, ∀ e' ∈ ch.signed, _ → _))

/-- Without hash collisions, the transaction id determines the signed commitment. -/
theorem Logged.txid_inj (h : Logged C ch) (hcoll : NoCollision ch) {e' : SignedCommitment} (he : e ∈ ch.signed) (he' : e' ∈ ch.signed)
    (htx : e.built.txid = e'.built.txid) : e = e' := by
  obtain ⟨hlt, p, hpn, hpo, -, hb⟩ := h.built e he
  obtain ⟨hlt', q, hqn, hqo, -, hb'⟩ := h.built e' he'
  have hser := hcoll e he e' he' htx
  rw [hb, hb'] at hser
  have hnum := CommitmentTxParams.number_eq_of_serializeLegacy_eq (hpn ▸ hlt) (hqn ▸ hlt')
    (hpo ▸ h.obscure) (hqo.trans hpo.symm) hser
  exact h.number_inj he he' (by rw [← hpn, ← hqn, hnum])

theorem Logged.number_le (h : Logged C ch) (he : e ∈ ch.signed) :
    e.number ≤ ch.counterpartyCommitmentNumber ∨ InFlight ch e := by
  have hr : 0 < ch.state.rank := Nat.pos_of_ne_zero fun hr => by simp [(h.early hr).1] at he
  have hmem : e.number ∈ ch.signed.map (·.number) := List.mem_map_of_mem he
  rw [h.numbers hr, List.mem_range] at hmem
  cases ha : ch.awaitingRaa with
  | false =>
    rw [ha, Bool.toNat_false] at hmem
    exact .inl (by omega)
  | true =>
    rw [ha, Bool.toNat_true] at hmem
    by_cases hn : e.number ≤ ch.counterpartyCommitmentNumber
    · exact .inl hn
    · exact .inr ⟨ha, by omega⟩

/-- The secrets of exactly the revoked commitments are known. -/
theorem Logged.secretFor (h : Logged C ch) (he : e ∈ ch.signed) :
    (e.number < ch.counterpartyCommitmentNumber →
      ∃ secret, ch.counterpartySecrets.secretFor C.sha256Bytes32 (indexForCommitment e.number) =
        some secret ∧ Keys.perCommitmentPoint C secret = some e.point) ∧
    (ch.counterpartyCommitmentNumber ≤ e.number →
      ch.counterpartySecrets.secretFor C.sha256Bytes32 (indexForCommitment e.number) = none) := by
  obtain ⟨f, hf, hpts⟩ := h.secrets
  have hlt := (h.built e he).lt
  rw [indexForCommitment_eq hlt]
  refine ⟨fun hn => ⟨f (maxIndex - e.number), hf.secretFor ?_ ?_, hpts e he hn⟩,
    fun hn => hf.secretFor_lt ?_⟩ <;> rw [maxIndex] <;> omega

/-- When the monitor's answer on a signed commitment is the right one. -/
theorem Logged.recognised_iff (h : Logged C ch) (hcoll : NoCollision ch)
    (he : e ∈ ch.signed) : Recognised C ch e ↔ ¬ InFlight ch e ∧ ¬ IsOwn ch e := by
  obtain ⟨m, hm, hf, ho, hsec, hhc, hcc⟩ := fromChannel_spec h he
  obtain ⟨e₀, he₀, info, hn₀, hpt₀, hinfo, hd₀⟩ :=
    h.current (Nat.pos_of_ne_zero fun hr => by simp [(h.early hr).1] at he)
  have hcur : m.counterpartyCurrent = some ⟨e₀.number, e₀.built.txid, e₀.point,
      e₀.htlcs.zipIdx.map fun hi => (hi.1, (e₀.built.htlcOutputIndices[hi.2]?).join)⟩ := by
    rw [hcc, hinfo, Option.map_some, hd₀.number, hd₀.txid, hd₀.point, hd₀.htlcs]
  have htxid : m.counterpartyCurrent.map (·.txid) = some e.built.txid ↔ e = e₀ := by
    rw [hcur, Option.map_some, Option.some.injEq]
    exact ⟨fun heq => h.txid_inj hcoll he he₀ heq.symm, fun heq => by rw [heq]⟩
  have hclass := classify_signed h he hf ho
  rw [hhc, hsec] at hclass
  simp only [Recognised, hm, Option.some.injEq, exists_eq_left']
  change (_ ↔ ¬ _ ∧ ¬ ch.currentHolderCommitment.map (·.built.txid) = some e.built.txid)
  rw [hclass]
  by_cases hown : ch.currentHolderCommitment.map (·.built.txid) = some e.built.txid
  · -- Our own commitment is looked at first.
    simp [hown]
  rcases h.number_le he with hle | hfl
  · have hnot : ¬ InFlight ch e := fun hfl => by have := hfl.2; omega
    rcases Nat.lt_or_eq_of_le hle with hlt | heq
    · obtain ⟨secret, hs, hpt⟩ := (h.secretFor he).1 hlt
      have hne : e ≠ e₀ := fun heq => by rw [heq] at hlt; omega
      simp [hown, hnot, hlt, mt htxid.1 hne, hs, hsec, hpt]
    · obtain rfl := h.number_inj he he₀ (heq.trans hn₀.symm)
      simp [hown, hnot, heq, hcur]
  · have hge : ¬ e.number < ch.counterpartyCommitmentNumber := by have := hfl.2; omega
    have hne : e ≠ e₀ := fun heq => by have := hfl.2; rw [heq] at this; omega
    have hs := (h.secretFor he).2 (Nat.le_of_not_lt hge)
    simp [hown, hfl, hge, mt htxid.1 hne, hs]

end

/-- Over every run of a channel: a counterparty commitment it signed is recognised exactly when it
is not in flight and is not our own current commitment too. -/
theorem recognised_iff_of_run {ch₀ ch : Channel}
    {tr : Trace Input ChannelError (List Wire.Message)} (h₀ : Fresh C ch₀)
    (hr : Run (step C) ch₀ tr ch) (hcoll : NoCollision ch) :
    ∀ e ∈ ch.signed, Recognised C ch e ↔ ¬ InFlight ch e ∧ ¬ IsOwn ch e :=
  fun _ he => (Logged.run h₀ hr).recognised_iff hcoll he

/-- After a payment the opener has signed a revoked and a current commitment of its peer, and
recognises both. -/
theorem recognised_iff_of_run_alice :
    ∃ tr ch, Run (step Demo.C) Demo.alice.1 tr ch ∧ ch.signed.map (·.number) = [0, 1] ∧
      ch.counterpartyCommitmentNumber = 1 ∧ ∀ e ∈ ch.signed, Recognised Demo.C ch e := by
  have h : ((Run.exec (Pair.step Demo.C) Demo.start (Demo.handshake ++ Demo.payment.take 7)).map
      fun r => (r.2.chan .a)).any (fun ch => ch.signed.map (·.number) = [0, 1] ∧
        ch.counterpartyCommitmentNumber = 1 ∧ NoCollision ch ∧
        ∀ e ∈ ch.signed, ¬ InFlight ch e ∧ ¬ IsOwn ch e) = true := by
    rw [Demo.start_tabled]
    decide +kernel
  rw [Option.any_map, Option.any_eq_true] at h
  obtain ⟨r, hexec, h⟩ := h
  obtain ⟨hnum, hcp, hcoll, hall⟩ := of_decide_eq_true h
  obtain ⟨tr, hr, -⟩ := Pair.run_chan (Run.of_exec hexec) .a
  exact ⟨tr, _, hr, hnum, hcp, fun e he =>
    (recognised_iff_of_run Demo.alice_fresh hr hcoll e he).2 (hall e he)⟩

/-- The commitment of a `commitment_signed` in flight is classified as unknown. -/
theorem unrecognised_in_flight :
    ∃ tr ch e m, Run (step Demo.C) Demo.alice.1 tr ch ∧ e ∈ ch.signed ∧
      ChannelMonitor.fromChannel ch = some m ∧
      m.classify Demo.C e.built.tx = some .unknownCommitment ∧ ¬ Recognised Demo.C ch e := by
  have h : ((Run.exec (Pair.step Demo.C) Demo.start (Demo.handshake ++ Demo.payment.take 2)).bind
      fun r => (r.2.chan .a).signed[1]?.bind fun e =>
        (ChannelMonitor.fromChannel (r.2.chan .a)).bind (·.classify Demo.C e.built.tx)) =
      some .unknownCommitment := by
    rw [Demo.start_tabled]
    decide +kernel
  obtain ⟨r, hexec, h⟩ := Option.bind_eq_some_iff.1 h
  obtain ⟨e, he, h⟩ := Option.bind_eq_some_iff.1 h
  obtain ⟨m, hm, hclass⟩ := Option.bind_eq_some_iff.1 h
  obtain ⟨tr, hr, -⟩ := Pair.run_chan (Run.of_exec hexec) .a
  refine ⟨tr, _, e, m, hr, List.mem_of_getElem? he, hm, hclass, ?_⟩
  rintro ⟨m', hm', hrec⟩
  obtain rfl := Option.some.inj (hm.symm.trans hm')
  rw [hclass] at hrec
  split at hrec <;> simp at hrec

end Channel
