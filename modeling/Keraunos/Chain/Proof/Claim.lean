import Keraunos.Chain.Claim
import Keraunos.Chain.Proof.Persist
import Keraunos.Chain.Proof.Recognise
import Keraunos.Commitment.Proof.Outputs
import Mathlib.Data.List.ReduceOption

/-!
# The monitor claims what the channel verified

`Kept` follows our current commitment back to where it was built: at the opening, without HTLCs, or
at an accepted `commitment_signed`, with the parameters the channel still has. From it follows that
every second-stage transaction the monitor builds is one whose signature that message carried and
the channel verified, that the monitor pairs it with this signature, and that no HTLC it can claim
is left out (`claims_verified`), before and after the monitor has been stored and read back.
-/

open Bitcoin Commitment

/-! ## What `on_commitment_signed` verifies -/

namespace Channel

variable {C : Crypto}

/-- Handling `msg`, `on_commitment_signed` verifies `sig` for the second-stage transaction `tx`. -/
def Verifies (C : Crypto) (ch : Channel) (msg : Wire.CommitmentSigned) (tx : Transaction)
    (sig : Signature) : Prop :=
  ∃ b o htlc vout, ch.buildHolderCommitmentAt C (ch.holderCommitmentNumber + 1) = .ok b ∧
    (sig, o) ∈ msg.htlcSignatures.zip b.built.htlcsInOutputOrder ∧ b.htlcs[o.1]? = some htlc ∧
    (b.built.htlcOutputIndices[o.1]?).join = some vout ∧
    tx = buildHtlcTx C b.built.txid vout htlc b.keys ch.params.counterpartySelectedDelay
      ch.feerateHolder ∧
    C.verifyEcdsa (tx.segwitV0Sighash C o.2 (Msat.toSatFloor htlc.amountMsat)) sig
      b.keys.countersignatoryHtlcKey = true

/-- Once the signatures are verified there is one for each HTLC output, each verified for the
transaction of its output. -/
theorem verifies_of_verifyHtlcSigs {ch : Channel} {b : Built} {msg : Wire.CommitmentSigned}
    (hb : ch.buildHolderCommitmentAt C (ch.holderCommitmentNumber + 1) = .ok b)
    (hv : ch.verifyHtlcSigs C b msg.htlcSignatures = .ok ()) :
    msg.htlcSignatures.length = b.built.htlcsInOutputOrder.length ∧
    ∀ sig o htlc vout, (sig, o) ∈ msg.htlcSignatures.zip b.built.htlcsInOutputOrder →
      b.htlcs[o.1]? = some htlc → (b.built.htlcOutputIndices[o.1]?).join = some vout →
      ch.Verifies C msg (buildHtlcTx C b.built.txid vout htlc b.keys
        ch.params.counterpartySelectedDelay ch.feerateHolder) sig := by
  simp only [verifyHtlcSigs, Fault.bind_eq_ok, Fault.require_eq_ok, Fault.forM_eq_ok,
    Fault.expect_eq_ok] at hv
  obtain ⟨-, hlen, hall⟩ := hv
  refine ⟨hlen, fun sig o htlc vout hmem hh hvout => ?_⟩
  obtain ⟨digest, hd, hver⟩ := hall (sig, o) hmem
  have hsig : C.verifyEcdsa digest sig b.keys.countersignatoryHtlcKey = true := hver
  simp only [htlcSighash, hh, hvout, Option.bind_eq_bind, Option.bind_some, Option.pure_def,
    Option.some.injEq] at hd
  subst hd
  exact ⟨b, o, htlc, vout, hb, hmem, hh, hvout, rfl, hsig⟩

/-! ## Where the current commitment comes from -/

/-- Before normal operation there are no HTLCs, and before the funding no commitment. -/
structure Opening (ch : Channel) : Prop where
  htlcs : ch.state.rank < 3 → ch.htlcs = []
  unset : ch.state = .openSent → ch.currentHolderCommitment = none

/-- Our commitment as it was built, by the channel `ch₁`. -/
structure BuiltBy (C : Crypto) (ch₁ : Channel) (n : Nat) (b : Built) (hc : HolderCommitment) :
    Prop where
  build : ch₁.buildHolderCommitmentAt C n = .ok b
  built : hc.built = b.built
  keys : hc.keys = b.keys
  htlcs : hc.htlcs = b.htlcs
  feerate : hc.feerate = ch₁.feerateHolder

/-- Our commitment was built with the parameters of now: at the opening, without HTLCs, or at an
accepted `commitment_signed` of the run. -/
def Kept (C : Crypto) (ch₀ : Channel) (tr : Trace Input ChannelError (List Wire.Message))
    (ch : Channel) (hc : HolderCommitment) : Prop :=
  ∃ ch₁ n b, BuiltBy C ch₁ n b hc ∧ ch₁.params = ch.params ∧
    (hc.htlcs = [] ∧ hc.counterpartyHtlcSigs = [] ∨ ∃ tr₁ msg out tr₂, tr = tr₁ ++ (.commitmentSigned msg, .ok out) :: tr₂ ∧
      Run (step C) ch₀ tr₁ ch₁ ∧ n = ch₁.holderCommitmentNumber + 1 ∧
      ch₁.verifyHtlcSigs C b msg.htlcSignatures = .ok () ∧
      hc.counterpartyHtlcSigs = msg.htlcSignatures)

section
variable {ch ch' : Channel}

/-- What a mutation of one HTLC leaves of an empty list. -/
theorem htlcMut_nil (key : Bool × HtlcId) (f : Htlc → Htlc) : htlcMut key f [] = [] := rfl

theorem foldl_htlcMut_nil (keys : List (Bool × HtlcId)) (f : Htlc → Htlc) :
    keys.foldl (fun hs k => htlcMut k f hs) [] = [] := by
  induction keys with
  | nil => rfl
  | cons k keys ih => exact ih

namespace Opening

theorem initial (h : Initial ch) : Opening ch := ⟨fun _ => h.htlcs, fun _ => h.holderCommitment⟩

theorem move (hm : Move C ch ch') (h : Opening ch) : Opening ch' := by
  cases hm with
  | storeInitial sig b hst hb hv =>
    refine ⟨h.htlcs, fun hop => ?_⟩
    rcases hst with hst | hst <;> cases hst.symm.trans hop
  | signInitial point b st hrank hst hp hb =>
    refine ⟨fun _ => h.htlcs (by omega), fun hop => ?_⟩
    rw [show st = .openSent from hop] at hst
    exact absurd hst (by decide)
  | admin a ha =>
    rcases ha with ha | ⟨hpos, hlt⟩
    · exact ⟨fun hr => h.htlcs (ha ▸ hr), fun hop => h.unset (ha ▸ hop)⟩
    · refine ⟨fun hr => h.htlcs (Nat.lt_trans hlt hr), fun hop => ?_⟩
      rw [show a.state = .openSent from hop] at hlt
      exact absurd hlt (Nat.not_lt_zero _)
  | offer amountMsat paymentHash cltvExpiry onion source hst =>
    refine ⟨fun hr => ?_, h.unset⟩
    have hr' : ch.state.rank < 3 := hr
    rw [hst] at hr'
    exact absurd hr' (by decide)
  | receive msg hmsg =>
    have hst : ch.state = .normal := by
      simp only [checkUpdateAddHtlc, Fault.bind_eq_ok, Fault.require_eq_ok] at hmsg
      exact hmsg.choose_spec.1
    refine ⟨fun hr => ?_, h.unset⟩
    have hr' : ch.state.rank < 3 := hr
    rw [hst] at hr'
    exact absurd hr' (by decide)
  | resolveInbound id r x =>
    exact ⟨fun hr => by simp [Channel.resolveInbound, h.htlcs hr, htlcMut_nil], h.unset⟩
  | resolveOutbound id r x =>
    exact ⟨fun hr => by simp [Channel.resolveOutbound, h.htlcs hr, htlcMut_nil], h.unset⟩
  | revoke pending secret point secrets nextPoint =>
    refine ⟨fun hr => ?_, h.unset⟩
    simp [processed, gcHtlcs, acceptRevocation, h.htlcs hr, foldl_htlcMut_nil]
  | negotiate | bind | nextPoint | park | fee | receiveFee | sign => exact ⟨h.htlcs, h.unset⟩

end Opening

namespace Kept

variable {ch₀ : Channel} {tr : Trace Input ChannelError (List Wire.Message)} {hc : HolderCommitment}

/-- Later, whatever the step. -/
theorem later (h : Kept C ch₀ tr ch hc) (x : Input × Except ChannelError (List Wire.Message)) :
    Kept C ch₀ (tr ++ [x]) ch hc := by
  obtain ⟨ch₁, n, b, hb, hpar, horigin⟩ := h
  refine ⟨ch₁, n, b, hb, hpar, ?_⟩
  rcases horigin with hnil | ⟨tr₁, msg, out, tr₂, rfl, hrest⟩
  · exact .inl hnil
  · exact .inr ⟨tr₁, msg, out, tr₂ ++ [x], by simp, hrest⟩

/-- Every move keeps our commitment and the parameters, but the one that stores the commitment of
the opening. -/
theorem move (hm : Move C ch ch') (ho : Opening ch)
    (h : ∀ hc, ch.currentHolderCommitment = some hc → Kept C ch₀ tr ch hc) :
    ∀ hc, ch'.currentHolderCommitment = some hc → Kept C ch₀ tr ch' hc := by
  intro hc hhc
  cases hm with
  | negotiate msg hmsg =>
    have hst : ch.state = .openSent := by
      simp only [checkAcceptChannel, Fault.bind_eq_ok, Fault.require_eq_ok] at hmsg
      exact hmsg.choose_spec.1
    rw [ho.unset hst] at hhc
    cases hhc
  | storeInitial sig b hst hb hv =>
    obtain rfl := Option.some.inj hhc
    have hnil : ch.htlcs = [] := ho.htlcs (by
      rcases hst with hst | hst <;> simp [hst, ChannelState.rank])
    refine ⟨ch, 0, b, ⟨hb, rfl, rfl, rfl, rfl⟩, rfl, .inl ⟨?_, rfl⟩⟩
    obtain ⟨cp, keys, funding, -, -, -, -, rfl⟩ := buildHolderCommitmentAt_spec hb
    simp [commitmentHtlcs, hnil]
  | _ => exact h hc hhc

end Kept

/-- The invariant of a run. -/
structure KeepsHolder (C : Crypto) (ch₀ : Channel)
    (tr : Trace Input ChannelError (List Wire.Message)) (ch : Channel) : Prop where
  opening : Opening ch
  kept : ∀ hc, ch.currentHolderCommitment = some hc → Kept C ch₀ tr ch hc

namespace KeepsHolder

variable {ch₀ : Channel} {tr : Trace Input ChannelError (List Wire.Message)}

theorem later (h : KeepsHolder C ch₀ tr ch) (x : Input × Except ChannelError (List Wire.Message)) :
    KeepsHolder C ch₀ (tr ++ [x]) ch :=
  ⟨h.opening, fun hc hhc => (h.kept hc hhc).later x⟩

theorem moves (hm : Moves C ch ch') (h : KeepsHolder C ch₀ tr ch) : KeepsHolder C ch₀ tr ch' :=
  hm.invariant (fun _ _ hm h => ⟨h.opening.move hm, Kept.move hm h.opening h.kept⟩) h

/-- An accepted `commitment_signed` is where the new commitment comes from. -/
theorem accept {b : Built} {msg : Wire.CommitmentSigned} {out : List Wire.Message}
    (hr : Run (step C) ch₀ tr ch)
    (hst : ch.state = .normal ∨ ch.state = .shuttingDown)
    (hb : ch.buildHolderCommitmentAt C (ch.holderCommitmentNumber + 1) = .ok b)
    (hv : ch.verifyHtlcSigs C b msg.htlcSignatures = .ok ()) :
    KeepsHolder C ch₀ (tr ++ [(.commitmentSigned msg, .ok out)])
      (ch.acceptCommitment (ch.holderCommitmentNumber + 1) b msg).gcHtlcs := by
  refine ⟨⟨fun hrank => ?_, fun hop => ?_⟩, fun hc hhc => ?_⟩
  · have hrank' : ch.state.rank < 3 := hrank
    rcases hst with hst | hst <;> rw [hst] at hrank' <;> exact absurd hrank' (by decide)
  · rcases hst with hst | hst <;> cases hst.symm.trans hop
  · obtain rfl := Option.some.inj hhc
    exact ⟨ch, _, b, ⟨hb, rfl, rfl, rfl, rfl⟩, rfl, .inr ⟨tr, msg, out, [], rfl, hr, rfl, hv, rfl⟩⟩

theorem disconnect (h : KeepsHolder C ch₀ tr ch) {rs : List Rollback}
    (hrs : ch.htlcs.mapM ch.rollback = some rs) : KeepsHolder C ch₀ tr (ch.rolledBack rs) := by
  refine ⟨⟨fun hr => ?_, h.opening.unset⟩, h.kept⟩
  rw [h.opening.htlcs hr, List.mapM_nil] at hrs
  obtain rfl := Option.some.inj hrs
  rfl

theorem step (hr : Run (step C) ch₀ tr ch) (h : KeepsHolder C ch₀ tr ch) (i : Input) :
    Act.wp (Channel.step C i) ch (fun a ch' => KeepsHolder C ch₀ (tr ++ [(i, .ok a)]) ch')
      (fun e ch' => ∀ e', e = .err e' → KeepsHolder C ch₀ (tr ++ [(i, .error e')]) ch') := by
  by_cases hi : i.Plain
  · exact Act.wp_mono (step_moves hi ch) (fun _ _ hm => (h.moves hm).later _)
      (fun _ _ hm _ _ => (h.moves hm).later _)
  · cases i with
    | commitmentSigned msg =>
      refine (Act.wp_map _ _).2 (Act.wp_mono (onCommitmentSigned_spec msg ch) ?_ ?_)
      · rintro m _ ⟨b, hst, hb, -, hv, -, rfl⟩
        exact accept hr hst hb hv
      · rintro _ _ rfl _ _
        exact h.later _
    | disconnect =>
      refine (Act.wp_map _ _).2 (Act.wp_mono (onDisconnect_spec ch) ?_ ?_)
      · rintro _ _ ⟨rs, hrs, rfl⟩
        exact (h.disconnect hrs).later _
      · rintro _ _ ⟨-, rfl⟩ _ _
        exact h.later _
    | _ => exact absurd trivial hi

/-- In every run from a fresh channel. -/
theorem of_run (h₀ : Fresh C ch₀) (hr : Run (Channel.step C) ch₀ tr ch) :
    KeepsHolder C ch₀ tr ch := by
  induction hr with
  | nil =>
    refine ⟨Opening.initial h₀.initial, fun hc hhc => ?_⟩
    rw [h₀.initial.holderCommitment] at hhc
    cases hhc
  | @ok tr s s' i a hr hf ih =>
    have h := Act.wp_ok (step hr ih i) hf
    exact h
  | @err tr s s' i e hr hf ih =>
    have h := Act.wp_error (step hr ih i) hf
    exact h e rfl

end KeepsHolder

end

end Channel

/-! ## What the monitor claims -/

/-- The claim is the second-stage transaction `tx`, with `sig` as the counterparty's signature in
its witness. -/
def Claim.Completes (C : Crypto) (c : Claim) (tx : Transaction) (sig : Signature) : Prop :=
  ∃ ours preimage script, c.tx = tx.setWitness (htlcTxWitness C sig ours preimage script)

namespace ChannelMonitor

section
variable {C : Crypto} {hc : HolderCommitment}

/-- The HTLC can be claimed: it was offered by us, or we know the preimage. -/
def Claimable (m : ChannelMonitor) (htlc : HtlcOutputInCommitment) : Prop :=
  htlc.offered ∨ (m.preimages.get htlc.paymentHash).isSome

/-- The second-stage transaction of an HTLC of our commitment. -/
def secondStage (C : Crypto) (m : ChannelMonitor) (hc : HolderCommitment) (txid : Txid)
    (vout : Nat) (htlc : HtlcOutputInCommitment) : Transaction :=
  buildHtlcTx C txid vout htlc hc.keys m.counterpartySelectedDelay hc.feerate

/-- The claim of one HTLC output: nothing, or its transaction with the signature of its place. -/
theorem claimHtlc_spec (m : ChannelMonitor) (signer : ChannelSigner) (txid : Txid) {o : Nat × Script} {i vout : Nat} {htlc : HtlcOutputInCommitment}
    {sig : Signature} (hh : hc.htlcs[o.1]? = some htlc)
    (hv : (hc.built.htlcOutputIndices[o.1]?).join = some vout)
    (hs : hc.counterpartyHtlcSigs[i]? = some sig) :
    ∃ r, m.claimHtlc C signer hc txid o i = some r ∧ (m.Claimable htlc → r.isSome) ∧
      ∀ c ∈ r, c.Completes C (m.secondStage C hc txid vout htlc) sig := by
  have hknown : m.Claimable htlc ↔ htlc.offered = true ∨
      (if htlc.offered then none else m.preimages.get htlc.paymentHash).isSome = true := by
    cases ho : htlc.offered <;> simp [Claimable, ho]
  simp only [claimHtlc, hh, hv, hs, Option.bind_eq_bind, Option.bind_some, Option.pure_def,
    Option.map_some]
  by_cases hcl : m.Claimable htlc
  · rw [if_pos (hknown.1 hcl)]
    refine ⟨_, rfl, fun _ => rfl, fun c hc => ?_⟩
    obtain rfl := Option.some.inj hc
    exact ⟨_, _, _, rfl⟩
  · rw [if_neg (hknown.not.1 hcl)]
    exact ⟨none, rfl, fun h => absurd h hcl, by simp⟩

/-- Every HTLC output has its HTLC, its index and its signature. -/
def Indexed (hc : HolderCommitment) : Prop :=
  ∀ (o : Nat × Script) (i : Nat), hc.built.htlcsInOutputOrder[i]? = some o →
    ∃ htlc vout sig, hc.htlcs[o.1]? = some htlc ∧
    (hc.built.htlcOutputIndices[o.1]?).join = some vout ∧ hc.counterpartyHtlcSigs[i]? = some sig

/-- The second-stage claims: each pairs an output's transaction with the signature of its place,
and none that can be made is missing. -/
theorem claimHtlcs_spec (m : ChannelMonitor) (signer : ChannelSigner) (txid : Txid)
    (hi : Indexed hc) :
    ∃ stage, m.claimHtlcs C signer hc txid = some stage ∧
      (∀ c ∈ stage, ∃ (o : Nat × Script) (i : Nat) (htlc : _) (vout : _) (sig : _), hc.built.htlcsInOutputOrder[i]? = some o ∧
        hc.htlcs[o.1]? = some htlc ∧ (hc.built.htlcOutputIndices[o.1]?).join = some vout ∧
        hc.counterpartyHtlcSigs[i]? = some sig ∧
        c.Completes C (m.secondStage C hc txid vout htlc) sig) ∧
      ∀ o htlc vout, o ∈ hc.built.htlcsInOutputOrder → hc.htlcs[o.1]? = some htlc →
        (hc.built.htlcOutputIndices[o.1]?).join = some vout → m.Claimable htlc →
        ∃ c ∈ stage, ∃ sig, c.Completes C (m.secondStage C hc txid vout htlc) sig := by
  have hsome : ∀ oi ∈ hc.built.htlcsInOutputOrder.zipIdx,
      ∃ r, m.claimHtlc C signer hc txid oi.1 oi.2 = some r := by
    intro oi hoi
    obtain ⟨htlc, vout, sig, hh, hv, hs⟩ := hi _ _ (List.mem_zipIdx_iff_getElem?.1 hoi)
    obtain ⟨r, hr, -⟩ := claimHtlc_spec (C := C) m signer txid hh hv hs
    exact ⟨r, hr⟩
  obtain ⟨rs, hrs, hmem⟩ := List.exists_mapM hsome
  refine ⟨rs.reduceOption, by simp only [claimHtlcs, hrs, Option.map_some], fun c hc => ?_,
    fun o htlc vout ho hh hv hcl => ?_⟩
  · rw [List.reduceOption_mem_iff, hmem] at hc
    obtain ⟨oi, hoi, heq⟩ := hc
    have hget := List.mem_zipIdx_iff_getElem?.1 hoi
    obtain ⟨htlc, vout, sig, hh, hv, hs⟩ := hi _ _ hget
    obtain ⟨r, hr, -, hall⟩ := claimHtlc_spec (C := C) m signer txid hh hv hs
    obtain rfl := Option.some.inj (hr.symm.trans heq)
    exact ⟨oi.1, oi.2, htlc, vout, sig, hget, hh, hv, hs, hall c rfl⟩
  · obtain ⟨i, hget⟩ := List.getElem?_of_mem ho
    obtain ⟨-, -, sig, -, -, hs⟩ := hi _ _ hget
    obtain ⟨r, hr, hclaim, hall⟩ :=
      claimHtlc_spec (C := C) m signer txid hh hv hs
    obtain ⟨c, rfl⟩ := Option.isSome_iff_exists.1 (hclaim hcl)
    refine ⟨c, ?_, sig, hall c rfl⟩
    rw [List.reduceOption_mem_iff, hmem]
    exact ⟨(o, i), List.mem_zipIdx_iff_getElem?.2 hget, hr⟩

end

end ChannelMonitor

/-! ## The claims of a reachable channel -/

namespace Channel

variable {C : Crypto}

section
variable {ch₀ ch : Channel} {tr : Trace Input ChannelError (List Wire.Message)}
  {hc : HolderCommitment}

/-- The transaction of a commitment and its index lists are those of its parameters. -/
theorem BuiltBy.assembled {n : Nat} {b : Built} (h : BuiltBy C ch n b hc) :
    ∃ p : CommitmentTxParams, hc.built = p.assemble C ∧ p.htlcs = hc.htlcs ∧
      p.feerate = hc.feerate ∧ p.broadcasterDustLimitSat = ch.params.holderDustLimitSat := by
  obtain ⟨cp, keys, funding, -, -, -, -, rfl⟩ := buildHolderCommitmentAt_spec h.build
  exact ⟨ch.holderParams cp keys funding n, h.built, h.htlcs.symm, h.feerate.symm, rfl⟩

theorem Kept.txid_eq (h : Kept C ch₀ tr ch hc) : hc.built.txid = hc.built.tx.txid C := by
  obtain ⟨ch₁, n, b, hb, -, -⟩ := h
  obtain ⟨p, hbuilt, -⟩ := hb.assembled
  rw [hbuilt]
  rfl

/-- The three index lists of a kept commitment agree. -/
theorem Kept.indexed (h : Kept C ch₀ tr ch hc) : ChannelMonitor.Indexed hc := by
  obtain ⟨ch₁, n, b, hb, -, horigin⟩ := h
  obtain ⟨p, hbuilt, hhtlcs, -, -⟩ := hb.assembled
  intro o i ho
  have hmem : o ∈ (p.assemble C).htlcsInOutputOrder := hbuilt ▸ List.mem_of_getElem? ho
  obtain ⟨htlc, hh, -, -⟩ := CommitmentTxParams.mem_order.1 hmem
  obtain ⟨vout, hv, -⟩ := CommitmentTxParams.index_of_order hmem
  rw [hhtlcs] at hh
  rcases horigin with ⟨hnil, -⟩ | ⟨tr₁, msg, out, tr₂, -, -, rfl, hver, hsigs⟩
  · simp [hnil] at hh
  · obtain ⟨hlen, -⟩ := verifies_of_verifyHtlcSigs hb.build hver
    have hlt : i < hc.counterpartyHtlcSigs.length := by
      rw [hsigs, hlen, ← hb.built]
      exact (List.getElem?_eq_some_iff.1 ho).1
    exact ⟨htlc, vout, _, hh, by rw [hbuilt, hv]; rfl, List.getElem?_eq_getElem hlt⟩

/-- The second-stage transaction of an output was verified, at an accepted `commitment_signed` of
the run, with the signature of the same place. -/
theorem Kept.verified (h : Kept C ch₀ tr ch hc) {m : ChannelMonitor}
    (hdelay : m.counterpartySelectedDelay = ch.params.counterpartySelectedDelay)
    {o : Nat × Script} {i vout : Nat} {htlc : HtlcOutputInCommitment} {sig : Signature}
    (ho : hc.built.htlcsInOutputOrder[i]? = some o) (hh : hc.htlcs[o.1]? = some htlc)
    (hv : (hc.built.htlcOutputIndices[o.1]?).join = some vout)
    (hs : hc.counterpartyHtlcSigs[i]? = some sig) :
    ∃ tr₁ msg out tr₂ ch₁, tr = tr₁ ++ (.commitmentSigned msg, .ok out) :: tr₂ ∧
      Run (step C) ch₀ tr₁ ch₁ ∧
      ch₁.Verifies C msg (m.secondStage C hc hc.built.txid vout htlc) sig := by
  obtain ⟨ch₁, n, b, hb, hpar, ⟨hnil, -⟩ | ⟨tr₁, msg, out, tr₂, rfl, hr, rfl, hver, hsigs⟩⟩ := h
  · simp [hnil] at hh
  · refine ⟨tr₁, msg, out, tr₂, ch₁, rfl, hr, ?_⟩
    rw [hb.built] at ho hv
    rw [hb.htlcs] at hh
    rw [hsigs] at hs
    have hzip : (sig, o) ∈ msg.htlcSignatures.zip b.built.htlcsInOutputOrder :=
      List.mem_of_getElem? (i := i) (by rw [List.getElem?_zip_eq_some]; exact ⟨hs, ho⟩)
    have hok := (verifies_of_verifyHtlcSigs hb.build hver).2 sig o htlc vout hzip hh hv
    rw [ChannelMonitor.secondStage, hb.built, hb.keys, hb.feerate, hdelay, ← hpar]
    exact hok

/-- An untrimmed HTLC of a kept commitment has its output. -/
theorem Kept.untrimmed (h : Kept C ch₀ tr ch hc) {i : Nat} {htlc : HtlcOutputInCommitment}
    (hh : hc.htlcs[i]? = some htlc)
    (ht : htlcIsTrimmed htlc hc.feerate ch.params.holderDustLimitSat = false) :
    ∃ o ∈ hc.built.htlcsInOutputOrder, o.1 = i ∧
      ∃ vout, hc.built.htlcOutputIndices[i]? = some (some vout) := by
  obtain ⟨ch₁, n, b, hb, hpar, -⟩ := h
  obtain ⟨p, hbuilt, hhtlcs, hfee, hdust⟩ := hb.assembled
  have ho : (i, htlcWitnessScript C p.keys htlc) ∈ (p.assemble C).htlcsInOutputOrder := by
    refine CommitmentTxParams.mem_order.2 ⟨htlc, by rw [hhtlcs]; exact hh, ?_, rfl⟩
    rw [CommitmentTxParams.trimmed, hfee, hdust, hpar]
    exact ht
  obtain ⟨vout, hv, -⟩ := CommitmentTxParams.index_of_order ho
  rw [hbuilt]
  exact ⟨_, ho, rfl, vout, hv⟩

/-- The sweep of our balance does not panic. -/
theorem Kept.claimToLocal (h : Kept C ch₀ tr ch hc) (m : ChannelMonitor) (signer : ChannelSigner)
    {tx : Transaction} (hout : tx.output = hc.built.tx.output) (destination : Script)
    (feerate : FeeRatePerKw) (height : Nat) :
    ∃ sweep, m.claimToLocal C signer hc tx destination feerate height = some sweep ∧
      ∀ c ∈ sweep, c.what = "to_local sweep after CSV (our force close)" := by
  obtain ⟨ch₁, n, b, hb, -, -⟩ := h
  obtain ⟨p, hbuilt, -⟩ := hb.assembled
  unfold ChannelMonitor.claimToLocal
  cases hi : hc.built.toBroadcasterIndex with
  | none => exact ⟨[], rfl, by simp⟩
  | some vout =>
    have hlt : vout < tx.output.length := by
      rw [hout, hbuilt]
      exact CommitmentTxParams.broadcasterIndex_lt (hbuilt ▸ hi)
    simp only [List.getElem?_eq_getElem hlt, Option.bind_eq_bind, Option.bind_some]
    exact ⟨_, rfl, by simp⟩

end

end Channel

/-! ## Preimages -/

namespace PreimageMap

variable {m : PreimageMap} {hash hash' : PaymentHash} {p : PaymentPreimage}

theorem isSome_get : (m.get hash).isSome ↔ hash ∈ m.entries.map Prod.fst := by
  simp only [get, Option.isSome_map, List.find?_isSome, decide_eq_true_eq, List.mem_map]

/-- The entries after an insertion: the new one, and those of other keys. -/
theorem mem_insert {e : PaymentHash × PaymentPreimage} : e ∈ (m.insert hash p).entries ↔
    e = (hash, p) ∨ e ∈ m.entries ∧ e.1 ≠ hash := by
  by_cases h : hash ∈ m.entries.map Prod.fst
  · obtain ⟨e₀, he₀, rfl⟩ := List.mem_map.1 h
    rw [insert, dif_pos h]
    simp only [List.mem_map]
    constructor
    · rintro ⟨x, hx, hxe⟩
      split at hxe
      · exact .inl hxe.symm
      · next hne => exact .inr (hxe ▸ ⟨hx, hne⟩)
    · intro he
      rcases he with rfl | ⟨he, hne⟩
      · exact ⟨e₀, he₀, by simp⟩
      · exact ⟨e, he, by simp [hne]⟩
  · rw [insert_new h, List.mem_append, List.mem_singleton, or_comm]
    refine or_congr_right ⟨fun he => ⟨he, fun hk => h ?_⟩, fun he => he.1⟩
    exact List.mem_map.2 ⟨e, he, hk⟩

end PreimageMap

namespace ChannelMonitor

variable {C : Crypto} {m : ChannelMonitor}

/-- The monitor with preimages added. -/
def withPreimages (C : Crypto) (m : ChannelMonitor) (ps : List PaymentPreimage) : ChannelMonitor :=
  ps.foldl (addPreimage C) m

/-- Adding preimages changes nothing else. -/
theorem withPreimages_eq (ps : List PaymentPreimage) :
    m.withPreimages C ps = { m with preimages := (m.withPreimages C ps).preimages } := by
  induction ps generalizing m with
  | nil => rfl
  | cons p ps ih => exact ih (m := m.addPreimage C p)

/-- An added preimage is found under its hash, whatever is added after it. -/
theorem isSome_get_withPreimages {ps : List PaymentPreimage} {hash : PaymentHash}
    (h : (m.preimages.get hash).isSome ∨ ∃ p ∈ ps, paymentHash C p = hash) :
    ((m.withPreimages C ps).preimages.get hash).isSome := by
  induction ps generalizing m with
  | nil =>
    rcases h with h | ⟨p, hp, -⟩
    · exact h
    · cases hp
  | cons p ps ih =>
    apply ih (m := m.addPreimage C p)
    simp only [PreimageMap.isSome_get, List.mem_map, addPreimage, PreimageMap.mem_insert] at h ⊢
    by_cases hp : paymentHash C p = hash
    · exact .inl ⟨(hash, p), .inl (by rw [hp]), rfl⟩
    · rcases h with ⟨e, he, hk⟩ | ⟨q, hq, hk⟩
      · exact .inl ⟨e, .inr ⟨he, fun heq => hp (heq ▸ hk)⟩, hk⟩
      · rcases List.mem_cons.1 hq with rfl | hq
        · exact absurd hk hp
        · exact .inr ⟨q, hq, hk⟩

/-- Preimages stay keyed by their hashes. -/
theorem keyed_withPreimages (h : ∀ e ∈ m.preimages.entries, e.1 = paymentHash C e.2)
    (ps : List PaymentPreimage) :
    ∀ e ∈ (m.withPreimages C ps).preimages.entries, e.1 = paymentHash C e.2 := by
  induction ps generalizing m with
  | nil => exact h
  | cons p ps ih =>
    refine ih (m := m.addPreimage C p) fun e he => ?_
    rcases PreimageMap.mem_insert.1 he with rfl | ⟨he, -⟩
    · rfl
    · exact h e he

theorem fromChannel_eq {ch : Channel} (h : fromChannel ch = some m) :
    m.holderCommitment = ch.currentHolderCommitment ∧
    m.counterpartySelectedDelay = ch.params.counterpartySelectedDelay ∧
    m.counterpartySecrets = ch.counterpartySecrets ∧ m.preimages = .empty := by
  simp only [fromChannel, Option.bind_eq_bind, Option.bind_eq_some_iff, Option.pure_def,
    Option.some.injEq] at h
  obtain ⟨cp, -, funding, -, rfl⟩ := h
  exact ⟨rfl, rfl, rfl, rfl⟩

end ChannelMonitor

/-! ## Persistence -/

/-- The integers have the widths of the source's types, and a 16-bit count can count the HTLCs. -/
structure HolderCommitment.Counted (hc : HolderCommitment) : Prop where
  number : hc.number < 2 ^ 64
  vout : ∀ i ∈ hc.built.tx.input, i.previousOutput.vout < 2 ^ 32
  value : ∀ o ∈ hc.built.tx.output, o.value < 2 ^ 64
  fee : hc.built.feeSat < 2 ^ 64
  index : ∀ i ∈ hc.built.htlcOutputIndices, ∀ v ∈ i, v < 2 ^ 32
  broadcaster : ∀ v ∈ hc.built.toBroadcasterIndex, v < 2 ^ 32
  countersignatory : ∀ v ∈ hc.built.toCountersignatoryIndex, v < 2 ^ 32
  htlcs : hc.htlcs.length < 2 ^ 16
  htlc : ∀ h ∈ hc.htlcs, h.Fits
  feerate : hc.feerate < 2 ^ 32

structure ChannelMonitor.Counted (m : ChannelMonitor) : Prop extends m.HeadFits where
  holder : ∀ hc ∈ m.holderCommitment, hc.Counted
  feerate : m.holderCommitmentFeerate < 2 ^ 32

namespace Channel

section
variable {C : Crypto} {ch₀ ch : Channel} {tr : Trace Input ChannelError (List Wire.Message)}
  {hc : HolderCommitment}

/-- The transaction of a kept commitment is within the limits of the transaction parser. -/
theorem Kept.parseable (h : Kept C ch₀ tr ch hc) (hcount : hc.Counted) :
    hc.built.tx.Parseable ∧ hc.built.tx.Bounded := by
  obtain ⟨ch₁, n, b, hb, -, -⟩ := h
  obtain ⟨p, hbuilt, hhtlcs, -, -⟩ := hb.assembled
  have htx : hc.built.tx = p.tx C := by rw [hbuilt]; rfl
  have hin := CommitmentTxParams.input_eq (C := C) (p := p)
  have hvout := hcount.vout
  have hvalue := hcount.value
  have hlen := CommitmentTxParams.length_output (C := C) (p := p)
  rw [htx] at hvout hvalue ⊢
  constructor
  · refine ⟨Nat.le_of_ble_eq_true rfl, CommitmentTxParams.lockTime_lt, by simp [hin], ?_, ?_⟩
    · intro i hi
      have hv := hvout i hi
      rw [hin, List.mem_singleton] at hi
      subst hi
      exact ⟨hv, by simp, p.sequence_lt, by simp⟩
    · intro o ho
      exact ⟨hvalue o ho, (CommitmentTxParams.length_scriptPubkey ho).trans (by decide)⟩
  · have hcnt := hcount.htlcs
    refine ⟨by simp [hin], ?_, ?_⟩
    · rw [hhtlcs] at hlen
      have hlen' : (p.tx C).output.length ≤ hc.htlcs.length + 2 := hlen
      omega
    · intro i hi w hw
      rw [hin, List.mem_singleton] at hi
      subst hi
      cases hw

/-- A kept commitment with a short transaction fits its encoding. -/
theorem Kept.fits (h : Kept C ch₀ tr ch hc) (hcount : hc.Counted)
    (hshort : hc.built.tx.serialize.length < 2 ^ 16) :
    hc.Fits ∧ ∀ e ∈ hc.built.htlcsInOutputOrder, e.1 < 2 ^ 16 := by
  have hcnt := hcount.htlcs
  obtain ⟨ch₁, n, b, hb, -, horigin⟩ := h
  obtain ⟨p, hbuilt, hhtlcs, -, -⟩ := hb.assembled
  have horder := CommitmentTxParams.length_order (C := C) (p := p)
  rw [← hbuilt, hhtlcs] at horder
  have hsigs : hc.counterpartyHtlcSigs.length < 2 ^ 16 := by
    rcases horigin with ⟨-, hnil⟩ | ⟨tr₁, msg, out, tr₂, -, -, rfl, hver, hs⟩
    · simp [hnil]
    · obtain ⟨hlen, -⟩ := verifies_of_verifyHtlcSigs hb.build hver
      rw [hs, hlen, ← hb.built]
      omega
  have hindices : hc.built.htlcOutputIndices.length = hc.htlcs.length := by
    rw [hbuilt, ← hhtlcs]
    simp [CommitmentTxParams.assemble]
  have hentry : ∀ e ∈ hc.built.htlcsInOutputOrder, e.1 < 2 ^ 16 ∧ e.2.length < 2 ^ 16 := by
    intro e he
    rw [hbuilt] at he
    obtain ⟨x, hx, -, hscript⟩ := CommitmentTxParams.mem_order.1 he
    have hlt := (List.getElem?_eq_some_iff.1 hx).1
    rw [hhtlcs] at hlt
    exact ⟨by omega, by rw [hscript]; exact length_htlcWitnessScript _ _ _⟩
  refine ⟨⟨hcount.number, ⟨hshort, hcount.fee, by omega, hcount.index, by omega,
    fun e he => (hentry e he).2, hcount.broadcaster, hcount.countersignatory⟩, hsigs, hcnt,
    hcount.htlc, hcount.feerate⟩, fun e he => (hentry e he).1⟩

end

/-- The monitor of a reachable channel, with any preimages. -/
structure Snapshot (C : Crypto) (ch₀ : Channel) (tr : Trace Input ChannelError (List Wire.Message))
    (ch : Channel) (M : ChannelMonitor) : Prop where
  kept : ∀ hc ∈ M.holderCommitment, Kept C ch₀ tr ch hc
  coherent : M.Coherent C

theorem snapshot_of_run {C : Crypto} {ch₀ ch : Channel}
    {tr : Trace Input ChannelError (List Wire.Message)} (h₀ : Fresh C ch₀)
    (hr : Run (step C) ch₀ tr ch) {m : ChannelMonitor} (hm : ChannelMonitor.fromChannel ch = some m)
    (preimages : List PaymentPreimage) : Snapshot C ch₀ tr ch (m.withPreimages C preimages) := by
  obtain ⟨hholder, -, hsecrets, hempty⟩ := ChannelMonitor.fromChannel_eq hm
  have heq := ChannelMonitor.withPreimages_eq (C := C) (m := m) preimages
  have hkeyed := ChannelMonitor.keyed_withPreimages (C := C) (m := m) (by simp [hempty, PreimageMap.empty])
    preimages
  have hcur : ∀ hc ∈ (m.withPreimages C preimages).holderCommitment, Kept C ch₀ tr ch hc := by
    rw [heq]
    intro hc hhc
    exact (KeepsHolder.of_run h₀ hr).kept hc (hholder ▸ hhc)
  refine ⟨hcur, fun hc hhc => (hcur hc hhc).txid_eq, hkeyed, ?_⟩
  rw [heq]
  intro t e he
  obtain ⟨f, hf, -⟩ := (Logged.run h₀ hr).secrets
  exact ((hf.slot_iff t e).1 (hsecrets ▸ he)).1.bucket

namespace Snapshot

variable {C : Crypto} {K : KeyParsers} {ch₀ ch : Channel}
  {tr : Trace Input ChannelError (List Wire.Message)} {M M' : ChannelMonitor}

theorem readable (h : Snapshot C ch₀ tr ch M) (hcount : M.Counted)
    (hshort : ∀ hc ∈ M.holderCommitment, hc.built.tx.serialize.length < 2 ^ 16) :
    M.Readable ∧ ∀ hc ∈ M.holderCommitment, hc.Fits := by
  have hfits := fun hc hhc => (h.kept hc hhc).fits (hcount.holder hc hhc) (hshort hc hhc)
  exact ⟨⟨fun hc hhc => ((h.kept hc hhc).parseable (hcount.holder hc hhc)).1,
    fun hc hhc => (hfits hc hhc).2⟩, fun hc hhc => (hfits hc hhc).1⟩

/-- It comes back as it was, if its transaction and its preimages can be counted too. -/
theorem persisted (h : Snapshot C ch₀ tr ch M) (hcount : M.Counted) (hkeys : M.KeysRoundTrip K)
    (hshort : ∀ hc ∈ M.holderCommitment, hc.built.tx.serialize.length < 2 ^ 16)
    (hpre : M.preimages.entries.length < 2 ^ 16) :
    ChannelMonitor.deserialize C K M.serialize = .ok M := by
  obtain ⟨hread, hfits⟩ := h.readable hcount hshort
  exact ChannelMonitor.persist_round_trip C K M ⟨hcount.vout, hcount.capacity, hcount.obscure,
    hcount.holderDelay, hcount.counterpartyDelay, hcount.index, hcount.current, hfits, hcount.feerate,
    hpre⟩ h.coherent hread hkeys

/-- If it comes back at all, its transaction and its preimages were counted right. -/
theorem counted (h : Snapshot C ch₀ tr ch M) (hcount : M.Counted) (hkeys : M.KeysRoundTrip K)
    (hd : ChannelMonitor.deserialize C K M.serialize = .ok M') :
    (∀ hc ∈ M.holderCommitment, hc.built.tx.serialize.length < 2 ^ 16) ∧
      M.preimages.entries.length < 2 ^ 16 := by
  have hshort : ∀ hc ∈ M.holderCommitment, hc.built.tx.serialize.length < 2 ^ 16 := by
    intro hc hhc
    have hc₁ := hcount.holder hc hhc
    obtain ⟨hpar, hbnd⟩ := (h.kept hc hhc).parseable hc₁
    exact ChannelMonitor.tx_short_of_deserialize hcount.toHeadFits hkeys hd hhc hc₁.number hpar hbnd
  obtain ⟨hread, hfits⟩ := h.readable hcount hshort
  exact ⟨hshort, ChannelMonitor.preimages_short_of_deserialize hcount.toHeadFits hkeys hd
    (ChannelMonitor.reads_holderCommitment hfits h.coherent hread hkeys) hcount.feerate⟩

/-- It comes back as it was, if it comes back at all and its HTLCs can be counted. -/
theorem persisted_eq (h : Snapshot C ch₀ tr ch M) (hcount : M.Counted) (hkeys : M.KeysRoundTrip K)
    (hd : ChannelMonitor.deserialize C K M.serialize = .ok M') : M' = M := by
  obtain ⟨hshort, hpre⟩ := h.counted hcount hkeys hd
  rw [h.persisted hcount hkeys hshort hpre] at hd
  cases hd
  rfl

end Snapshot

/-! ## The main result -/

/-- The claim completes a second-stage transaction with the signature that was verified for it, at
an accepted `commitment_signed` of the run. -/
def VerifiedClaim (C : Crypto) (ch₀ : Channel)
    (tr : Trace Input ChannelError (List Wire.Message)) (c : Claim) : Prop :=
  ∃ tr₁ msg out tr₂ ch₁ tx sig, tr = tr₁ ++ (.commitmentSigned msg, .ok out) :: tr₂ ∧
    Run (step C) ch₀ tr₁ ch₁ ∧ ch₁.Verifies C msg tx sig ∧ c.Completes C tx sig

/-- In every reachable state, from the monitor of the channel with any preimages added, fresh or
read back from storage: a claim on our commitment is the sweep of our balance or a second-stage
transaction that was verified together with its signature, and every untrimmed HTLC that we
offered or know the preimage of has one, spending its own output. -/
theorem claims_verified {C : Crypto} {K : KeyParsers} {ch₀ ch : Channel}
    {tr : Trace Input ChannelError (List Wire.Message)} (h₀ : Fresh C ch₀)
    (hr : Run (step C) ch₀ tr ch) {hc : HolderCommitment}
    (hhc : ch.currentHolderCommitment = some hc) {m M : ChannelMonitor}
    (hm : ChannelMonitor.fromChannel ch = some m) (preimages : List PaymentPreimage)
    (hM : M = m.withPreimages C preimages ∨
      (m.withPreimages C preimages).Counted ∧ (m.withPreimages C preimages).KeysRoundTrip K ∧
        ChannelMonitor.deserialize C K (m.withPreimages C preimages).serialize = .ok M)
    (signer : ChannelSigner) {tx : Transaction} (hid : tx.txid C = hc.built.txid)
    (hout : tx.output = hc.built.tx.output) (destination : Script) (feerate : FeeRatePerKw)
    (height : Nat) :
    ∃ sweep stage,
      M.claimHolderOutputs C signer tx destination feerate height = some (sweep ++ stage) ∧
      (∀ c ∈ sweep, c.what = "to_local sweep after CSV (our force close)") ∧
      (∀ c ∈ stage, VerifiedClaim C ch₀ tr c) ∧
      ∀ (i : Nat) (htlc : HtlcOutputInCommitment), hc.htlcs[i]? = some htlc →
        htlcIsTrimmed htlc hc.feerate ch.params.holderDustLimitSat = false →
        (htlc.offered ∨ ∃ p ∈ preimages, paymentHash C p = htlc.paymentHash) →
        ∃ c ∈ stage, ∃ vout, hc.built.htlcOutputIndices[i]? = some (some vout) ∧
          c.tx.input.map (·.previousOutput) = [⟨hc.built.txid, vout⟩] := by
  obtain rfl : M = m.withPreimages C preimages := by
    rcases hM with hM | ⟨hcount, hkeys, hd⟩
    · exact hM
    · exact (snapshot_of_run h₀ hr hm preimages).persisted_eq hcount hkeys hd
  have hkept := (KeepsHolder.of_run h₀ hr).kept hc hhc
  obtain ⟨hholder, hdelay, -, -⟩ := ChannelMonitor.fromChannel_eq hm
  have heq := ChannelMonitor.withPreimages_eq (C := C) (m := m) preimages
  have hknown := @ChannelMonitor.isSome_get_withPreimages C m preimages
  revert hknown heq
  generalize m.withPreimages C preimages = M
  intro heq hknown
  have hcur : M.holderCommitment = some hc := by
    rw [heq]
    exact hholder.trans hhc
  have hdel : M.counterpartySelectedDelay = ch.params.counterpartySelectedDelay := by
    rw [heq]
    exact hdelay
  obtain ⟨sweep, hsweep, hwhat⟩ :=
    hkept.claimToLocal M signer hout destination feerate height
  obtain ⟨stage, hstage, hpaired, hall⟩ :=
    ChannelMonitor.claimHtlcs_spec (C := C) M signer hc.built.txid hkept.indexed
  refine ⟨sweep, stage, ?_, hwhat, fun c hcs => ?_, fun i htlc hh ht hcl => ?_⟩
  · simp only [ChannelMonitor.claimHolderOutputs, hcur, hsweep, hid, hstage, Option.bind_eq_bind,
      Option.bind_some, Option.pure_def]
  · obtain ⟨o, j, htlc, vout, sig, ho, hh, hv, hs, hcomp⟩ := hpaired c hcs
    obtain ⟨tr₁, msg, out, tr₂, ch₁, htr, hrun, hver⟩ := hkept.verified hdel ho hh hv hs
    exact ⟨tr₁, msg, out, tr₂, ch₁, _, sig, htr, hrun, hver, hcomp⟩
  · obtain ⟨o, ho, rfl, vout, hv⟩ := hkept.untrimmed hh ht
    have hclaim : M.Claimable htlc := by
      rcases hcl with hcl | hcl
      · exact .inl hcl
      · exact .inr (hknown (.inr hcl))
    obtain ⟨c, hcs, sig, ours, preimage, script, htx⟩ :=
      hall o htlc vout ho hh (by rw [hv]; rfl) hclaim
    refine ⟨c, hcs, vout, hv, ?_⟩
    rw [htx]
    rfl

/-- The receiver of a payment, who knows the preimage. -/
theorem claims_verified_bob :
    ∃ tr ch hc m, Run (step Demo.C) Demo.bob.1 tr ch ∧ ch.currentHolderCommitment = some hc ∧
      ChannelMonitor.fromChannel ch = some m ∧
      ∃ sweep stage, (m.withPreimages Demo.C [Demo.bytes 3]).claimHolderOutputs Demo.C
          (Demo.signer 2) hc.built.tx [] 1000 0 = some (sweep ++ stage) ∧ stage ≠ [] ∧
        ∀ c ∈ stage, VerifiedClaim Demo.C Demo.bob.1 tr c := by
  have h : ((Run.exec (Pair.step Demo.C) Demo.start (Demo.handshake ++ Demo.payment)).bind fun r => do
      let hc ← (r.2.chan .b).currentHolderCommitment
      let m ← ChannelMonitor.fromChannel (r.2.chan .b)
      let htlc ← hc.htlcs[0]?
      if hc.built.tx.txid Demo.C = hc.built.txid ∧
          htlcIsTrimmed htlc hc.feerate (r.2.chan .b).params.holderDustLimitSat = false ∧
          paymentHash Demo.C (Demo.bytes 3) = htlc.paymentHash then
        return (r, hc, m, htlc)
      else none).isSome = true := by
    rw [Demo.start_tabled]
    decide +kernel
  obtain ⟨⟨r, hc, m, htlc⟩, hx⟩ := Option.isSome_iff_exists.1 h
  simp only [Option.bind_eq_bind, Option.bind_eq_some_iff, Option.ite_none_right_eq_some,
    Option.pure_def, Option.some.injEq, Prod.mk.injEq] at hx
  obtain ⟨r', hexec, hc', hhc, m', hm, htlc', hh, ⟨hid, ht, hhash⟩, rfl, rfl, rfl, rfl⟩ := hx
  obtain ⟨tr, hr, -⟩ := Pair.run_chan (Run.of_exec hexec) .b
  obtain ⟨sweep, stage, hclaims, -, hver, hall⟩ := claims_verified (K := KeyParsers.transparent)
    Demo.bob_fresh hr hhc hm [Demo.bytes 3] (.inl rfl) (Demo.signer 2) hid rfl [] 1000 0
  obtain ⟨c, hcs, -⟩ := hall 0 htlc' hh ht (.inr ⟨_, List.mem_singleton_self _, hhash⟩)
  exact ⟨tr, _, hc', m', hr, hhc, hm, sweep, stage, hclaims, List.ne_nil_of_mem hcs, hver⟩

end Channel
