import Keraunos.Channel.Pair
import Keraunos.Channel.Proof.Moves

/-!
# Revocation discipline

Along every run of a channel, whatever the peer sends: the stored commitment has the channel's
number and a verified signature (`Guarded`), the fresh revocations release the secrets
`0, 1, 2, ..` in order, and a retransmission releases one of these again
(`revocation_discipline`).
-/

open Bitcoin Commitment

namespace Channel

variable {C : Crypto}

/-- A stored commitment: built at its number and signed by the peer. -/
structure Backed (C : Crypto) (ch : Channel) (hc : HolderCommitment) : Prop where
  number : hc.number = ch.holderCommitmentNumber
  built : ∃ p : CommitmentTxParams, p.commitmentNumber = hc.number ∧
    p.keys.perCommitmentPoint = ch.signer.perCommitmentPoint hc.number ∧ hc.built = p.assemble C
  verified : ch.verifyCounterpartyFundingSig C hc.built hc.counterpartySig = .ok ()

/-- The invariant of the stored commitment. -/
structure Guarded (C : Crypto) (signer : ChannelSigner) (ch : Channel) : Prop where
  signer : ch.signer = signer
  early : ch.state.rank < 3 → ch.holderCommitmentNumber = 0
  unset : ch.state = .openSent → ch.currentHolderCommitment = none
  backed : ∀ hc, ch.currentHolderCommitment = some hc → Backed C ch hc

theorem derive_point {point : PublicKey} {a b : ChannelPublicKeys} {keys : TxCreationKeys}
    (h : TxCreationKeys.derive C point a b = some keys) : keys.perCommitmentPoint = point := by
  simp only [TxCreationKeys.derive, Option.bind_eq_bind, Option.bind_eq_some_iff, Option.pure_def,
    Option.some.injEq] at h
  obtain ⟨_, _, _, _, _, _, _, _, rfl⟩ := h
  rfl

theorem buildCommitmentTx_eq {p : CommitmentTxParams} {b : BuiltCommitmentTx}
    (h : buildCommitmentTx C p = some b) : p.commitmentNumber < 2 ^ 48 ∧ b = p.assemble C := by
  unfold buildCommitmentTx at h
  split at h
  · next hn => exact ⟨hn, (Option.some.inj h).symm⟩
  · cases h

theorem buildHolderCommitmentAt_spec {ch : Channel} {n : Nat} {b : Built}
    (h : ch.buildHolderCommitmentAt C n = .ok b) :
    ∃ cp keys funding, ch.counterpartyPubkeys = some cp ∧
      TxCreationKeys.derive C (ch.signer.perCommitmentPoint n) ch.holderPubkeys cp = some keys ∧
      ch.fundingOutpoint = some funding ∧ n < 2 ^ 48 ∧
      b = ⟨(ch.holderParams cp keys funding n).assemble C, keys, ch.commitmentHtlcs true⟩ := by
  simp only [buildHolderCommitmentAt, counterparty, Fault.bind_eq_ok, Fault.okOr_eq_ok,
    Fault.expect_eq_ok, pure, Except.pure, Except.ok.injEq] at h
  obtain ⟨cp, hcp, keys, hk, funding, hf, built, hb, rfl⟩ := h
  obtain ⟨hn, rfl⟩ := buildCommitmentTx_eq hb
  exact ⟨cp, keys, funding, hcp, hk, hf, hn, rfl⟩

namespace Guarded

variable {signer : ChannelSigner} {ch ch' : Channel}

/-- A commitment just built and verified is backed. -/
theorem backed_of_build {n : Nat} {b : Built} {sig : Signature}
    (hb : ch.buildHolderCommitmentAt C n = .ok b)
    (hv : ch.verifyCounterpartyFundingSig C b.built sig = .ok ()) {hc : HolderCommitment}
    (hnum : hc.number = n) (hbuilt : hc.built = b.built) (hsig : hc.counterpartySig = sig)
    (hn : ch'.holderCommitmentNumber = n) (hs : ch'.signer = ch.signer)
    (hver : ch'.verifyCounterpartyFundingSig C = ch.verifyCounterpartyFundingSig C) :
    Backed C ch' hc := by
  obtain ⟨cp, keys, funding, -, hk, -, -, rfl⟩ := buildHolderCommitmentAt_spec hb
  refine ⟨hnum.trans hn.symm, ⟨_, hnum.symm, ?_, hbuilt⟩, ?_⟩
  · rw [hs, hnum]
    exact derive_point hk
  · rw [hver, hbuilt, hsig]
    exact hv

/-- The invariant only depends on these fields. -/
theorem frame (h : Guarded C signer ch) (hs : ch'.signer = ch.signer) (hst : ch'.state = ch.state)
    (hn : ch'.holderCommitmentNumber = ch.holderCommitmentNumber)
    (hcur : ch'.currentHolderCommitment = ch.currentHolderCommitment)
    (hver : ch'.verifyCounterpartyFundingSig C = ch.verifyCounterpartyFundingSig C) :
    Guarded C signer ch' := by
  refine ⟨hs.trans h.signer, by rw [hst, hn]; exact h.early, by rw [hst, hcur]; exact h.unset,
    fun hc hhc => ?_⟩
  obtain ⟨hnum, hbuilt, hv⟩ := h.backed hc (hcur ▸ hhc)
  exact ⟨hn ▸ hnum, hs ▸ hbuilt, hver ▸ hv⟩

theorem move (hm : Move C ch ch') (h : Guarded C signer ch) : Guarded C signer ch' := by
  cases hm with
  | negotiate msg hmsg =>
    have hst : ch.state = .openSent := by
      simp only [checkAcceptChannel, Fault.bind_eq_ok, Fault.require_eq_ok] at hmsg
      exact hmsg.choose_spec.1
    refine ⟨h.signer, h.early, h.unset, fun hc hhc => ?_⟩
    rw [h.unset hst] at hhc
    cases hhc
  | storeInitial sig b hst hb hv =>
    have hn : ch.holderCommitmentNumber = 0 := h.early (by
      rcases hst with hst | hst <;> simp [hst, ChannelState.rank])
    refine ⟨h.signer, h.early, fun hop => ?_, fun hc hhc => ?_⟩
    · rcases hst with hst | hst <;> cases hst.symm.trans hop
    · obtain rfl := Option.some.inj hhc
      exact backed_of_build hb hv rfl rfl rfl hn rfl rfl
  | signInitial point b st hrank hst hp hb =>
    have hn : ch.holderCommitmentNumber = 0 := h.early (by omega)
    refine ⟨h.signer, fun _ => hn, fun hop => ?_, fun hc hhc => ?_⟩
    · rw [show st = .openSent from hop] at hst
      exact absurd hst (by decide)
    · obtain ⟨hnum, hbuilt, hv⟩ := h.backed hc hhc
      exact ⟨hnum, hbuilt, hv⟩
  | admin a ha =>
    rcases ha with ha | ⟨hpos, hlt⟩
    · exact h.frame rfl ha rfl rfl rfl
    · refine ⟨h.signer, fun hr => h.early (Nat.lt_trans hlt hr), fun hop => ?_, fun hc hhc => ?_⟩
      · rw [show a.state = .openSent from hop] at hlt
        exact absurd hlt (Nat.not_lt_zero _)
      · obtain ⟨hnum, hbuilt, hv⟩ := h.backed hc hhc
        exact ⟨hnum, hbuilt, hv⟩
  | bind | nextPoint | park | offer | resolveInbound | fee | receive | resolveOutbound | receiveFee
  | sign | revoke => exact h.frame rfl rfl rfl rfl rfl

theorem moves (hm : Moves C ch ch') (h : Guarded C signer ch) : Guarded C signer ch' :=
  hm.invariant (fun _ _ => move) h

theorem acceptCommitment (h : Guarded C signer ch) {b : Built} {msg : Wire.CommitmentSigned}
    (hst : ch.state = .normal ∨ ch.state = .shuttingDown)
    (hb : ch.buildHolderCommitmentAt C (ch.holderCommitmentNumber + 1) = .ok b)
    (hv : ch.verifyCounterpartyFundingSig C b.built msg.signature = .ok ()) :
    Guarded C signer (ch.acceptCommitment (ch.holderCommitmentNumber + 1) b msg).gcHtlcs := by
  refine ⟨h.signer, fun hr => ?_, fun hop => ?_, fun hc hhc => ?_⟩
  · have hr' : ch.state.rank < 3 := hr
    rcases hst with hst | hst <;> rw [hst] at hr' <;> exact absurd hr' (by decide)
  · rcases hst with hst | hst <;> cases hst.symm.trans hop
  · obtain rfl := Option.some.inj hhc
    exact backed_of_build hb hv rfl rfl rfl rfl rfl rfl

theorem initial (h : Initial ch) : Guarded C ch.signer ch :=
  ⟨rfl, fun _ => h.holderNumber, fun _ => h.holderCommitment, fun hc hhc => by
    rw [h.holderCommitment] at hhc; cases hhc⟩

end Guarded

/-! ## The messages of a step -/

/-- No message of `ms` is a revocation. -/
def NoRevocation (ms : List Wire.Message) : Prop := ∀ m, Wire.Message.revokeAndAck m ∉ ms

theorem flushRemoval_noRevocation {M : Type} {wrap : M → Wire.Message}
    (hw : ∀ m r, wrap m ≠ .revokeAndAck r) (x : ChannelAct (Option M)) (ch : Channel) :
    Act.wp (flushRemoval wrap x) ch (fun o _ => NoRevocation o.messages) (fun _ _ => True) := by
  simp only [flushRemoval, Act.wp_bind, Act.wp_attempt]
  refine Act.wp_iff.2 ⟨?_, ?_⟩
  · rintro (_ | m) ch' -
    · exact trivial
    · simp [NoRevocation, fun r => (hw m r).symm]
  · rintro e ch' -
    refine ⟨?_, fun _ => trivial⟩
    rintro (_ | _ | _) - <;> simp [NoRevocation]

theorem flushOp_noRevocation (op : HoldingCellOp) (ch : Channel) :
    Act.wp (flushOp C op) ch (fun o _ => NoRevocation o.messages) (fun _ _ => True) := by
  cases op with
  | add =>
    simp only [flushOp, Act.wp_bind, Act.wp_attempt]
    refine Act.wp_iff.2 ⟨?_, ?_⟩
    · rintro (_ | m) ch' - <;> simp [NoRevocation]
    · rintro e ch' -
      refine ⟨?_, fun _ => trivial⟩
      rintro (_ | _ | _) - <;> simp [NoRevocation]
  | fulfill | fail | failMalformed => exact flushRemoval_noRevocation (by simp) _ _

theorem flushOps_noRevocation (ops : List HoldingCellOp) (ch : Channel) :
    Act.wp (flushOps C ops) ch (fun o _ => NoRevocation o.messages) (fun _ _ => True) := by
  induction ops generalizing ch with
  | nil => simp [flushOps, NoRevocation]
  | cons op ops ih =>
    simp only [flushOps, Act.wp_bind, Act.wp_pure]
    refine Act.wp_mono (flushOp_noRevocation op ch) (fun a ch₁ ha => ?_) (fun _ _ _ => trivial)
    refine Act.wp_mono (ih ch₁) (fun b _ hb m hm => ?_) (fun _ _ _ => trivial)
    exact (List.mem_append.1 hm).elim (ha m) (hb m)

theorem onRevokeAndAck_noRevocation (msg : Wire.RevokeAndAck) (ch : Channel) :
    Act.wp (onRevokeAndAck C msg) ch (fun o _ => NoRevocation o.toSend) (fun _ _ => True) := by
  simp only [onRevokeAndAck, collectForwardable, maybeSendCommitmentSigned, Act.wp_bind,
    Act.wp_get, Act.wp_lift, Act.wp_expect, Act.wp_set, Act.wp_modify, Act.wp_pure]
  refine ⟨fun _ _ => ⟨fun _ _ => ⟨fun _ _ => ⟨fun _ _ => ⟨fun _ _ => ⟨fun _ _ => ?_,
    fun _ _ => trivial⟩, fun _ _ => trivial⟩, fun _ => trivial⟩, fun _ => trivial⟩,
    fun _ => trivial⟩, fun _ _ => trivial⟩
  refine Act.wp_mono (flushOps_noRevocation _ _) (fun o ch₁ ho => ?_) (fun _ _ _ => trivial)
  refine Act.wp_iff.2 ⟨fun cs _ _ m hm => ?_, fun _ _ _ => trivial⟩
  rcases List.mem_append.1 hm with hm | hm
  · exact ho m hm
  · rcases cs with _ | cs <;> simp at hm

theorem coveredUpdates_noRevocation (ch : Channel) (pending : PendingCounterpartyCommitment) :
    NoRevocation (ch.coveredUpdates pending) := by
  intro m hm
  simp only [coveredUpdates, List.mem_append, List.mem_map, List.mem_filterMap,
    Option.mem_toList, Option.map_eq_some_iff] at hm
  rcases hm with (⟨_, -, h⟩ | ⟨h, -, hr⟩) | ⟨_, -, h⟩
  · cases h
  · unfold removalMessage at hr
    split at hr <;> simp at hr
  · cases h

/-- A `channel_reestablish` brings back our last revocation or none. -/
theorem onChannelReestablish_revocation {ch : Channel} {msg : Wire.ChannelReestablish}
    {actions : ReestablishActions} (h : ch.onChannelReestablish C msg = .ok actions)
    {m : Wire.RevokeAndAck} (hm : .revokeAndAck m ∈ actions.messages) :
    m = ch.lastRevokeAndAck ∧ 0 < ch.holderCommitmentNumber := by
  have hready : ∀ ms, .revokeAndAck m ∈ (ch.withChannelReady msg ms).messages →
      .revokeAndAck m ∈ ms := by
    intro ms hms
    unfold withChannelReady at hms
    split at hms
    · simpa using hms
    · exact hms
  have hresent : ∀ ms, ch.retransmitCommitment C = .ok ms → NoRevocation ms := by
    intro ms hms m hm
    simp only [retransmitCommitment, Fault.bind_eq_ok, Fault.expect_eq_ok, Fault.okOr_eq_ok, pure,
      Except.pure, Except.ok.injEq] at hms
    obtain ⟨pending, -, _, -, _, -, _, -, _, -, rfl⟩ := hms
    rcases List.mem_append.1 hm with hm | hm
    · exact coveredUpdates_noRevocation ch pending m hm
    · simp at hm
  have hpart : ∀ ms, ch.reestablishCommitment C msg ms = .ok actions → .revokeAndAck m ∈ ms := by
    intro ms hms
    simp only [reestablishCommitment, Fault.bind_eq_ok] at hms
    obtain ⟨_, -, hms⟩ := hms
    split at hms
    · obtain ⟨resent, hre, hms⟩ := Fault.bind_eq_ok.1 hms
      obtain rfl := Except.ok.inj hms
      rcases List.mem_append.1 (hready _ hm) with hm | hm
      · exact hm
      · exact absurd hm (hresent _ hre m)
    · split at hms
      · obtain rfl := Except.ok.inj hms
        exact hready _ hm
      · split at hms
        · obtain rfl := Except.ok.inj hms
          exact hm
        · cases hms
  simp only [onChannelReestablish] at h
  split at h
  · next hn => exact ⟨by simpa using hpart _ h, hn.2⟩
  · split at h
    · obtain rfl := Except.ok.inj h
      simp at hm
    · split at h
      · cases h
      · simpa using hpart _ h

/-- Only `commitment_signed` and `channel_reestablish` are answered with a revocation. -/
theorem step_noRevocation {i : Input} (hcs : ∀ msg, i ≠ .commitmentSigned msg)
    (hre : ∀ msg, i ≠ .channelReestablish msg) (ch : Channel) :
    Act.wp (step C i) ch (fun out _ => NoRevocation out) (fun _ _ => True) := by
  cases i with
  | commitmentSigned msg => exact absurd rfl (hcs msg)
  | channelReestablish msg => exact absurd rfl (hre msg)
  | revokeAndAck msg => exact (Act.wp_map _ _).2 (onRevokeAndAck_noRevocation msg ch)
  | closingSigned msg f =>
    refine (Act.wp_map _ _).2 (Act.wp_iff.2 ⟨fun o _ _ m hm => ?_, fun _ _ _ => trivial⟩)
    rcases (o : ClosingSignedOutcome) with _ | _ <;>
      simp [Input.toSend, ClosingSignedOutcome.toSend] at hm
  | _ =>
    refine (Act.wp_map _ _).2 (Act.wp_iff.2 ⟨fun o _ _ => ?_, fun _ _ _ => trivial⟩)
    simp [NoRevocation, Input.toSend]

/-! ## One call -/

section
variable {ch : Channel}

theorem Moves.number {ch' : Channel} (h : Moves C ch ch') :
    ch'.holderCommitmentNumber = ch.holderCommitmentNumber :=
  h.invariant (I := fun c => c.holderCommitmentNumber = ch.holderCommitmentNumber)
    (fun a b hab ha => by cases hab <;> exact ha) (.refl _)

theorem Moves.signer {ch' : Channel} (h : Moves C ch ch') : ch'.signer = ch.signer :=
  h.invariant (I := fun c => c.signer = ch.signer) (fun a b hab ha => by cases hab <;> exact ha) (.refl _)

/-- The stored commitment stays guarded. -/
theorem perform_guarded {signer : ChannelSigner} (h : Guarded C signer ch) (i : Input) :
    Act.wp (perform C i) ch (fun _ ch' => Guarded C signer ch') (fun e ch' => ∀ e', e = .err e' →
      Guarded C signer ch') := by
  by_cases hi : i.Plain
  · exact Act.wp_mono (perform_moves hi ch) (fun _ _ hm => h.moves hm) fun _ _ hm _ _ => h.moves hm
  · cases i with
    | commitmentSigned msg =>
      refine Act.wp_mono (onCommitmentSigned_spec msg ch) ?_ ?_
      · rintro _ _ ⟨b, hst, hb, hv, -, -, rfl⟩
        exact h.acceptCommitment hst hb hv
      · rintro _ _ rfl _ _
        exact h
    | disconnect =>
      refine Act.wp_mono (onDisconnect_spec ch) ?_ ?_
      · rintro _ _ ⟨rs, -, rfl⟩
        exact h.frame rfl rfl rfl rfl rfl
      · rintro _ _ ⟨-, rfl⟩ _ _
        exact h
    | _ => exact absurd trivial hi

/-- What a call reveals: the secrets of commitments before the one it leaves the channel at. -/
structure Reveals (ch : Channel) (i : Input) (a : i.Outcome) (ch' : Channel) : Prop where
  signer : ch'.signer = ch.signer
  le : ch.holderCommitmentNumber ≤ ch'.holderCommitmentNumber
  eq : (∀ msg, i ≠ .commitmentSigned msg) → ch'.holderCommitmentNumber = ch.holderCommitmentNumber
  secrets : ∀ m, .revokeAndAck m ∈ i.toSend a → ∃ k < ch'.holderCommitmentNumber,
    m.perCommitmentSecret = ch'.signer.releaseCommitmentSecret k

theorem perform_reveals (i : Input) :
    Act.wp (perform C i) ch (fun a ch' => Reveals ch i a ch') (fun e ch' => ∀ e', e = .err e' →
      ch'.signer = ch.signer ∧ ch'.holderCommitmentNumber = ch.holderCommitmentNumber) := by
  by_cases hcs : ∃ msg, i = .commitmentSigned msg
  · obtain ⟨msg, rfl⟩ := hcs
    refine Act.wp_mono (onCommitmentSigned_spec msg ch) ?_ ?_
    · rintro m _ ⟨b, -, -, -, -, rfl, rfl⟩
      refine ⟨rfl, Nat.le_succ _, fun hne => absurd rfl (hne msg), fun m' hm' => ?_⟩
      obtain rfl := Wire.Message.revokeAndAck.inj (List.mem_singleton.1 hm')
      exact ⟨ch.holderCommitmentNumber, Nat.lt_succ_self _, rfl⟩
    · rintro _ _ rfl _ _
      exact ⟨rfl, rfl⟩
  by_cases hd : i = .disconnect
  · subst hd
    refine Act.wp_mono (onDisconnect_spec ch) ?_ ?_
    · rintro _ _ ⟨rs, -, rfl⟩
      exact ⟨rfl, le_rfl, fun _ => rfl, fun _ hm => nomatch hm⟩
    · rintro _ _ ⟨-, rfl⟩ _ _
      exact ⟨rfl, rfl⟩
  by_cases hre : ∃ msg, i = .channelReestablish msg
  · obtain ⟨msg, rfl⟩ := hre
    simp only [perform, Act.wp_bind, Act.wp_get, Act.wp_lift]
    refine ⟨fun a ha => ⟨rfl, le_rfl, fun _ => rfl, fun m hm => ?_⟩, fun _ _ _ _ => ⟨trivial, trivial⟩⟩
    obtain ⟨rfl, hpos⟩ := onChannelReestablish_revocation ha hm
    exact ⟨ch.holderCommitmentNumber - 1, Nat.sub_lt hpos Nat.one_pos, rfl⟩
  have hplain : i.Plain := by
    cases i <;> first | trivial | exact hcs ⟨_, rfl⟩
  have hno := (Act.wp_map _ _).1 (step_noRevocation (C := C) (fun msg he => hcs ⟨msg, he⟩)
    (fun msg he => hre ⟨msg, he⟩) ch)
  refine Act.wp_mono (Act.wp_and (perform_moves hplain ch) hno) ?_ ?_
  · rintro a ch' ⟨hm, hno⟩
    exact ⟨hm.signer, hm.number.ge, fun _ => hm.number, fun m hmem => absurd hmem (hno m)⟩
  · rintro e ch' ⟨hm, -⟩ _ _
    exact ⟨hm.signer, hm.number⟩

end

/-! ## Runs -/

/-- The secret a fresh revocation released. -/
def freshSecret : Input × Except ChannelError (List Wire.Message) → Option Bytes32
  | (.commitmentSigned _, .ok [.revokeAndAck m]) => some m.perCommitmentSecret
  | _ => none

/-- The secrets released by the answers to `commitment_signed`, in order. -/
def freshSecrets (tr : Trace Input ChannelError (List Wire.Message)) : List Bytes32 :=
  tr.filterMap freshSecret

theorem freshSecrets_snoc {tr : Trace Input ChannelError (List Wire.Message)}
    {x : Input × Except ChannelError (List Wire.Message)} (h : freshSecret x = none) :
    freshSecrets (tr ++ [x]) = freshSecrets tr := by
  simp [freshSecrets, h]

/-- Every revocation in `tr` answers a `commitment_signed`, or answers a `channel_reestablish` with
a secret released before. -/
def NoNewSecrets (tr : Trace Input ChannelError (List Wire.Message)) : Prop :=
  ∀ tr₁ i out, tr₁ ++ [(i, .ok out)] <+: tr → ∀ m, Wire.Message.revokeAndAck m ∈ out →
    (∃ msg, i = .commitmentSigned msg ∧ out = [.revokeAndAck m]) ∨
      ((∃ msg, i = .channelReestablish msg) ∧ m.perCommitmentSecret ∈ freshSecrets tr₁)

/-- What is known of a run: the state, the secrets released so far, the retransmissions. -/
structure Disciplined (C : Crypto) (signer : ChannelSigner)
    (tr : Trace Input ChannelError (List Wire.Message)) (ch : Channel) : Prop where
  guarded : Guarded C signer ch
  fresh : freshSecrets tr =
    (List.range ch.holderCommitmentNumber).map signer.releaseCommitmentSecret
  old : NoNewSecrets tr

namespace Disciplined

variable {signer : ChannelSigner} {tr : Trace Input ChannelError (List Wire.Message)}
  {ch ch' : Channel}

theorem snoc_old {i : Input} {o : Except ChannelError (List Wire.Message)}
    (h : NoNewSecrets tr)
    (ho : ∀ out, o = .ok out → ∀ m, Wire.Message.revokeAndAck m ∈ out →
      (∃ msg, i = .commitmentSigned msg ∧ out = [.revokeAndAck m]) ∨
        ((∃ msg, i = .channelReestablish msg) ∧ m.perCommitmentSecret ∈ freshSecrets tr)) :
    NoNewSecrets (tr ++ [(i, o)]) := by
  intro tr₁ j out hpre m hm
  rcases List.prefix_concat_iff.1 hpre with heq | hpre
  · obtain ⟨rfl, hlast⟩ := List.append_inj' heq rfl
    obtain ⟨rfl, rfl⟩ := Prod.mk.inj (List.singleton_inj.1 hlast)
    exact ho out rfl m hm
  · exact h tr₁ j out hpre m hm

/-- A step that answers no `commitment_signed` keeps the number and releases nothing fresh. -/
theorem snoc_plain (h : Disciplined C signer tr ch) {i : Input} (hi : i.Plain)
    (hm : Moves C ch ch') {o : Except ChannelError (List Wire.Message)}
    (ho : ∀ out, o = .ok out → ∀ m, Wire.Message.revokeAndAck m ∈ out →
      (∃ msg, i = .channelReestablish msg) ∧ m.perCommitmentSecret ∈ freshSecrets tr) :
    Disciplined C signer (tr ++ [(i, o)]) ch' := by
  have hnum := hm.number
  refine ⟨h.guarded.moves hm, ?_, snoc_old h.old fun out hout m hmem => .inr (ho out hout m hmem)⟩
  have hnone : freshSecret (i, o) = none := by
    cases i <;> first | rfl | exact hi.elim
  rw [freshSecrets_snoc hnone, hnum, h.fresh]

/-- A step that is refused releases nothing. -/
theorem snoc_refused (h : Disciplined C signer tr ch) (i : Input) (e : ChannelError) :
    Disciplined C signer (tr ++ [(i, .error e)]) ch := by
  refine ⟨h.guarded, ?_, snoc_old h.old fun out hout => by cases hout⟩
  have hnone : freshSecret (i, .error e) = none := by cases i <;> rfl
  rw [freshSecrets_snoc hnone, h.fresh]

theorem commitmentSigned (h : Disciplined C signer tr ch) (msg : Wire.CommitmentSigned) :
    Act.wp (Channel.step C (.commitmentSigned msg)) ch
      (fun out ch' => Disciplined C signer (tr ++ [(.commitmentSigned msg, .ok out)]) ch')
      (fun e ch' => ∀ e', e = .err e' →
        Disciplined C signer (tr ++ [(.commitmentSigned msg, .error e')]) ch') := by
  refine (Act.wp_map _ _).2 (Act.wp_mono (onCommitmentSigned_spec msg ch) ?_ ?_)
  · rintro m ch' ⟨b, hst, hb, hv, -, rfl, rfl⟩
    simp only [Input.toSend]
    refine ⟨h.guarded.acceptCommitment hst hb hv, ?_, snoc_old h.old ?_⟩
    · simp only [freshSecrets, List.filterMap_append, List.filterMap_cons, freshSecret,
        List.filterMap_nil]
      rw [show tr.filterMap freshSecret = _ from h.fresh, h.guarded.signer]
      exact (by rw [List.range_succ, List.map_append, List.map_singleton] :
        (List.range (ch.holderCommitmentNumber + 1)).map signer.releaseCommitmentSecret = _).symm
    · intro out hout m hm
      obtain rfl := Except.ok.inj hout
      obtain rfl := Wire.Message.revokeAndAck.inj (List.mem_singleton.1 hm)
      exact .inl ⟨msg, rfl, rfl⟩
  · rintro _ _ rfl e' -
    exact h.snoc_refused _ _

theorem disconnect (h : Disciplined C signer tr ch) :
    Act.wp (Channel.step C .disconnect) ch
      (fun out ch' => Disciplined C signer (tr ++ [(.disconnect, .ok out)]) ch')
      (fun e ch' => ∀ e', e = .err e' →
        Disciplined C signer (tr ++ [(.disconnect, .error e')]) ch') := by
  refine (Act.wp_map _ _).2 (Act.wp_mono (onDisconnect_spec ch) ?_ ?_)
  · rintro _ _ ⟨rs, -, rfl⟩
    refine ⟨h.guarded.frame rfl rfl rfl rfl rfl, ?_, snoc_old h.old ?_⟩
    · exact (freshSecrets_snoc rfl).trans h.fresh
    · intro out hout m hm
      obtain rfl := Except.ok.inj hout
      cases hm
  · rintro _ _ ⟨rfl, -⟩ e' he
    cases he

theorem channelReestablish (h : Disciplined C signer tr ch) (msg : Wire.ChannelReestablish) :
    Act.wp (Channel.step C (.channelReestablish msg)) ch
      (fun out ch' => Disciplined C signer (tr ++ [(.channelReestablish msg, .ok out)]) ch')
      (fun e ch' => ∀ e', e = .err e' →
        Disciplined C signer (tr ++ [(.channelReestablish msg, .error e')]) ch') := by
  simp only [Channel.step, perform, Act.wp_bind, Act.wp_get, Act.wp_map, Act.wp_lift]
  have hplain : (Input.channelReestablish msg).Plain := trivial
  refine ⟨fun actions hact => h.snoc_plain hplain .rfl fun out hout m hm => ⟨⟨msg, rfl⟩, ?_⟩,
    fun e _ e' he => h.snoc_refused _ _⟩
  obtain rfl := Except.ok.inj hout
  obtain ⟨rfl, hpos⟩ := onChannelReestablish_revocation hact hm
  rw [h.fresh, ← h.guarded.signer]
  exact List.mem_map_of_mem (List.mem_range.2 (Nat.sub_lt hpos Nat.one_pos))

theorem step (h : Disciplined C signer tr ch) (i : Input) :
    Act.wp (Channel.step C i) ch (fun out ch' => Disciplined C signer (tr ++ [(i, .ok out)]) ch')
      (fun e ch' => ∀ e', e = .err e' → Disciplined C signer (tr ++ [(i, .error e')]) ch') := by
  by_cases hcs : ∃ msg, i = .commitmentSigned msg
  · obtain ⟨msg, rfl⟩ := hcs
    exact h.commitmentSigned msg
  by_cases hd : i = .disconnect
  · subst hd
    exact h.disconnect
  by_cases hre : ∃ msg, i = .channelReestablish msg
  · obtain ⟨msg, rfl⟩ := hre
    exact h.channelReestablish msg
  have hplain : i.Plain := by
    cases i <;> first | trivial | exact hcs ⟨_, rfl⟩
  refine Act.wp_mono (Act.wp_and (step_moves (C := C) hplain ch)
    (step_noRevocation (fun msg he => hcs ⟨msg, he⟩) (fun msg he => hre ⟨msg, he⟩) ch)) ?_ ?_
  · rintro out ch' ⟨hm, hno⟩
    refine h.snoc_plain hplain hm fun out' hout m hmem => ?_
    obtain rfl := Except.ok.inj hout
    exact absurd hmem (hno m)
  · rintro e ch' ⟨hm, -⟩ e' -
    exact h.snoc_plain hplain hm fun out' hout => by cases hout

theorem run {ch₀ : Channel} (h₀ : Fresh C ch₀) (hr : Run (Channel.step C) ch₀ tr ch) :
    Disciplined C ch₀.signer tr ch := by
  refine Run.induct (P := Disciplined C ch₀.signer) ?_ (fun tr ch i h => h.step i) hr
  have hinit := h₀.initial
  refine ⟨.initial hinit, ?_, fun tr₁ i out hpre => ?_⟩
  · rw [hinit.holderNumber]
    rfl
  · simp at hpre

end Disciplined

/-- What `signed_holder_commitment_tx` returns in a state of a run. -/
theorem Guarded.signedHolderCommitmentTx {signer : ChannelSigner} {ch : Channel} {tx : Transaction}
    (h : Guarded C signer ch) (htx : ch.signedHolderCommitmentTx C = .ok tx) :
    ∃ (hc : HolderCommitment) (cp : ChannelPublicKeys) (p : CommitmentTxParams) (digest : Bytes32),
      ch.currentHolderCommitment = some hc ∧ ch.counterpartyPubkeys = some cp ∧
      p.commitmentNumber = ch.holderCommitmentNumber ∧
      p.keys.perCommitmentPoint = signer.perCommitmentPoint ch.holderCommitmentNumber ∧
      digest = (p.tx C).segwitV0Sighash C
        (fundingRedeemscript ch.holderPubkeys.fundingPubkey cp.fundingPubkey) ch.fundingAmountSat ∧
      C.verifyEcdsa digest hc.counterpartySig cp.fundingPubkey = true ∧
      tx = { p.tx C with
        input := (p.tx C).input.modifyHead ({ · with
          witness := fundingSpendWitness C ch.holderPubkeys.fundingPubkey cp.fundingPubkey
            (signer.signWithFundingKey digest) hc.counterpartySig }) } := by
  simp only [Channel.signedHolderCommitmentTx, counterparty, fundingSighash, Fault.bind_eq_ok,
    Fault.okOr_eq_ok, pure, Except.pure, Except.ok.injEq] at htx
  obtain ⟨hc, hhc, cp, hcp, digest, ⟨cp', hcp', rfl⟩, rfl⟩ := htx
  obtain rfl := Option.some.inj (hcp.symm.trans hcp')
  obtain ⟨hnum, ⟨p, hp, hpt, hbuilt⟩, hv⟩ := h.backed hc hhc
  simp only [verifyCounterpartyFundingSig, counterparty, fundingSighash, hcp, Fault.okOr,
    Fault.bind_eq_ok, Except.ok.injEq, pure, Except.pure, Fault.require_eq_ok] at hv
  obtain ⟨_, rfl, _, ⟨_, rfl, rfl⟩, hv⟩ := hv
  rw [hbuilt] at hv ⊢
  refine ⟨hc, cp, p, _, hhc, hcp, hp.trans hnum, ?_, rfl, hv, ?_⟩
  · rw [hpt, hnum, h.signer]
  · rw [← h.signer]
    rfl

/-- The revocation discipline of a channel: over every run from a fresh channel, whatever the peer
sends, (1) the stored commitment has the channel's number, (2) the answers to `commitment_signed`
release the secrets below it in order, without gaps, (3) every other revocation answers a
`channel_reestablish` with a secret released before, and (4) what would be broadcast is the
commitment of the channel's number, signed by the peer, whose secret is not released. -/
theorem revocation_discipline {ch₀ ch : Channel}
    {tr : Trace Input ChannelError (List Wire.Message)} (h₀ : Fresh C ch₀)
    (hr : Run (step C) ch₀ tr ch) :
    (∀ hc, ch.currentHolderCommitment = some hc → hc.number = ch.holderCommitmentNumber) ∧
    freshSecrets tr =
      (List.range ch.holderCommitmentNumber).map ch₀.signer.releaseCommitmentSecret ∧
    NoNewSecrets tr ∧
    ∀ tx, ch.signedHolderCommitmentTx C = .ok tx →
      ∃ (hc : HolderCommitment) (cp : ChannelPublicKeys) (p : CommitmentTxParams)
        (digest : Bytes32),
        ch.currentHolderCommitment = some hc ∧ ch.counterpartyPubkeys = some cp ∧
        p.commitmentNumber = ch.holderCommitmentNumber ∧
        p.keys.perCommitmentPoint = ch₀.signer.perCommitmentPoint ch.holderCommitmentNumber ∧
        ((∀ n < ch.holderCommitmentNumber, ch₀.signer.releaseCommitmentSecret n ≠
            ch₀.signer.releaseCommitmentSecret ch.holderCommitmentNumber) →
          ch₀.signer.releaseCommitmentSecret ch.holderCommitmentNumber ∉ freshSecrets tr) ∧
        digest = (p.tx C).segwitV0Sighash C
          (fundingRedeemscript ch.holderPubkeys.fundingPubkey cp.fundingPubkey)
          ch.fundingAmountSat ∧
        C.verifyEcdsa digest hc.counterpartySig cp.fundingPubkey = true ∧
        tx = { p.tx C with
          input := (p.tx C).input.modifyHead ({ · with
            witness := fundingSpendWitness C ch.holderPubkeys.fundingPubkey cp.fundingPubkey
              (ch₀.signer.signWithFundingKey digest) hc.counterpartySig }) } := by
  obtain ⟨hg, hfresh, hold⟩ := Disciplined.run h₀ hr
  refine ⟨fun hc hhc => (hg.backed hc hhc).number, hfresh, hold, fun tx htx => ?_⟩
  obtain ⟨hc, cp, p, digest, hhc, hcp, hp, hpt, hd, hv, rfl⟩ := hg.signedHolderCommitmentTx htx
  refine ⟨hc, cp, p, digest, hhc, hcp, hp, hpt, fun hinj => ?_, hd, hv, rfl⟩
  rw [hfresh, List.mem_map]
  rintro ⟨n, hn, heq⟩
  exact hinj n (List.mem_range.1 hn) heq

/-- The accepter of a payment has released the secret of commitment 0. -/
theorem revocation_discipline_bob :
    ∃ tr ch, Run (step Demo.C) Demo.bob.1 tr ch ∧ ch.holderCommitmentNumber = 1 ∧
      freshSecrets tr = [Demo.bob.1.signer.releaseCommitmentSecret 0] := by
  obtain ⟨tr, ch, hr, hnum, -⟩ := Demo.exists_chan
    (Demo.handshake ++ Demo.payment.take 4) .b (·.holderCommitmentNumber = 1) (by decide +kernel)
  have hfresh := (revocation_discipline Demo.bob_fresh hr).2.1
  rw [hnum] at hfresh
  exact ⟨tr, ch, hr, hnum, hfresh⟩

end Channel
