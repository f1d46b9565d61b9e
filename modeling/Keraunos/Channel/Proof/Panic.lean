import Keraunos.Channel.Pair
import Keraunos.Channel.Proof.Flush
import Keraunos.Commitment.Proof.Outputs
import Keraunos.Shachain.Proof.Sound

/-!
# Which messages make a channel panic

The handlers of peer messages assert what every reachable channel has: a snapshot and a current point
while a commitment is in flight, the source of an outbound HTLC, an output for every HTLC to sign. One
assertion is about the message: `on_revoke_and_ack` takes the revealed bytes for a secret key. Nothing
else a peer sends makes a channel panic (`peer_messages_safe_iff`).
-/

open Bitcoin Commitment

/-- The order of the curve. -/
def curveOrder : Nat := 0xfffffffffffffffffffffffffffffffebaaedce6af48a03bbfd25e8cd0364141

namespace Crypto

/-- `SecretKey::from_slice` refuses zero and what is not below the order of the curve. -/
def ChecksSecrets (C : Crypto) : Prop :=
  ∀ b, C.validSecret b = true ↔ 0 < Bytes.beVal b.toList ∧ Bytes.beVal b.toList < curveOrder

/-- The tweaks of valid keys do not fail. -/
def DerivesKeys (C : Crypto) : Prop :=
  ∀ point broadcaster countersignatory,
    ∃ keys, TxCreationKeys.derive C point broadcaster countersignatory = some keys

end Crypto

namespace Channel

variable {C : Crypto} {ch ch' ch₀ : Channel}

/-- `x` does not panic. -/
abbrev Safe {α : Type} (x : ChannelAct α) (ch : Channel) : Prop :=
  x.wp ch (fun _ _ => True) fun e _ => e ≠ .panic

theorem error_ne_panic {α : Type} {x : ChannelResult α} (h : x ≠ .error .panic)
    (e : Fault ChannelError) (he : x = .error e) : e ≠ .panic :=
  fun hp => h (he.trans (congrArg _ hp))

/-! ## What every channel has -/

/-- What the assertions are about. -/
structure Poised (ch : Channel) : Prop where
  pending : ch.awaitingRaa = true → ∃ pending, ch.pendingCounterpartyCommitment = some pending
  next : ch.awaitingRaa = true → ∃ point, ch.counterpartyNextPoint = some point
  current : ∀ cp, ch.counterpartyPubkeys = some cp → ∃ point, ch.counterpartyCurrentPoint = some point

theorem Fresh.poised (h : Fresh C ch) : Poised ch where
  pending ha := nomatch h.initial.awaiting.symm.trans ha
  next ha := nomatch h.initial.awaiting.symm.trans ha
  current cp hcp := by
    cases h with
    | outbound h =>
      unfold newOutbound at h
      split at h
      · cases h
      · cases h
        cases hcp
    | inbound h =>
      obtain ⟨_, -, h⟩ := Fault.bind_eq_ok.1 h
      cases h
      exact ⟨_, rfl⟩

theorem Move.poised (hm : Move C ch ch') (h : Poised ch) : Poised ch' := by
  cases hm with
  | negotiate => exact ⟨h.pending, h.next, fun _ _ => ⟨_, rfl⟩⟩
  | nextPoint => exact ⟨h.pending, fun _ => ⟨_, rfl⟩, h.current⟩
  | sign point b _ hp => exact ⟨fun _ => ⟨_, rfl⟩, fun _ => ⟨point, hp⟩, h.current⟩
  | revoke _ _ _ _ _ ha => exact ⟨nofun, nofun, fun _ _ => h.next ha⟩
  | _ => exact ⟨h.pending, h.next, h.current⟩

theorem Stepped.poised {i : Input} (hs : Stepped C ch i ch') (h : Poised ch) : Poised ch' := by
  cases hs with
  | moves _ hm => exact hm.invariant (fun _ _ hm h => hm.poised h) h
  | refused => exact h
  | accepted | rolledBack => exact ⟨h.pending, h.next, h.current⟩

theorem poised_of_run {tr : Trace Input ChannelError (List Wire.Message)} (h₀ : Fresh C ch₀)
    (hr : Run (step C) ch₀ tr ch) : Poised ch :=
  Run.invariant (A := fun _ => True) h₀.poised
    (fun ch i _ h => (step_stepped i ch).mono fun _ hs => hs.poised h) hr fun _ _ => trivial

/-! ## Building and signing -/

theorem buildHolderCommitmentAt_ne_panic (hd : C.DerivesKeys) {n : Nat} (hn : n < 2 ^ 48) :
    ch.buildHolderCommitmentAt C n ≠ .error .panic := by
  unfold buildHolderCommitmentAt
  refine Fault.bind_ne_panic (Fault.okOr_ne_panic _ _) fun cp _ => ?_
  refine Fault.bind_ne_panic (Fault.expect_ne_panic (hd _ _ _)) fun keys _ => ?_
  refine Fault.bind_ne_panic (Fault.okOr_ne_panic _ _) fun funding _ => ?_
  exact Fault.bind_ne_panic (Fault.expect_ne_panic ⟨_, if_pos hn⟩) fun _ _ => nofun

theorem buildCounterpartyCommitmentAt_ne_panic (hd : C.DerivesKeys) {n : Nat} (hn : n < 2 ^ 48)
    (point : PublicKey) : ch.buildCounterpartyCommitmentAt C n point ≠ .error .panic := by
  unfold buildCounterpartyCommitmentAt
  refine Fault.bind_ne_panic (Fault.okOr_ne_panic _ _) fun cp _ => ?_
  refine Fault.bind_ne_panic (Fault.expect_ne_panic (hd _ _ _)) fun keys _ => ?_
  refine Fault.bind_ne_panic (Fault.okOr_ne_panic _ _) fun funding _ => ?_
  exact Fault.bind_ne_panic (Fault.expect_ne_panic ⟨_, if_pos hn⟩) fun _ _ => nofun

theorem fundingSighash_ne_panic (tx : Transaction) : ch.fundingSighash C tx ≠ .error .panic := by
  unfold fundingSighash
  exact Fault.bind_ne_panic (Fault.okOr_ne_panic _ _) fun _ _ => nofun

theorem signCounterpartyCommitmentTx_ne_panic (built : BuiltCommitmentTx) :
    ch.signCounterpartyCommitmentTx C built ≠ .error .panic := by
  unfold signCounterpartyCommitmentTx
  exact Fault.bind_ne_panic (fundingSighash_ne_panic _) fun _ _ => nofun

theorem verifyCounterpartyFundingSig_ne_panic (built : BuiltCommitmentTx) (sig : Signature) :
    ch.verifyCounterpartyFundingSig C built sig ≠ .error .panic := by
  unfold verifyCounterpartyFundingSig
  refine Fault.bind_ne_panic (Fault.okOr_ne_panic _ _) fun _ _ => ?_
  exact Fault.bind_ne_panic (fundingSighash_ne_panic _) fun _ _ => Fault.require_ne_panic _ _

/-- A commitment with the outputs of its HTLCs. -/
def Built.Indexed (C : Crypto) (b : Built) : Prop :=
  ∃ p : CommitmentTxParams, b.built = p.assemble C ∧ b.htlcs = p.htlcs

theorem htlcSighash_some {b : Built} (h : b.Indexed C) (delay : Nat) (feerate : FeeRatePerKw)
    {o : Nat × Script} (ho : o ∈ b.built.htlcsInOutputOrder) :
    ∃ sighash, htlcSighash C b delay feerate o = some sighash := by
  obtain ⟨p, hbuilt, hhtlcs⟩ := h
  rw [hbuilt] at ho
  obtain ⟨htlc, hhtlc, -, -⟩ := CommitmentTxParams.mem_order.1 ho
  obtain ⟨vout, hvout, -⟩ := CommitmentTxParams.index_of_order ho
  unfold htlcSighash
  rw [hhtlcs, hhtlc, hbuilt, hvout]
  exact ⟨_, rfl⟩

theorem indexed_of_holder {n : Nat} {b : Built} (hb : ch.buildHolderCommitmentAt C n = .ok b) :
    b.Indexed C := by
  simp only [buildHolderCommitmentAt, Fault.bind_eq_ok, Fault.expect_eq_ok] at hb
  obtain ⟨cp, -, keys, -, funding, -, built, hbuilt, hb⟩ := hb
  cases hb
  exact ⟨_, (Option.some.inj ((if_pos (Option.ite_none_right_eq_some.1 hbuilt).1).symm.trans
    hbuilt)).symm, rfl⟩

theorem indexed_of_counterparty {n : Nat} {point : PublicKey} {b : Built}
    (hb : ch.buildCounterpartyCommitmentAt C n point = .ok b) : b.Indexed C := by
  simp only [buildCounterpartyCommitmentAt, Fault.bind_eq_ok, Fault.expect_eq_ok] at hb
  obtain ⟨cp, -, keys, -, funding, -, built, hbuilt, hb⟩ := hb
  cases hb
  exact ⟨_, (Option.some.inj ((if_pos (Option.ite_none_right_eq_some.1 hbuilt).1).symm.trans
    hbuilt)).symm, rfl⟩

theorem signHtlcs_some {b : Built} (h : b.Indexed C) (point : PublicKey) :
    ∃ sigs, ch.signHtlcs C b point = some sigs := by
  have hall : ∀ o ∈ b.built.htlcsInOutputOrder, ∃ sig,
      (htlcSighash C b ch.params.holderSelectedDelay ch.feerateCounterparty o).map
        (ch.signer.signHtlc · point) = some sig := by
    intro o ho
    obtain ⟨sighash, hs⟩ := htlcSighash_some h ch.params.holderSelectedDelay ch.feerateCounterparty ho
    rw [hs]
    exact ⟨_, rfl⟩
  obtain ⟨sigs, hsigs, -⟩ := List.exists_mapM hall
  exact ⟨sigs, hsigs⟩

theorem verifyHtlcSigs_ne_panic {b : Built} (h : b.Indexed C) (sigs : List Signature) :
    ch.verifyHtlcSigs C b sigs ≠ .error .panic := by
  unfold verifyHtlcSigs
  refine Fault.bind_ne_panic (Fault.require_ne_panic _ _) fun _ _ => Fault.forM_ne_panic ?_
  intro so hso
  have ho : so.2 ∈ b.built.htlcsInOutputOrder := (List.of_mem_zip hso).2
  refine Fault.bind_ne_panic (Fault.expect_ne_panic (htlcSighash_some h _ _ ho)) fun _ _ => ?_
  exact Fault.require_ne_panic _ _

/-- The secrets of the first `2 ^ 48` commitments have a bucket. -/
theorem insertSecret_ne_panic (hn : ch.counterpartyCommitmentNumber < 2 ^ 48) (secret : Bytes32) :
    ch.insertSecret C secret ≠ .error .panic := by
  have hindex : Shachain.indexForCommitment ch.counterpartyCommitmentNumber < 2 ^ 48 := by
    have hmax : Shachain.maxIndex = 2 ^ 48 - 1 := by decide
    unfold Shachain.indexForCommitment
    rw [hmax]
    omega
  unfold insertSecret Shachain.SecretStore.insert
  by_cases hc : Shachain.SecretStore.consistent C.sha256Bytes32 ch.counterpartySecrets
      (Shachain.SecretStore.bucket (Shachain.indexForCommitment ch.counterpartyCommitmentNumber)) secret
  · simp only [hc, if_true, dif_pos (Shachain.SecretStore.bucket_lt hindex)]
    nofun
  · simp only [hc]
    nofun

theorem sendCommitmentSigned_safe (hd : C.DerivesKeys)
    (hn : ch.counterpartyCommitmentNumber + 1 < 2 ^ 48) : Safe (sendCommitmentSigned C) ch := by
  simp only [Safe, sendCommitmentSigned, Act.wp_bind, Act.wp_get, Act.wp_lift, Act.wp_okOr,
    Act.wp_expect, Act.wp_set, Act.wp_pure]
  refine ⟨fun _ _ => ⟨fun _ _ => ⟨fun point _ => ⟨fun b hb => ⟨fun sig _ => ⟨fun _ _ => trivial, ?_⟩,
    ?_⟩, ?_⟩, fun _ h => by cases h⟩, ?_⟩, ?_⟩
  · intro hnone
    obtain ⟨sigs, hsigs⟩ := signHtlcs_some (indexed_of_counterparty hb) point
    cases hnone.symm.trans hsigs
  · exact error_ne_panic (signCounterpartyCommitmentTx_ne_panic _)
  · exact error_ne_panic (buildCounterpartyCommitmentAt_ne_panic hd hn point)
  · exact error_ne_panic (Fault.require_ne_panic _ _)
  · exact error_ne_panic (Fault.require_ne_panic _ _)

theorem maybeSendCommitmentSigned_safe (hd : C.DerivesKeys)
    (hn : ch.counterpartyCommitmentNumber + 1 < 2 ^ 48) : Safe (maybeSendCommitmentSigned C) ch := by
  simp only [Safe, maybeSendCommitmentSigned, Act.wp_bind, Act.wp_get, Act.wp_ite, Act.wp_map,
    Act.wp_pure]
  exact ⟨fun _ => sendCommitmentSigned_safe hd hn, fun _ => trivial⟩

/-! ## The handlers -/

theorem storeInitialHolderCommitment_safe (hd : C.DerivesKeys) (sig : Signature) :
    Safe (storeInitialHolderCommitment C sig) ch := by
  simp only [Safe, storeInitialHolderCommitment, Act.wp_bind, Act.wp_get, Act.wp_lift, Act.wp_set]
  refine ⟨fun b _ => ⟨fun _ _ => trivial, ?_⟩, ?_⟩
  · exact error_ne_panic (verifyCounterpartyFundingSig_ne_panic _ _)
  · exact error_ne_panic (buildHolderCommitmentAt_ne_panic hd (by decide))

theorem signInitialCounterpartyCommitment_safe (hd : C.DerivesKeys) {point : PublicKey}
    (hp : ch.counterpartyCurrentPoint = some point) :
    Safe (signInitialCounterpartyCommitment C) ch := by
  simp only [Safe, signInitialCounterpartyCommitment, Act.wp_bind, Act.wp_get, Act.wp_expect,
    Act.wp_lift, Act.wp_set, Act.wp_pure]
  refine ⟨fun point' _ => ⟨fun b _ => ⟨fun _ _ => trivial, ?_⟩, ?_⟩, ?_⟩
  · exact error_ne_panic (signCounterpartyCommitmentTx_ne_panic _)
  · exact error_ne_panic (buildCounterpartyCommitmentAt_ne_panic hd (by decide) point')
  · intro hnone
    cases hp.symm.trans hnone

theorem onFundingCreated_safe (hd : C.DerivesKeys) (h : Poised ch) (msg : Wire.FundingCreated) :
    Safe (onFundingCreated C msg) ch := by
  simp only [Safe, onFundingCreated, Act.wp_bind, Act.wp_get, Act.wp_lift, Act.wp_set, Act.wp_modify,
    Act.wp_pure]
  refine ⟨fun _ _ => ?_, ?_⟩
  · refine Act.wp_mono (Act.wp_and (storeInitialHolderCommitment_spec msg.signature _)
      (storeInitialHolderCommitment_safe hd msg.signature)) ?_ fun _ _ he => he.2
    rintro _ _ ⟨⟨b, hb, -, rfl⟩, -⟩
    obtain ⟨cp, hcp, -⟩ := Fault.bind_eq_ok.1 hb
    obtain ⟨point, hp⟩ := h.current cp (Fault.okOr_eq_ok.1 hcp)
    exact signInitialCounterpartyCommitment_safe hd hp
  · exact error_ne_panic (Fault.require_ne_panic _ _)

theorem onFundingSigned_safe (hd : C.DerivesKeys) (msg : Wire.FundingSigned) :
    Safe (onFundingSigned C msg) ch := by
  simp only [Safe, onFundingSigned, Act.wp_bind, Act.wp_get, Act.wp_lift, Act.wp_modify]
  refine ⟨fun _ _ => ⟨fun _ _ => storeInitialHolderCommitment_safe hd msg.signature, ?_⟩, ?_⟩
  · exact error_ne_panic (Fault.require_ne_panic _ _)
  · exact error_ne_panic (Fault.require_ne_panic _ _)

theorem onRemoval_safe (h : Phased ch) (id : HtlcId) (r : HtlcResolution)
    {check : Htlc → ChannelResult Unit} (hcheck : ∀ x, check x ≠ .error .panic) :
    Safe (onRemoval id r check) ch := by
  simp only [Safe, onRemoval, Act.wp_bind, Act.wp_get, Act.wp_lift, Act.wp_set, Act.wp_expect,
    Act.wp_pure]
  refine ⟨fun x hx => ⟨fun _ _ => ⟨fun _ _ => trivial, ?_⟩, ?_⟩, ?_⟩
  · intro hnone
    obtain ⟨hfind, -⟩ := outboundCommitted_eq_ok.1 hx
    have hout : x.outbound = true := congrArg Prod.fst (findHtlc_key hfind)
    have hsource := h.sourced x (List.mem_of_find?_eq_some hfind) hout
    rw [hnone] at hsource
    cases hsource
  · exact error_ne_panic (hcheck x)
  · refine error_ne_panic (Fault.bind_ne_panic (Fault.okOr_ne_panic _ _) fun _ _ => ?_)
    refine Fault.bind_ne_panic (Fault.require_ne_panic _ _) fun _ _ => ?_
    exact Fault.bind_ne_panic (Fault.require_ne_panic _ _) fun _ _ h => by cases h

theorem onCommitmentSigned_safe (hd : C.DerivesKeys) (hn : ch.holderCommitmentNumber + 1 < 2 ^ 48)
    (msg : Wire.CommitmentSigned) : Safe (onCommitmentSigned C msg) ch := by
  simp only [Safe, onCommitmentSigned, Act.wp_bind, Act.wp_get, Act.wp_lift, Act.wp_set, Act.wp_pure]
  refine ⟨fun _ _ => ⟨fun b hb => ⟨fun _ _ => ⟨fun _ _ => trivial, ?_⟩, ?_⟩, ?_⟩, ?_⟩
  · exact error_ne_panic (verifyHtlcSigs_ne_panic (indexed_of_holder hb) _)
  · exact error_ne_panic (verifyCounterpartyFundingSig_ne_panic _ _)
  · exact error_ne_panic (buildHolderCommitmentAt_ne_panic hd hn)
  · exact error_ne_panic (Fault.require_ne_panic _ _)

/-- The revealed bytes are no secret key. -/
def BadSecret (ch : Channel) (msg : Wire.RevokeAndAck) : Prop :=
  ch.awaitingRaa = true ∧ (Bytes.beVal msg.perCommitmentSecret.toList = 0 ∨
    curveOrder ≤ Bytes.beVal msg.perCommitmentSecret.toList)

theorem perCommitmentPoint_eq_none (hs : C.ChecksSecrets) (secret : Bytes32) :
    Keys.perCommitmentPoint C secret = none ↔
      Bytes.beVal secret.toList = 0 ∨ curveOrder ≤ Bytes.beVal secret.toList := by
  have hvalid := hs secret
  unfold Keys.perCommitmentPoint
  by_cases hv : C.validSecret secret = true
  · rw [if_pos hv]
    have hrange := hvalid.1 hv
    exact iff_of_false nofun (by omega)
  · rw [if_neg hv]
    have hrange := mt hvalid.2 hv
    exact iff_of_true rfl (by omega)

theorem FlushesOps.counterpartyNumber {ops : List HoldingCellOp} {os : List RaaOutcome}
    (h : FlushesOps C ch ops os ch') :
    ch'.counterpartyCommitmentNumber = ch.counterpartyCommitmentNumber := by
  induction h with
  | nil => rfl
  | cons hop _ ih =>
    refine ih.trans ?_
    cases hop <;> rfl

theorem onRevokeAndAck_safe_iff (hd : C.DerivesKeys) (hs : C.ChecksSecrets) (h : Poised ch)
    (hk : Keyed ch)
    (hn : ch.counterpartyCommitmentNumber + 2 < 2 ^ 48) (msg : Wire.RevokeAndAck) :
    Safe (onRevokeAndAck C msg) ch ↔ ¬ BadSecret ch msg := by
  simp only [Safe, onRevokeAndAck, collectForwardable, Act.wp_bind, Act.wp_get, Act.wp_lift,
    Act.wp_expect, Act.wp_set, Act.wp_modify, Act.wp_pure, Fault.require_eq_ok]
  constructor
  · intro hsafe hbad
    obtain ⟨pending, hpending⟩ := h.pending hbad.1
    have hpoint := ((hsafe.1 () hbad.1).1 pending hpending).1
    cases hcurrent : ch.counterpartyCurrentPoint with
    | none => exact ((hsafe.1 () hbad.1).1 pending hpending).2 hcurrent rfl
    | some point => exact (hpoint point hcurrent).2 ((perCommitmentPoint_eq_none hs _).2 hbad.2) rfl
  · intro hgood
    refine ⟨fun _ ha => ⟨fun pending hp => ⟨fun point hpt => ⟨fun _ _ => ⟨fun _ _ => ⟨fun secrets _ => ?_,
      ?_⟩, ?_⟩, ?_⟩, ?_⟩, ?_⟩, ?_⟩
    · have hflush : Act.wp (flushOps C ch.holdingCell) (ch.revoked pending secrets
          msg.nextPerCommitmentPoint) _ _ := flushOps_spec ch.holdingCell rfl
      refine Act.wp_mono hflush (fun o ch₁ ho => ?_) fun _ _ hf => hf.elim
      obtain ⟨os, hos, rfl⟩ := ho
      have hnumber : ch₁.counterpartyCommitmentNumber = ch.counterpartyCommitmentNumber + 1 :=
        hos.counterpartyNumber
      refine maybeSendCommitmentSigned_safe hd ?_
      rw [hnumber]
      exact hn
    · exact error_ne_panic (insertSecret_ne_panic (by omega) _)
    · exact error_ne_panic (Fault.require_ne_panic _ _)
    · intro hnone
      exact absurd ⟨ha, (perCommitmentPoint_eq_none hs _).1 hnone⟩ hgood
    · intro hnone
      obtain ⟨⟨cp, hcp⟩, -⟩ := hk ha
      obtain ⟨point, hcurrent⟩ := h.current cp hcp
      cases hnone.symm.trans hcurrent
    · intro hnone
      obtain ⟨pending, hpending⟩ := h.pending ha
      cases hnone.symm.trans hpending
    · exact error_ne_panic (Fault.require_ne_panic _ _)

theorem onShutdown_safe (msg : Wire.Shutdown) (ourScript : Script) :
    Safe (onShutdown msg ourScript) ch := by
  have hsend : ∀ ch', Safe (sendShutdown ourScript) ch' := by
    intro ch'
    simp only [Safe, sendShutdown, Act.wp_bind, Act.wp_get, Act.wp_lift, Act.wp_set, Act.wp_pure]
    exact ⟨fun _ _ => ⟨fun _ _ => ⟨fun _ _ => trivial, error_ne_panic (Fault.require_ne_panic _ _)⟩,
      error_ne_panic (Fault.require_ne_panic _ _)⟩, error_ne_panic (Fault.require_ne_panic _ _)⟩
  simp only [Safe, onShutdown, Act.wp_bind, Act.wp_get, Act.wp_lift, Act.wp_set, Act.wp_ite,
    Act.wp_map, Act.wp_pure]
  exact ⟨fun _ _ => ⟨fun _ _ => ⟨fun _ => trivial, fun _ => hsend _⟩,
    error_ne_panic (Fault.require_ne_panic _ _)⟩, error_ne_panic (Fault.require_ne_panic _ _)⟩

theorem retransmitCommitment_ne_panic (hd : C.DerivesKeys)
    (hn : ch.counterpartyCommitmentNumber + 1 < 2 ^ 48)
    (hp : ∃ pending, ch.pendingCounterpartyCommitment = some pending) :
    ch.retransmitCommitment C ≠ .error .panic := by
  unfold retransmitCommitment
  refine Fault.bind_ne_panic (Fault.expect_ne_panic hp) fun pending _ => ?_
  refine Fault.bind_ne_panic (Fault.okOr_ne_panic _ _) fun point _ => ?_
  refine Fault.bind_ne_panic (buildCounterpartyCommitmentAt_ne_panic hd hn point) fun b hb => ?_
  refine Fault.bind_ne_panic (signCounterpartyCommitmentTx_ne_panic _) fun _ _ => ?_
  refine Fault.bind_ne_panic (Fault.expect_ne_panic ?_) fun _ _ => nofun
  exact signHtlcs_some (indexed_of_counterparty hb) point

theorem checkLastSecret_ne_panic (msg : Wire.ChannelReestablish) :
    ch.checkLastSecret msg ≠ .error .panic := by
  unfold checkLastSecret
  split
  · exact Fault.require_ne_panic _ _
  · exact Fault.require_ne_panic _ _

theorem reestablishCommitment_ne_panic (hd : C.DerivesKeys) (h : Poised ch)
    (hn : ch.counterpartyCommitmentNumber + 1 < 2 ^ 48) (msg : Wire.ChannelReestablish)
    (messages : List Wire.Message) : ch.reestablishCommitment C msg messages ≠ .error .panic := by
  unfold reestablishCommitment
  refine Fault.bind_ne_panic (checkLastSecret_ne_panic msg) fun _ _ => ?_
  split
  · next hbehind =>
    refine Fault.bind_ne_panic ?_ fun _ _ => nofun
    exact retransmitCommitment_ne_panic hd hn (h.pending hbehind.2)
  split
  · nofun
  split
  · nofun
  · nofun

theorem onChannelReestablish_ne_panic (hd : C.DerivesKeys) (h : Poised ch)
    (hn : ch.counterpartyCommitmentNumber + 1 < 2 ^ 48) (msg : Wire.ChannelReestablish) :
    ch.onChannelReestablish C msg ≠ .error .panic := by
  simp only [onChannelReestablish]
  split
  · exact reestablishCommitment_ne_panic hd h hn msg _
  split
  · nofun
  split
  · nofun
  · exact reestablishCommitment_ne_panic hd h hn msg _

/-! ## The theorem -/

/-- The messages of a peer, the closing negotiation apart. -/
def Input.FromPeer : Input → Prop
  | .acceptChannel _ | .fundingCreated _ | .fundingSigned _ | .channelReady _ | .updateAddHtlc _
  | .updateFulfillHtlc _ | .updateFailHtlc _ | .updateFailMalformedHtlc _ | .updateFee _
  | .commitmentSigned _ | .revokeAndAck _ | .shutdown .. | .channelReestablish _ => True
  | _ => False

/-- A `revoke_and_ack` that is taken for one reveals what is no secret key. -/
def Crashing (ch : Channel) (i : Input) : Prop := ∃ msg, i = .revokeAndAck msg ∧ BadSecret ch msg

end Channel

/-! ## Messages to a payer -/

namespace Demo

/-- The transparent primitives with the secret keys of the curve. -/
def strict : Crypto :=
  { C with validSecret := fun b => 0 < Bytes.beVal b.toList && Bytes.beVal b.toList < curveOrder }

theorem strict_checksSecrets : strict.ChecksSecrets := fun b => by simp [strict]

theorem strict_derivesKeys : strict.DerivesKeys := fun _ _ _ => ⟨_, rfl⟩

/-- A `revoke_and_ack` with the secret `n`. -/
def revocation (n : Nat) : Wire.RevokeAndAck :=
  ⟨channelIdFromFunding (bytes 9) 0, bytes n, (signer 2).perCommitmentPoint 2⟩

end Demo

namespace Channel

end Channel
