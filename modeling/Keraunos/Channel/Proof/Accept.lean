import Keraunos.Channel.Proof.Agreement
import Keraunos.Channel.Proof.Panic
import Keraunos.Channel.Proof.Secrets
import Keraunos.Commitment.Proof.Countersign
import Keraunos.Keys.Proof.Derive

/-!
# What honest channels send is accepted

Two channels with in-memory signers that are driven by honest owners. Each end of a run of the pair is
a run of its channel, whose peer reveals the secrets of its seed (`lives_of_run`), so what is known of
all runs of a channel holds of both.

A `commitment_signed` that arrives before the close is negotiated is accepted (`signature_accepted`),
and a `revoke_and_ack` always is (`revocation_accepted`).
-/

open Bitcoin Commitment Lockstep

namespace Channel

variable {C : Crypto} {ch ch₀ ch' a b : Channel} {seed : Bytes32}

/-! ## Lives -/

/-- A channel whose peer reveals the secrets of this seed. -/
def Lived (C : Crypto) (seed : Bytes32) (ch : Channel) : Prop :=
  ∃ ch₀ tr, Fresh C ch₀ ∧ Run.Within (step C) (RevealsSeed C seed) ch₀ tr ch

theorem Lived.ends (h : Lived C seed ch) {i : Input} (hi : RevealsSeed C seed ch i) :
    Act.Ends (step C i) ch (Lived C seed) := by
  obtain ⟨ch₀, tr, hf, hr⟩ := h
  refine Act.wp_iff.2 ⟨fun _ _ hok => ⟨ch₀, _, hf, hr.ok hi hok⟩, ?_⟩
  rintro _ _ herr _ rfl
  exact ⟨ch₀, _, hf, hr.err hi herr⟩

theorem step_eq_ok {i : Input} {o : i.Outcome} (hok : perform C i ch = .ok o ch') :
    step C i ch = .ok (i.toSend o) ch' := by
  show EStateM.map i.toSend (perform C i) ch = _
  rw [EStateM.map, hok]

theorem Lived.next (h : Lived C seed ch) {i : Input} (hi : RevealsSeed C seed ch i) {o : i.Outcome}
    (hok : perform C i ch = .ok o ch') : Lived C seed ch' :=
  (Act.wp_iff.1 (h.ends hi)).1 _ _ (step_eq_ok hok)

theorem Fresh.lived (h : Fresh C ch) : Lived C seed ch := ⟨ch, [], h, .nil⟩

/-- An opening is the start of two lives. -/
theorem Opened.lived {signerA signerB : ChannelSigner} (h : Opened C signerA signerB a b)
    (seed seed' : Bytes32) : Lived C seed a ∧ Lived C seed' b := by
  obtain ⟨o, h⟩ := h
  simp only [openPair, Option.bind_eq_bind, Option.bind_eq_some_iff, Act.result_eq_some,
    Fault.toOption_eq_some, Option.pure_def, Option.some.injEq, Prod.mk.injEq] at h
  obtain ⟨⟨a₁, openMsg⟩, hout, ⟨b₁, acceptMsg⟩, hin, ⟨_, a₂⟩, haccept, ⟨created, a₃⟩, hcreated,
    ⟨signed, b₂⟩, hsigned, ⟨_, a₄⟩, hdone, rfl, rfl⟩ := h
  have ha₁ : Lived C seed a₁ := (Fresh.outbound hout).lived
  have ha₂ : Lived C seed a₂ := ha₁.next (i := .acceptChannel _) trivial haccept
  have ha₃ : Lived C seed a₃ := ha₂.next (i := .createFunding ..) trivial hcreated
  have hb₁ : Lived C seed' b₁ := (Fresh.inbound hin).lived
  exact ⟨ha₃.next (i := .fundingSigned _) trivial hdone, hb₁.next (i := .fundingCreated _) trivial hsigned⟩

theorem Lived.fromSeed (h : Lived C seed ch) : FromSeed C seed ch := by
  obtain ⟨ch₀, tr, hf, hr⟩ := h
  exact hr.invariant (FromSeed.initial hf.initial) fun _ _ hi h => h.step hi

theorem Lived.poised (h : Lived C seed ch) : Poised ch := by
  obtain ⟨ch₀, tr, hf, hr⟩ := h
  exact poised_of_run hf hr.run

/-- A secret that fits is accepted. -/
theorem onRevokeAndAck_accepts {msg : Wire.RevokeAndAck} {pending : PendingCounterpartyCommitment}
    {point : PublicKey} {secrets : Shachain.SecretStore} {cp : ChannelPublicKeys} {f : OutPoint}
    (hd : C.DerivesKeys) (ha : ch.awaitingRaa = true) (hp : ch.pendingCounterpartyCommitment = some pending)
    (hcurrent : ch.counterpartyCurrentPoint = some point)
    (hpoint : Keys.perCommitmentPoint C msg.perCommitmentSecret = some point)
    (hsecrets : ch.insertSecret C msg.perCommitmentSecret = .ok secrets)
    (hcp : ch.counterpartyPubkeys = some cp) (hf : ch.fundingOutpoint = some f)
    (hn : ch.counterpartyCommitmentNumber + 2 < 2 ^ 48) :
    (onRevokeAndAck C msg).wp ch (fun _ _ => True) fun _ _ => False := by
  simp only [onRevokeAndAck, collectForwardable, Act.wp_bind, Act.wp_get, Act.wp_lift,
    Act.wp_expect, Act.wp_set, Act.wp_modify, Act.wp_pure, Fault.require_eq_ok, Fault.require_eq_error]
  refine ⟨fun _ _ => ⟨fun pending' _ => ⟨fun point' hpt => ⟨fun revealed hrev => ⟨fun _ _ =>
    ⟨fun secrets' _ => ?_, fun e he => ?_⟩, fun e he => ?_⟩, fun hnone => ?_⟩, fun hnone => ?_⟩,
    fun hnone => ?_⟩, fun e he => he.1 ha⟩
  · have hflush : Act.wp (flushOps C ch.holdingCell)
        (ch.revoked pending' secrets' msg.nextPerCommitmentPoint) _ _ :=
      flushOps_spec ch.holdingCell rfl
    refine Act.wp_mono hflush (fun o ch₁ ho => ?_) fun _ _ hf => hf.elim
    obtain ⟨os, hos, -⟩ := ho
    have hnumber : ch₁.counterpartyCommitmentNumber = ch.counterpartyCommitmentNumber + 1 :=
      hos.counterpartyNumber
    have hsafe : Safe (maybeSendCommitmentSigned C) ch₁ := maybeSendCommitmentSigned_safe hd (by omega)
    have hspec := maybeSendCommitmentSigned_spec (C := C) (hos.keys.1.trans hcp) (hos.keys.2.trans hf)
    exact Act.wp_mono (Act.wp_and hsafe hspec) (fun _ _ _ => trivial) fun _ _ he => he.1 he.2
  · cases he.symm.trans hsecrets
  · obtain rfl := Option.some.inj (hrev.symm.trans hpoint)
    obtain rfl := Option.some.inj (hpt.symm.trans hcurrent)
    exact he.1 rfl
  · cases hnone.symm.trans hpoint
  · cases hnone.symm.trans hcurrent
  · cases hnone.symm.trans hp

/-- Signatures that verify are accepted. -/
theorem onCommitmentSigned_accepts {msg : Wire.CommitmentSigned} {b : Built}
    (hst : ch.state = .normal ∨ ch.state = .shuttingDown)
    (hb : ch.buildHolderCommitmentAt C (ch.holderCommitmentNumber + 1) = .ok b)
    (hfunding : ch.verifyCounterpartyFundingSig C b.built msg.signature = .ok ())
    (hhtlcs : ch.verifyHtlcSigs C b msg.htlcSignatures = .ok ()) :
    (onCommitmentSigned C msg).wp ch (fun _ _ => True) fun _ _ => False := by
  simp only [onCommitmentSigned, Act.wp_bind, Act.wp_get, Act.wp_lift, Act.wp_set, Act.wp_pure,
    Fault.require_eq_ok, Fault.require_eq_error]
  refine ⟨fun _ _ => ⟨fun b' hb' => ⟨fun _ _ => ⟨fun _ _ => trivial, fun e he => ?_⟩, fun e he => ?_⟩,
    fun e he => ?_⟩, fun e he => he.1 hst⟩
  · obtain rfl := Except.ok.inj (hb.symm.trans hb')
    cases he.symm.trans hhtlcs
  · obtain rfl := Except.ok.inj (hb.symm.trans hb')
    cases he.symm.trans hfunding
  · cases he.symm.trans hb

theorem setting_true {t : Setting} (h : ch.setting true = some t) :
    t.toSelfDelay = ch.params.counterpartySelectedDelay := by
  simp only [setting, Option.bind_eq_bind, Option.bind_eq_some_iff, Option.pure_def, Option.some.injEq] at h
  obtain ⟨cp, -, funding, -, rfl⟩ := h
  rfl

theorem setting_false {t : Setting} (h : ch.setting false = some t) :
    t.toSelfDelay = ch.params.holderSelectedDelay ∧ t.countersignatory = ch.holderPubkeys := by
  simp only [setting, Option.bind_eq_bind, Option.bind_eq_some_iff, Option.pure_def, Option.some.injEq] at h
  obtain ⟨cp, -, funding, -, rfl⟩ := h
  exact ⟨rfl, rfl⟩

/-! ## HTLC signatures -/

/-- Both sides compute the same digest for an HTLC output. -/
theorem htlcSighash_eq {b b' : Built} {q q' : CommitmentTxParams} (hb : b.built = q.assemble C)
    (hb' : b'.built = q'.assemble C) (hh : b.htlcs = q.htlcs) (hh' : b'.htlcs = q'.htlcs)
    (hkeys : b.keys = b'.keys) (htxid : b.built.txid = b'.built.txid) (delay : Nat) (feerate : FeeRatePerKw)
    {o o' : Nat × Script} (ho : CommitmentTxParams.SameOutput C q q' o o') :
    htlcSighash C b delay feerate o = htlcSighash C b' delay feerate o' := by
  obtain ⟨hscript, ⟨h, h', hget, hget', hoffered, hcltv, hvalue⟩, v, hv, hv'⟩ := ho
  have htx : buildHtlcTx C b.built.txid v h b.keys delay feerate =
      buildHtlcTx C b'.built.txid v h' b'.keys delay feerate := by
    simp only [buildHtlcTx, secondStageFee, htxid, hkeys, hoffered, hcltv, hvalue]
  rw [← hb] at hv
  rw [← hb'] at hv'
  simp only [htlcSighash, hh, hh', hget, hget', hv, hv', Option.bind_eq_bind, Option.bind_some,
    Option.join_some, htx, hscript, hvalue]

/-- The scripts that the outputs of a commitment hide behind their hashes. -/
def Built.scripts (C : Crypto) (delay : Nat) (b : Built) : List Script :=
  revocableDelayed b.keys.revocationKey delay b.keys.broadcasterDelayedPaymentKey ::
    b.htlcs.map (htlcWitnessScript C b.keys)

/-- Signatures made by one side for the outputs of its commitment verify at the other. -/
theorem verifyHtlcSigs_ok {b b' : Built} {q q' : CommitmentTxParams} {sigs : List Signature}
    {delay : Nat} {feerate : FeeRatePerKw} {sign : Bytes32 → Signature} (hb : b.built = q.assemble C)
    (hb' : b'.built = q'.assemble C) (hh : b.htlcs = q.htlcs) (hh' : b'.htlcs = q'.htlcs)
    (hkeys : b.keys = b'.keys) (htxid : b.built.txid = b'.built.txid)
    (hsame : List.Forall₂ (CommitmentTxParams.SameOutput C q q') b.built.htlcsInOutputOrder
      b'.built.htlcsInOutputOrder)
    (hsigs : (b.built.htlcsInOutputOrder.mapM fun o => (htlcSighash C b delay feerate o).map sign) = some sigs)
    (hsign : ∀ digest, C.verifyEcdsa digest (sign digest) b'.keys.countersignatoryHtlcKey = true)
    (hdelay : ch.params.counterpartySelectedDelay = delay) (hfee : ch.feerateHolder = feerate) :
    ch.verifyHtlcSigs C b' sigs = .ok () := by
  have hflip : List.Forall₂ (fun o' o => CommitmentTxParams.SameOutput C q q' o o')
      b'.built.htlcsInOutputOrder b.built.htlcsInOutputOrder := hsame.flip
  have hmade := (hflip.comp (List.forall₂_of_mapM hsigs)).flip
  unfold verifyHtlcSigs
  rw [Fault.bind_eq_ok]
  refine ⟨(), Fault.require_eq_ok.2 hmade.length_eq, Fault.forM_eq_ok.2 fun so hso => ?_⟩
  obtain ⟨o, hout, hsig⟩ := List.forall₂_zip hmade hso
  obtain ⟨digest, hdigest, hs⟩ := Option.map_eq_some_iff.1 hsig
  rw [Fault.bind_eq_ok]
  refine ⟨digest, Fault.expect_eq_ok.2 ?_, Fault.require_eq_ok.2 (hs ▸ hsign digest)⟩
  rw [hdelay, hfee, ← htlcSighash_eq hb hb' hh hh' hkeys htxid _ _ hout, hdigest]

end Channel

/-! ## A concrete run -/

namespace Demo

/-- The transparent primitives over a group. -/
abbrev A : Crypto := SecretCrypto.additive.toCrypto

def signers : Side → InMemoryChannelSigner
  | .a => keys 1
  | .b => keys 2

theorem derivesKeys : A.DerivesKeys := fun _ _ _ => ⟨_, rfl⟩

theorem verifiesSigned_additive : A.VerifiesSigned := fun sk digest => verifiesSigned sk digest

theorem opened_signers {a b : Channel} (h : Channel.Opened A (tabledSigner 1) (tabledSigner 2) a b) :
    Channel.Opened A ((signers .a).toSigner A) ((signers .b).toSigner A) a b := by
  have ha : (signers .a).toSigner A = tabledSigner 1 := signer_tabled.1
  have hb : (signers .b).toSigner A = tabledSigner 2 := signer_tabled.2
  rw [ha, hb]
  exact h

end Demo

namespace Pair

variable {C : Crypto} {g : Genesis} {L : Side → Ledger} {p p₀ : Pair}

/-- What every step of a channel keeps that the pair can make, the pair keeps at both ends. -/
theorem play_ends {I : Side → Channel → Prop} {e : Event} (hown : e.own = true)
    (h : ∀ s, I s (p.chan s))
    (hstep : ∀ s i v, Arrives p s i v → Act.Ends (Channel.step C i) (p.chan s) (I s)) :
    Act.Ends (play C e) p fun p' => ∀ s, I s (p'.chan s) := by
  have hside : ∀ s i v, Arrives p s i v →
      Act.Ends (onSide s (Channel.step C i)) (p.setInbox s v) fun p' => ∀ t, I t (p'.chan t) := by
    intro s i v ha
    have hends := hstep s i v ha
    simp only [Act.Ends, Act.wp, onSide, chan_setInbox] at hends ⊢
    cases hx : Channel.step C i (p.chan s) with
    | ok ms ch =>
      rw [hx] at hends
      intro t
      by_cases ht : t = s
      · subst ht
        simpa [send] using hends
      · simpa [send, ht] using h t
    | error e ch =>
      rw [hx] at hends
      intro e' he t
      by_cases ht : t = s
      · subst ht
        simpa using hends e' he
      · simpa [ht] using h t
  cases e with
  | command s i =>
    have hcommand := hside s i _ (.command hown)
    rwa [setInbox_self] at hcommand
  | deliver s ourScript targetFeerate =>
    simp only [Act.Ends, play, Act.wp_bind, Act.wp_get]
    rcases hin : p.inbox s with _ | ⟨m, v⟩
    · exact h
    · simp only [Act.wp_bind, Act.wp_set]
      rcases hm : m.toInputWith ourScript targetFeerate with _ | i
      · simpa [Act.wp_pure] using h
      · exact hside s i v (.message ourScript targetFeerate hin hm)

/-- The two ends have these in-memory signers, and each the keys of the other. -/
structure Peers (C : Crypto) (k : Side → InMemoryChannelSigner) (p : Pair) : Prop where
  signer : ∀ s, (p.chan s).signer = (k s).toSigner C
  holder : ∀ s, (p.chan s).holderPubkeys = (k s).pubkeys C
  counterparty : ∀ s, (p.chan s).counterpartyPubkeys = some ((k s.other).pubkeys C)
  amount : ∀ s, (p.chan s.other).fundingAmountSat = (p.chan s).fundingAmountSat

section
variable {k : Side → InMemoryChannelSigner} {a b : Channel}

theorem Peers.of_counterparts (h : Channel.Counterparts ((k .a).toSigner C) ((k .b).toSigner C) p.chanA p.chanB) :
    Peers C k p := by
  refine ⟨fun s => ?_, fun s => ?_, fun s => ?_, fun s => ?_⟩
  · cases s
    · exact h.signsA
    · exact h.signsB
  · cases s
    · exact h.keysA
    · exact h.keysB
  · cases s
    · exact h.counterpartyA
    · exact h.counterpartyB
  · cases s
    · exact h.amount.symm
    · exact h.amount

/-- The secret of a revocation that arrives is the next of the seed. -/
theorem reveals_of_arrives {s : Side} {i : Channel.Input} {v : List Wire.Message} (hstep : InStep C p)
    (hacq : Acquainted C p) (hp : Peers C k p)
    (hl : Channel.Lived C (k s.other).commitmentSeed (p.chan s)) (ha : Arrives p s i v) :
    Channel.RevealsSeed C (k s.other).commitmentSeed (p.chan s) i := by
  cases i with
  | revokeAndAck msg =>
    obtain ⟨g, L, h⟩ := hstep
    have hj := h.joint s
    rw [ha.beats] at hj
    obtain ⟨haw, -, hnum⟩ := hj.answered
    have hnum : (p.chan s.other).holderCommitmentNumber = (p.chan s).counterpartyCommitmentNumber + 1 := hnum
    obtain ⟨n, hn, hsecret, -⟩ := hacq.mail s _ ha.revocation
    obtain rfl : n = (p.chan s).counterpartyCommitmentNumber := Nat.add_right_cancel (hn.symm.trans hnum)
    have hroom := hl.fromSeed.room haw
    have hindex : Shachain.indexForCommitment (p.chan s).counterpartyCommitmentNumber =
        Shachain.maxIndex - (p.chan s).counterpartyCommitmentNumber := by
      simp only [Shachain.indexForCommitment, Shachain.maxIndex]
      omega
    rw [hp.signer s.other] at hsecret
    refine hsecret.trans ?_
    rw [← hindex]
    rfl
  | _ => trivial

/-- A run of the pair is a run of each of its channels. -/
theorem lives_of_run {tr : Trace Event ChannelError (List Wire.Message)}
    (ho : Channel.Opened C ((k .a).toSigner C) ((k .b).toSigner C) a b)
    (hr : Run.Within (play C) (Honest C) ⟨a, b, [], []⟩ tr p) :
    (InStep C p ∧ Acquainted C p) ∧ Peers C k p ∧
      ∀ s, Channel.Lived C (k s.other).commitmentSeed (p.chan s) := by
  obtain ⟨hcp, hranka, hrankb⟩ := ho.counterparts
  let I (s : Side) (ch : Channel) : Prop := Channel.Lived C (k s.other).commitmentSeed ch ∧
    0 < ch.state.rank ∧ ch.identity = (Pair.chan ⟨a, b, [], []⟩ s).identity
  have hpeers : ∀ q : Pair, (∀ s, I s (q.chan s)) → Peers C k q := fun q h =>
    .of_counterparts (hcp.congr (h .a).2.2 (h .b).2.2)
  have hall : (InStep C p ∧ Acquainted C p) ∧ ∀ s, I s (p.chan s) := by
    have hlived := ho.lived (k .b).commitmentSeed (k .a).commitmentSeed
    refine hr.invariant (I := fun q => (InStep C q ∧ Acquainted C q) ∧ ∀ s, I s (q.chan s))
      ⟨⟨(Opening.intro ho).inStep, (Opening.intro ho).acquainted⟩, ?_⟩ ?_
    · rintro (_ | _)
      · exact ⟨hlived.1, hranka, rfl⟩
      · exact ⟨hlived.2, hrankb, rfl⟩
    · intro q e hh ⟨⟨hstep, hacq⟩, hI⟩
      refine Act.wp_mono (Act.wp_and ((play_played hh).mono fun _ hp =>
        (⟨hp.inStep hstep, hp.acquainted hstep hacq⟩ : InStep C _ ∧ Acquainted C _))
        (play_ends (I := I) hh.1 hI ?_)) (fun _ _ h => h) fun _ _ h e' he => ⟨h.1 e' he, h.2 e' he⟩
      intro s i v ha
      have hseed := reveals_of_arrives hstep hacq (hpeers q hI) (hI s).1 ha
      refine Act.wp_mono (Act.wp_and ((hI s).1.ends hseed) (Channel.step_stepped i (q.chan s)))
        (fun _ _ h => ⟨h.1, ?_⟩) fun _ _ h e' he => ⟨h.1 e' he, ?_⟩
      · obtain ⟨hrank, hid⟩ := h.2.identity (hI s).2.1
        exact ⟨hrank, hid.trans (hI s).2.2⟩
      · obtain ⟨hrank, hid⟩ := (h.2 e' he).identity (hI s).2.1
        exact ⟨hrank, hid.trans (hI s).2.2⟩
  exact ⟨hall.1, hpeers p hall.2, fun s => (hall.2 s).1⟩

/-- The message that stands first, by its beat. -/
theorem head_of_beat {s : Side} {b : Beat Update}
    (h : (p.inbox s).head?.bind Wire.Message.beat? = some b) :
    ∃ m v, p.inbox s = m :: v ∧ m.beat? = some b := by
  obtain ⟨m, hhead, hm⟩ := Option.bind_eq_some_iff.1 h
  obtain ⟨v, hin⟩ := List.head?_eq_some_iff.1 hhead
  exact ⟨m, v, hin, hm⟩

theorem revocation_of_head {s : Side} (h : (p.inbox s).head?.bind Wire.Message.beat? = some .revoke) :
    ∃ m v, p.inbox s = .revokeAndAck m :: v := by
  obtain ⟨m, v, hin, hm⟩ := head_of_beat h
  cases m <;> first | exact ⟨_, _, hin⟩ | (simp [Wire.Message.beat?, Wire.Message.update?] at hm)

theorem signature_of_head {s : Side} (h : (p.inbox s).head?.bind Wire.Message.beat? = some .sign) :
    ∃ m v, p.inbox s = .commitmentSigned m :: v := by
  obtain ⟨m, v, hin, hm⟩ := head_of_beat h
  cases m <;> first | exact ⟨_, _, hin⟩ | (simp [Wire.Message.beat?, Wire.Message.update?] at hm)

/-- A message that its channel takes is not refused. -/
theorem refuses_eq_false {s : Side} {m : Wire.Message} {v : List Wire.Message} {i : Channel.Input}
    {ourScript : Script} {targetFeerate : FeeRatePerKw} (hin : p.inbox s = m :: v)
    (hm : m.toInputWith ourScript targetFeerate = some i)
    (hok : (Channel.perform C i).wp (p.chan s) (fun _ _ => True) fun _ _ => False) :
    refuses C p (.deliver s ourScript targetFeerate) = false := by
  obtain ⟨o, ch', hperform, -⟩ := Act.wp_total hok
  have hplay : Act.wp (play C (.deliver s ourScript targetFeerate)) p (fun _ _ => True)
      fun _ _ => False := by
    simp only [play, Act.wp_bind, Act.wp_get, hin, Act.wp_set, hm]
    simp only [Act.wp, onSide, chan_setInbox, Channel.step_eq_ok hperform]
  obtain ⟨_, _, hok, -⟩ := Act.wp_total hplay
  unfold refuses
  rw [hok]

/-- A `revoke_and_ack` that arrives is accepted. -/
theorem revocation_accepted {tr : Trace Event ChannelError (List Wire.Message)} (hd : C.DerivesKeys)
    (ho : Channel.Opened C ((k .a).toSigner C) ((k .b).toSigner C) a b)
    (hr : Run.Within (play C) (Honest C) ⟨a, b, [], []⟩ tr p) {s : Side} {m : Wire.RevokeAndAck}
    {v : List Wire.Message} (hin : p.inbox s = .revokeAndAck m :: v)
    (hsecret : C.validSecret m.perCommitmentSecret = true)
    (hn : (p.chan s).counterpartyCommitmentNumber + 2 < 2 ^ 48) (ourScript : Script)
    (targetFeerate : FeeRatePerKw) : refuses C p (.deliver s ourScript targetFeerate) = false := by
  obtain ⟨⟨hstep, hacq⟩, hpeers, hlives⟩ := lives_of_run ho hr
  have ha : Arrives p s (.revokeAndAck m) v := .message ourScript targetFeerate hin rfl
  have hreveals := reveals_of_arrives hstep hacq hpeers (hlives s) ha
  obtain ⟨g, L, h⟩ := hstep
  have hj := h.joint s
  rw [ha.beats] at hj
  obtain ⟨haw, -, hnum⟩ := hj.answered
  have haw : (p.chan s).awaitingRaa = true := haw
  obtain ⟨n, hnum', hrel, -⟩ := hacq.mail s _ ha.revocation
  obtain rfl : n = (p.chan s).counterpartyCommitmentNumber :=
    Nat.add_right_cancel (hnum'.symm.trans hnum)
  -- The secret is that of the point.
  have hpoint : Keys.perCommitmentPoint C m.perCommitmentSecret = some ((p.chan s.other).signer.perCommitmentPoint
      (p.chan s).counterpartyCommitmentNumber) := by
    rw [Keys.perCommitmentPoint, if_pos hsecret, hrel, hpeers.signer s.other]
    rfl
  obtain ⟨st, hst, -⟩ := (hlives s).fromSeed.accepts haw hreveals
  obtain ⟨pending, hp⟩ := (hlives s).poised.pending haw
  have hfunding : ∃ f, (p.chan s).fundingOutpoint = some f := by
    obtain ⟨info, -, -, ⟨b, ⟨t, ht, -⟩, -⟩, -⟩ := (h.inOrder s).records.current
    simp only [Channel.setting, Option.bind_eq_bind, Option.bind_eq_some_iff] at ht
    obtain ⟨_, -, f, hf, -⟩ := ht
    exact ⟨f, hf⟩
  obtain ⟨f, hf⟩ := hfunding
  exact refuses_eq_false hin rfl (Channel.onRevokeAndAck_accepts hd haw hp (hacq.knows s).current hpoint hst
    (hpeers.counterparty s) hf hn)

/-- The opener hears that its first HTLC is committed. -/
theorem revocation_accepted_demo : ∃ p : Pair, (p.inbox .a).head?.bind Wire.Message.beat? = some .revoke ∧
    ∀ ourScript targetFeerate, refuses Demo.A p (.deliver .a ourScript targetFeerate) = false := by
  obtain ⟨a, b, tr, p, ho, hr, hhead, hn⟩ := Demo.honest_run Demo.A (Demo.honestPayment.take 8)
    (fun p => (p.inbox .a).head?.bind Wire.Message.beat? = some .revoke ∧
      (p.chan .a).counterpartyCommitmentNumber + 2 < 2 ^ 48) (by decide +kernel)
  refine ⟨p, hhead, fun ourScript targetFeerate => ?_⟩
  obtain ⟨m, v, hin⟩ := revocation_of_head hhead
  exact revocation_accepted Demo.derivesKeys (Demo.opened_signers ho) hr hin rfl hn ourScript targetFeerate

/-- The funding signature of the one side verifies at the other. -/
theorem Peers.verifies_funding (hv : C.VerifiesSigned) (hp : Peers C k p) {s : Side}
    {b b' : BuiltCommitmentTx} {sig : Signature} (htx : b'.tx = b.tx)
    (hsig : (p.chan s.other).signCounterpartyCommitmentTx C b = .ok sig) :
    (p.chan s).verifyCounterpartyFundingSig C b' sig = .ok () := by
  have hcp := hp.counterparty s
  have hcp' := hp.counterparty s.other
  rw [Side.other_other] at hcp'
  have hsighash : ∀ (ch : Channel) (cp : ChannelPublicKeys) (tx : Transaction),
      ch.counterpartyPubkeys = some cp → ch.fundingSighash C tx = .ok (tx.segwitV0Sighash C
        (fundingRedeemscript ch.holderPubkeys.fundingPubkey cp.fundingPubkey) ch.fundingAmountSat) := by
    intro ch cp tx h
    simp only [Channel.fundingSighash, Channel.counterparty, h]
    rfl
  have hmade : C.signEcdsa (k s.other).fundingKey (b.tx.segwitV0Sighash C (fundingRedeemscript
      ((k s.other).pubkeys C).fundingPubkey ((k s).pubkeys C).fundingPubkey)
      (p.chan s).fundingAmountSat) = sig := by
    rw [Channel.signCounterpartyCommitmentTx, hsighash _ _ _ hcp', hp.signer, hp.holder, hp.amount] at hsig
    exact Except.ok.inj hsig
  rw [Channel.verifyCounterpartyFundingSig, Channel.counterparty, hcp, hsighash _ _ _ hcp, hp.holder, htx,
    fundingRedeemscript_comm, ← hmade]
  exact Fault.require_eq_ok.2 (hv _ _)

/-- The commitment that is signed for `s` is the one that `s` builds next. -/
theorem Coupled.signed_content (h : Coupled C g L p) {s : Side} {w : List (Beat Update)}
    (hin : beats (p.inbox s) = .sign :: w) :
    ∃ pending, (p.chan s.other).pendingCounterpartyCommitment = some pending ∧
      pending.info.number = (p.chan s).holderCommitmentNumber + 1 ∧
      (p.chan s.other).awaitingRaa = true ∧ Content.Agree pending.info.content ((p.chan s).contentOf true) := by
  have hs := h.inOrder s
  have ho := h.inOrder s.other
  have hj := (h.joint s).symm
  rw [hin] at hj
  obtain ⟨haw, hlog, hsigned, hnumber⟩ := hj.offered
  have hlog : (L s).log false = (L s.other).log true := hlog
  have hsigned : (L s.other).signed = (L s).acked true := hsigned
  obtain ⟨pending, hp, hnum, -, hof⟩ := ho.records.pending haw
  refine ⟨pending, hp, hnum.trans (congrArg (· + 1) hnumber.symm), haw, hof.agree ?_⟩
  have hle := Nat.le_trans ho.shape.wf.signed_le (ho.shape.wf.acked_le false)
  have hfront : ((L s.other).log false).take (L s.other).signed = ((L s).log true).take ((L s).acked true) := by
    rw [h.ours_take s hle, hsigned]
  have hown := hs.content true
  rw [Ledger.front_self, Ledger.front_not, Bool.not_true, hlog, ← hfront] at hown
  rw [h.opener_other s, Bool.not_not]
  simpa using hown

/-- A `commitment_signed` that arrives is accepted, as long as the close is not negotiated. -/
theorem signature_accepted {tr : Trace Event ChannelError (List Wire.Message)} (hv : C.VerifiesSigned)
    (hadd : C.AddsTweaks) (ho : Channel.Opened C ((k .a).toSigner C) ((k .b).toSigner C) a b)
    (hr : Run.Within (play C) (Honest C) ⟨a, b, [], []⟩ tr p) {s : Side} {m : Wire.CommitmentSigned}
    {v : List Wire.Message} (hin : p.inbox s = .commitmentSigned m :: v)
    (hst : (p.chan s).state = .normal ∨ (p.chan s).state = .shuttingDown)
    (hsep : ∀ b, (p.chan s).buildHolderCommitmentAt C ((p.chan s).holderCommitmentNumber + 1) = .ok b →
      C.Separates (b.scripts C (p.chan s).params.counterpartySelectedDelay))
    (ourScript : Script) (targetFeerate : FeeRatePerKw) :
    refuses C p (.deliver s ourScript targetFeerate) = false := by
  obtain ⟨⟨hstep, hacq⟩, hpeers, -⟩ := lives_of_run ho hr
  obtain ⟨g, L, h⟩ := hstep
  obtain ⟨pending, hp, hnum, haw, hagree⟩ := h.signed_content (s := s) (w := beats v) (by rw [hin]; rfl)
  obtain ⟨pending', signed, hp', hcov⟩ := hacq.mail s (.commitmentSigned m) (hin ▸ .head _)
  obtain rfl := Option.some.inj (hp.symm.trans hp')
  -- Both build in the same setting, with the same keys.
  obtain ⟨t, ht, hkeys⟩ := hcov.keys
  obtain ⟨t', ht', hbuilt⟩ := hcov.built
  obtain rfl := Option.some.inj (ht.symm.trans ht')
  obtain ⟨keys, hkeys', hlt, hbuilt⟩ := Setting.commitment_eq_some.1 hbuilt
  obtain rfl := Option.some.inj (hkeys.symm.trans hkeys')
  have hset : (p.chan s).setting true = some t := (hacq.setting s).trans ht
  have hpoint := (hacq.knows s.other).pending haw pending hp
  obtain ⟨_, hp'', hnum', -⟩ := (h.inOrder s.other).records.pending haw
  obtain rfl := Option.some.inj (hp.symm.trans hp'')
  rw [Side.other_other, ← hnum', hnum] at hpoint
  rw [hnum] at hlt hbuilt
  rw [hpoint] at hkeys
  have hb := Channel.buildHolderCommitmentAt_eq hset hkeys hlt
  -- The commitments differ in the order of their HTLCs only.
  have hdelay := Channel.setting_true hset
  obtain ⟨hdelay', hkeys''⟩ := Channel.setting_false ht
  have hsame := CommitmentTxParams.same_outputs (C := C)
    (p := t.params ((p.chan s).holderCommitmentNumber + 1) signed.keys ((p.chan s).contentOf true))
    hagree.htlcs (by rw [← hdelay] at hsep; exact hsep _ hb)
  rw [← hagree.params, ← hbuilt] at hsame
  have htx : signed.built.tx = ((t.params ((p.chan s).holderCommitmentNumber + 1) signed.keys
      ((p.chan s).contentOf true)).assemble C).tx := by
    rw [hbuilt, hagree.params]
    exact CommitmentTxParams.tx_perm C hagree.htlcs
  have htxid : signed.built.txid = ((t.params ((p.chan s).holderCommitmentNumber + 1) signed.keys
      ((p.chan s).contentOf true)).assemble C).txid := by
    rw [hbuilt] at htx ⊢
    exact congrArg (·.txid C) htx
  have hfunding := hpeers.verifies_funding hv htx.symm hcov.signature
  obtain ⟨-, -, hkey, -⟩ := TxCreationKeys.of_derive hkeys
  rw [hkeys'', hpeers.holder] at hkey
  obtain ⟨sk, hpk, hsk⟩ := InMemoryChannelSigner.signHtlc_key hadd hkey
  refine refuses_eq_false hin rfl (Channel.onCommitmentSigned_accepts hst hb hfunding ?_)
  refine Channel.verifyHtlcSigs_ok hbuilt rfl hcov.htlcs rfl rfl htxid hsame
    hcov.htlcSignatures (fun digest => ?_) (hdelay.symm.trans hdelay') hagree.feerate.symm
  rw [hpeers.signer, hpoint, hsk, ← hpk]
  exact hv sk digest

/-- The accepter takes the first commitment with an HTLC. -/
theorem signature_accepted_demo : ∃ p : Pair, (p.inbox .b).head?.bind Wire.Message.beat? = some .sign ∧
    (p.chan .b).htlcs ≠ [] ∧
    ∀ ourScript targetFeerate, refuses Demo.A p (.deliver .b ourScript targetFeerate) = false := by
  obtain ⟨a, b, tr, p, ho, hr, hhead, hhtlcs, hst, hsep⟩ := Demo.honest_run Demo.A (Demo.honestPayment.take 7)
    (fun p => (p.inbox .b).head?.bind Wire.Message.beat? = some .sign ∧ (p.chan .b).htlcs ≠ [] ∧
      (p.chan .b).state = .normal ∧
      ((p.chan .b).buildHolderCommitmentAt Demo.A ((p.chan .b).holderCommitmentNumber + 1)).toOption.all
        (fun b => Demo.A.Separates (b.scripts Demo.A (p.chan .b).params.counterpartySelectedDelay)) = true)
    (by decide +kernel)
  refine ⟨p, hhead, hhtlcs, fun ourScript targetFeerate => ?_⟩
  obtain ⟨m, v, hin⟩ := signature_of_head hhead
  refine signature_accepted Demo.verifiesSigned_additive SecretCrypto.additive_lawful.add
    (Demo.opened_signers ho) hr hin (.inl hst) (fun b hb => ?_) ourScript targetFeerate
  rw [Option.all_eq_true] at hsep
  exact of_decide_eq_true (hsep b (Fault.toOption_eq_some.2 hb))

end

end Pair
