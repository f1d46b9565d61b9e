import Keraunos.Channel.Proof.InStep

/-!
# What is on the links

The messages under way between two honest channels say the truth about the channel that sent them
(`Vouches`): `channel_ready` and `revoke_and_ack` carry its points and its secret, `commitment_signed`
signs the commitment it has pending. So each channel knows the points of the other (`Knows`), and both
build their commitments in the same setting (`Acquainted`).
-/

open Bitcoin Commitment Lockstep

namespace Channel

variable {C : Crypto} {g : Genesis} {ch ch' : Channel}

/-! ## Messages -/

/-- `m` signs the commitment `b` that `info` describes. -/
structure Covers (C : Crypto) (ch : Channel) (info : CounterpartyCommitmentInfo) (b : Built)
    (m : Wire.CommitmentSigned) : Prop where
  htlcs : b.htlcs = info.content.htlcs
  keys : ∃ t, ch.setting false = some t ∧
    TxCreationKeys.derive C info.perCommitmentPoint t.broadcaster t.countersignatory = some b.keys
  built : Renders C (ch.setting false) info.number info.perCommitmentPoint info.content b.built
  signature : ch.signCounterpartyCommitmentTx C b.built = .ok m.signature
  htlcSignatures : (b.built.htlcsInOutputOrder.mapM fun o =>
    (htlcSighash C b ch.params.holderSelectedDelay info.feerate o).map
      (ch.signer.signHtlc · info.perCommitmentPoint)) = some m.htlcSignatures

/-- The message is true of the channel that sent it. -/
def Vouches (C : Crypto) (ch : Channel) : Wire.Message → Prop
  | .channelReady m => m.secondPerCommitmentPoint = ch.signer.perCommitmentPoint 1
  | .revokeAndAck m => ∃ n, ch.holderCommitmentNumber = n + 1 ∧
      m.perCommitmentSecret = ch.signer.releaseCommitmentSecret n ∧
      m.nextPerCommitmentPoint = ch.signer.perCommitmentPoint (n + 2)
  | .commitmentSigned m => ∃ pending b, ch.pendingCounterpartyCommitment = some pending ∧
      Covers C ch pending.info b m
  | _ => True

theorem Covers.of_charter {info : CounterpartyCommitmentInfo} {b : Built} {m : Wire.CommitmentSigned}
    (h : Covers C ch info b m) (hc : ch'.charter = ch.charter) : Covers C ch' info b m := by
  have hset := setting_of_charter hc
  have hsigner : ch'.signer = ch.signer := congrArg (·.signer) hc
  have hparams : ch'.params = ch.params := congrArg (·.params) hc
  have hkeys : ch'.holderPubkeys = ch.holderPubkeys := congrArg (·.holderPubkeys) hc
  have hcp : ch'.counterpartyPubkeys = ch.counterpartyPubkeys := congrArg (·.counterpartyPubkeys) hc
  have hamount : ch'.fundingAmountSat = ch.fundingAmountSat := congrArg (·.fundingAmountSat) hc
  refine ⟨h.htlcs, hset ▸ h.keys, hset ▸ h.built, ?_, ?_⟩
  · rw [← h.signature]
    simp only [signCounterpartyCommitmentTx, fundingSighash, Channel.counterparty, hsigner, hkeys, hcp,
      hamount]
  · rw [hsigner, hparams]
    exact h.htlcSignatures

/-- Signing covers what becomes pending. -/
theorem Signs.covers {m : Wire.CommitmentSigned} {point : PublicKey} {b : Built}
    (h : Signs C ch m point b) : Covers C ch
      (ch.counterpartyInfoFromBuilt (ch.counterpartyCommitmentNumber + 1) point b.built b.htlcs) b m := by
  have hcontent := content_of_built h.built
  have hrenders := counterparty_renders h.built
  have hsigs := h.htlcSignatures
  have hb := h.built
  simp only [buildCounterpartyCommitmentAt, Channel.counterparty, Fault.bind_eq_ok, Fault.okOr_eq_ok,
    Fault.expect_eq_ok, pure, Except.pure, Except.ok.injEq] at hb
  obtain ⟨cp, hcp, keys, hkeys, funding, hfunding, built, -, rfl⟩ := hb
  refine ⟨?_, ⟨ch.settingWith cp funding false, by simp [setting, hcp, hfunding], ?_⟩, ?_, h.signature,
    hsigs⟩
  · rw [hcontent]
    rfl
  · simpa [settingWith, counterpartyInfoFromBuilt] using hkeys
  · rw [hcontent, ← contentOf_false]
    exact hrenders

/-- A message stays true as long as what it tells of does not change. -/
theorem Vouches.keep {m : Wire.Message} (h : Vouches C ch m) (hc : ch'.charter = ch.charter)
    (hnum : m.beat? = some .revoke → ch'.holderCommitmentNumber = ch.holderCommitmentNumber)
    (hpen : m.beat? = some .sign →
      ch'.pendingCounterpartyCommitment = ch.pendingCounterpartyCommitment) : Vouches C ch' m := by
  have hsigner : ch'.signer = ch.signer := congrArg (·.signer) hc
  cases m with
  | channelReady m => exact h.trans (by rw [hsigner])
  | revokeAndAck m =>
    obtain ⟨n, hn, hsecret, hnext⟩ := h
    exact ⟨n, (hnum rfl).trans hn, hsigner ▸ hsecret, hsigner ▸ hnext⟩
  | commitmentSigned m =>
    obtain ⟨pending, b, hp, hcov⟩ := h
    exact ⟨pending, b, (hpen rfl).trans hp, hcov.of_charter hc⟩
  | _ => trivial

theorem vouches_of_update {m : Wire.Message} {u : Update} (h : m.update? = some u) : Vouches C ch m := by
  cases m <;> first | exact trivial | exact absurd h (by simp [Wire.Message.update?])

theorem Makes.standing {u : Update} (h : Makes C ch u ch') : ch'.standing = ch.standing := by
  cases h <;> rfl

theorem Makes.pending {u : Update} (h : Makes C ch u ch') :
    ch'.pendingCounterpartyCommitment = ch.pendingCounterpartyCommitment := by
  cases h <;> rfl

section
variable {L : Ledger} {r : Party Update} {ws : List Wire.Message} {v : List (Beat Update)}

theorem mem_beats {m : Wire.Message} {b : Beat Update} (hm : m ∈ ws) (hb : m.beat? = some b) :
    b ∈ beats ws :=
  List.mem_filterMap.2 ⟨m, hm, hb⟩

theorem Speaks.vouches {m : Wire.Message} (hs : Speaks C ch m ch') (hj : Joint (L.party ch) r (beats ws) v)
    (h : ∀ x ∈ ws, Vouches C ch x) : ∀ x ∈ ws ++ [m], Vouches C ch' x := by
  intro x hx
  rcases List.mem_append.1 hx with hold | hnew
  · cases hs with
    | update _ hm =>
      exact (h x hold).keep hm.charter
        (fun _ => congrArg Standing.holderCommitmentNumber hm.standing) fun _ => hm.pending
    | sign hs =>
      refine (h x hold).keep rfl (fun _ => rfl) fun hb => ?_
      exact absurd (mem_beats hold hb) (hj.unsigned hs.idle)
  · obtain rfl := List.mem_singleton.1 hnew
    cases hs with
    | update hu _ => exact vouches_of_update hu
    | sign hs => exact ⟨_, _, rfl, hs.covers.of_charter rfl⟩

theorem Talks.vouches {ms : List Wire.Message} (ht : Talks C ch ms ch') :
    ∀ {L ws}, InOrder C g L ch → Joint (L.party ch) r (beats ws) v → (∀ x ∈ ws, Vouches C ch x) →
      ∀ x ∈ ws ++ ms, Vouches C ch' x := by
  induction ht with
  | nil => exact fun _ _ h => by simpa using h
  | @cons ch ch' ch'' m ms hs _ ih =>
    intro L ws hk hj h
    obtain ⟨L', hk', hj'⟩ := hs.joint hk hj
    have hone : beats ws ++ m.beat?.toList = beats (ws ++ [m]) := by
      rw [beats_append, beats_cons]
      simp [beats]
    rw [hone] at hj'
    simpa using ih hk' hj' (hs.vouches hj h)

/-- What a call puts on the link is true, and what was under way stays true. -/
theorem Deals.vouches {i : Input} {ms : List Wire.Message} (hd : Deals C ch i ms ch')
    (hk : InOrder C g L ch) (hj : Joint (L.party ch) r (beats ws) (i.beat?.toList ++ v))
    (h : ∀ x ∈ ws, Vouches C ch x) : ∀ x ∈ ws ++ ms, Vouches C ch' x := by
  cases hd with
  | aside hadm ha hms hready =>
    have hst := (ha.moves.standing hk.opened).2
    intro x hx
    rcases List.mem_append.1 hx with hx | hx
    · exact (h x hx).keep (congrArg Standing.toCharter hst)
        (fun _ => congrArg Standing.holderCommitmentNumber hst) fun _ => congrArg (·.pending) ha.dance
    · have hsigner : ch'.signer = ch.signer := congrArg (·.signer) hst
      have hno : ∀ b, x.beat? ≠ some b := by
        intro b hb
        have hmem := mem_beats hx hb
        rw [hms] at hmem
        cases hmem
      cases x with
      | channelReady m => exact (hready m hx).trans (by rw [hsigner])
      | revokeAndAck m => exact absurd rfl (hno .revoke)
      | commitmentSigned m => exact absurd rfl (hno .sign)
      | _ => trivial
  | parked op hown _ =>
    rw [List.append_nil]
    exact fun x hx => (h x hx).keep rfl (fun _ => rfl) fun _ => rfl
  | spoke hown hs =>
    rw [beat?_own hown] at hj
    exact (Talks.one hs).vouches hk hj h
  | heard hu ht =>
    rw [List.append_nil]
    intro x hx
    cases ht with
    | add => exact (h x hx).keep rfl (fun _ => rfl) fun _ => rfl
    | remove => exact (h x hx).keep rfl (fun _ => rfl) fun _ => rfl
    | fee => exact (h x hx).keep rfl (fun _ => rfl) fun _ => rfl
  | accepted msg b hb =>
    intro x hx
    rcases List.mem_append.1 hx with hx | hx
    · refine (h x hx).keep rfl (fun hb => ?_) fun _ => rfl
      exact absurd (mem_beats hx hb) (hj.symm.current (.head _))
    · obtain rfl := List.mem_singleton.1 hx
      exact ⟨ch.holderCommitmentNumber, rfl, rfl, rfl⟩
  | revoked msg pending secrets ha hp ht =>
    have hj' : Joint (L.revoke.party (ch.revoked pending secrets msg.nextPerCommitmentPoint)) r
        (beats ws) v := by
      rw [party_revoked]
      exact hj.symm.revoke.symm
    refine ht.vouches (hk.revoke ha hp secrets _) hj' fun x hx => ?_
    refine (h x hx).keep rfl (fun _ => rfl) fun hb => ?_
    exact absurd (mem_beats hx hb) hj.answered.2.1

end

/-! ## What the peer's points are -/

/-- `ch` knows the points of the peer with this signer. -/
structure Knows (signer : ChannelSigner) (ch : Channel) : Prop where
  current : ch.counterpartyCurrentPoint =
    some (signer.perCommitmentPoint ch.counterpartyCommitmentNumber)
  next : ∀ point, ch.counterpartyNextPoint = some point →
    point = signer.perCommitmentPoint (ch.counterpartyCommitmentNumber + 1)
  ready : ch.awaitingRaa = true → ∃ point, ch.counterpartyNextPoint = some point
  record : ∀ info, ch.currentCounterpartyCommitment = some info →
    info.perCommitmentPoint = signer.perCommitmentPoint ch.counterpartyCommitmentNumber
  pending : ch.awaitingRaa = true → ∀ pending, ch.pendingCounterpartyCommitment = some pending →
    pending.info.perCommitmentPoint =
      signer.perCommitmentPoint (ch.counterpartyCommitmentNumber + 1)

theorem Born.knows {signer : ChannelSigner} (h : Born C g ch)
    (hcur : ch.counterpartyCurrentPoint = some (signer.perCommitmentPoint 0))
    (hnext : ch.counterpartyNextPoint = none) : Knows signer ch := by
  obtain ⟨info, hinfo, -, -, -, hpoint⟩ := h.signed
  refine ⟨by rw [hcur, h.unused.counterpartyNumber], fun point hp => (by cases hnext.symm.trans hp),
    fun ha => (by cases h.unused.idle.symm.trans ha), fun info' hinfo' => ?_,
    fun ha => (by cases h.unused.idle.symm.trans ha)⟩
  obtain rfl := Option.some.inj (hinfo.symm.trans hinfo')
  rw [h.unused.counterpartyNumber]
  exact Option.some.inj (hpoint.symm.trans hcur)

theorem Speaks.knows {signer : ChannelSigner} {m : Wire.Message} (hs : Speaks C ch m ch')
    (h : Knows signer ch) : Knows signer ch' := by
  cases hs with
  | update _ hm => cases hm <;> exact ⟨h.current, h.next, h.ready, h.record, h.pending⟩
  | sign hs =>
    refine ⟨h.current, h.next, fun _ => ⟨_, hs.next⟩, h.record, fun _ pending hp => ?_⟩
    obtain rfl := Option.some.inj hp
    exact h.next _ hs.next

theorem Talks.knows {signer : ChannelSigner} {ms : List Wire.Message} (ht : Talks C ch ms ch')
    (h : Knows signer ch) : Knows signer ch' := by
  induction ht with
  | nil => exact h
  | cons hs _ ih => exact ih (hs.knows h)

theorem Aside.knows {signer : ChannelSigner} {i : Input} (ha : Aside C ch i ch')
    (hrank : 2 ≤ ch.state.rank)
    (hready : ∀ msg, i = .channelReady msg → msg.secondPerCommitmentPoint = signer.perCommitmentPoint 1)
    (h : Knows signer ch) : Knows signer ch' := by
  have hst := (ha.moves.standing hrank).2
  have hraa : ch'.awaitingRaa = ch.awaitingRaa := congrArg Dance.awaitingRaa ha.dance
  have hpen : ch'.pendingCounterpartyCommitment = ch.pendingCounterpartyCommitment :=
    congrArg (·.pending) ha.dance
  have hnum : ch'.counterpartyCommitmentNumber = ch.counterpartyCommitmentNumber :=
    congrArg Dance.counterpartyCommitmentNumber ha.dance
  have hcur : ch'.counterpartyCurrentPoint = ch.counterpartyCurrentPoint :=
    congrArg Standing.counterpartyCurrentPoint hst
  have hinfo : ch'.currentCounterpartyCommitment = ch.currentCounterpartyCommitment :=
    congrArg Standing.currentCounterpartyCommitment hst
  refine ⟨by rw [hcur, hnum]; exact h.current, ?_, ?_, by rw [hinfo, hnum]; exact h.record,
    by rw [hraa, hpen, hnum]; exact h.pending⟩
  · rw [hnum]
    rcases ha.next with hnext | ⟨msg, hi, hzero, -, hnext⟩
    · rw [hnext]
      exact h.next
    · intro point hpoint
      rw [hnext] at hpoint
      obtain rfl := Option.some.inj hpoint
      rw [hzero]
      exact hready msg hi
  · rw [hraa]
    rcases ha.next with hnext | ⟨msg, -, -, -, hnext⟩
    · rw [hnext]
      exact h.ready
    · exact fun _ => ⟨_, hnext⟩

/-- What arrives is true of the peer. -/
theorem Deals.knows {signer : ChannelSigner} {i : Input} {ms : List Wire.Message}
    (hd : Deals C ch i ms ch') (hrank : 2 ≤ ch.state.rank)
    (hready : ∀ msg, i = .channelReady msg → msg.secondPerCommitmentPoint = signer.perCommitmentPoint 1)
    (hraa : ∀ msg, i = .revokeAndAck msg →
      msg.nextPerCommitmentPoint = signer.perCommitmentPoint (ch.counterpartyCommitmentNumber + 2))
    (h : Knows signer ch) : Knows signer ch' := by
  cases hd with
  | aside _ ha => exact ha.knows hrank hready h
  | parked => exact ⟨h.current, h.next, h.ready, h.record, h.pending⟩
  | spoke _ hs => exact hs.knows h
  | heard _ ht => cases ht <;> exact ⟨h.current, h.next, h.ready, h.record, h.pending⟩
  | accepted => exact ⟨h.current, h.next, h.ready, h.record, h.pending⟩
  | revoked msg pending secrets ha hp ht =>
    refine ht.knows ⟨?_, fun point hpoint => ?_, fun ha' => (by cases ha'), fun info hinfo => ?_,
      fun ha' => (by cases ha')⟩
    · obtain ⟨point, hpoint⟩ := h.ready ha
      exact hpoint.trans (congrArg some (h.next point hpoint))
    · obtain rfl := Option.some.inj hpoint
      exact hraa msg rfl
    · obtain rfl := Option.some.inj hinfo
      exact h.pending ha pending hp

end Channel

namespace Pair

variable {C : Crypto} {g : Genesis} {L : Side → Ledger} {p p' : Pair}

/-- Both build their commitments in the same setting, know each other's points, and what is under way
is true. -/
structure Acquainted (C : Crypto) (p : Pair) : Prop where
  setting : ∀ s, (p.chan s).setting true = (p.chan s.other).setting false
  knows : ∀ s, Channel.Knows (p.chan s.other).signer (p.chan s)
  mail : ∀ s, ∀ m ∈ p.inbox s, Channel.Vouches C (p.chan s.other) m

/-- An opening makes them acquainted. -/
theorem Opening.acquainted (h : Opening C p) : Acquainted C p := by
  cases h with
  | @intro signerA signerB a b ho =>
    obtain ⟨g, ha, hb⟩ := ho.born
    have hcp := ho.counterparts.1
    have hterms := ho.sameTerms
    refine ⟨fun s => ?_, fun s => ?_, fun s m hm => (by cases s <;> cases hm)⟩
    · cases s
      · exact hterms.ours
      · exact hterms.theirs.symm
    · cases s
      · exact ha.knows (hterms.pointA.trans (by rw [← hcp.signsB]; rfl)) hterms.nextA
      · exact hb.knows (hterms.pointB.trans (by rw [← hcp.signsA]; rfl)) hterms.nextB

/-- A change at the end `s`. -/
theorem Acquainted.set (h : Acquainted C p) (s : Side) {ch' : Channel} {w v : List Wire.Message}
    (hc : ch'.charter = (p.chan s).charter) (hk : Channel.Knows (p.chan s.other).signer ch')
    (hv : ∀ m ∈ v, m ∈ p.inbox s) (hw : ∀ m ∈ w, Channel.Vouches C ch' m) :
    Acquainted C (((p.setInbox s v).setChan s ch').setInbox s.other w) := by
  have hset := Channel.setting_of_charter hc
  have hsigner : ch'.signer = (p.chan s).signer := congrArg (·.signer) hc
  have hours := h.setting s
  have htheirs := h.setting s.other
  have hknows := h.knows s.other
  have hmail := h.mail s
  rw [Side.other_other] at htheirs hknows
  rw [← hset] at hours htheirs
  rw [← hsigner] at hknows
  refine ⟨fun t => ?_, fun t => ?_, fun t m hm => ?_⟩
  · cases s <;> cases t <;> simpa [Side.other, setChan, setInbox, chan] using ‹_›
  · cases s <;> cases t <;> simpa [Side.other, setChan, setInbox, chan] using ‹_›
  · cases s <;> cases t <;>
      simp only [Side.other, setChan, setInbox, chan, inbox] at hm hmail hv hw ⊢ <;>
      first | exact hw m hm | exact hmail m (hv m hm)

theorem Arrives.ready {s : Side} {msg : Wire.ChannelReady} {v : List Wire.Message}
    (h : Arrives p s (.channelReady msg) v) : .channelReady msg ∈ p.inbox s := by
  cases h with
  | command hi => cases hi
  | @message m _ _ _ hin hm =>
    rw [hin]
    cases m <;> simp only [Wire.Message.toInputWith, Wire.Message.toInput] at hm <;> cases hm
    exact .head _

theorem Arrives.revocation {s : Side} {msg : Wire.RevokeAndAck} {v : List Wire.Message}
    (h : Arrives p s (.revokeAndAck msg) v) : .revokeAndAck msg ∈ p.inbox s := by
  cases h with
  | command hi => cases hi
  | @message m _ _ _ hin hm =>
    rw [hin]
    cases m <;> simp only [Wire.Message.toInputWith, Wire.Message.toInput] at hm <;> cases hm
    exact .head _

/-- A step keeps it. -/
theorem Played.acquainted (hp : Played C p p') (hi : InStep C p) (h : Acquainted C p) :
    Acquainted C p' := by
  have hrank := hi.rank
  obtain ⟨g, L, hi⟩ := hi
  cases hp with
  | same => exact h
  | @called s i ms v ch' ha hd =>
    have hj := hi.joint s
    rw [ha.beats] at hj
    have hmail := h.mail s.other
    rw [Side.other_other] at hmail
    have hv : ∀ m ∈ v, m ∈ p.inbox s := by
      cases ha with
      | command => exact fun _ hm => hm
      | message _ _ hin => exact fun m hm => hin ▸ List.mem_cons_of_mem _ hm
    have hset := h.set s (hd.charter (hrank s)) (hd.knows (hrank s) ?_ ?_ (h.knows s)) hv
      (hd.vouches (hi.inOrder s) hj hmail)
    · convert hset using 1
      cases s <;> rfl
    · rintro msg rfl
      exact h.mail s _ (ha.ready)
    · rintro msg rfl
      obtain ⟨n, hn, -, hnext⟩ := h.mail s _ ha.revocation
      have hnum : (p.chan s.other).holderCommitmentNumber = (p.chan s).counterpartyCommitmentNumber + 1 :=
        hj.answered.2.2
      rw [hnext, Nat.add_right_cancel (hn.symm.trans hnum)]
  | @refused s i ch' hown haside =>
    have hst := (haside.moves.standing (hrank s)).2
    have hset := h.set s (congrArg Channel.Standing.toCharter hst)
      (haside.knows (hrank s) ?_ (h.knows s)) (v := p.inbox s) (fun _ hm => hm)
      (w := p.inbox s.other) ?_
    · convert hset using 1
      cases s <;> rfl
    · rintro msg rfl
      cases hown
    · have hmail := h.mail s.other
      rw [Side.other_other] at hmail
      exact fun m hm => (hmail m hm).keep (congrArg Channel.Standing.toCharter hst)
        (fun _ => congrArg Channel.Standing.holderCommitmentNumber hst)
        fun _ => congrArg (·.pending) haside.dance
  | @dropped s m v hin hm =>
    have hmail := h.mail s.other
    rw [Side.other_other] at hmail
    have hset := h.set s rfl (h.knows s) (v := v) (fun m hm => hin ▸ List.mem_cons_of_mem _ hm) hmail
    convert hset using 1
    cases s <;> rfl

/-- Every run of honest owners. -/
theorem acquainted_of_run {p₀ : Pair} {tr : Trace Event ChannelError (List Wire.Message)}
    (h₀ : Opening C p₀) (hr : Run.Within (play C) (Honest C) p₀ tr p) :
    InStep C p ∧ Acquainted C p := by
  refine hr.invariant (I := fun p => InStep C p ∧ Acquainted C p) ⟨h₀.inStep, h₀.acquainted⟩ ?_
  intro p e hh h
  exact (play_played hh).mono fun _ hp => ⟨hp.inStep h.1, hp.acquainted h.1 h.2⟩

end Pair
