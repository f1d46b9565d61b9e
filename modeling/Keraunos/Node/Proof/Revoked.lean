import Keraunos.Channel.Proof.Revocation
import Keraunos.Node.Proof.History

/-!
# No revocation of a commitment that was broadcast

A channel stays in the map after our commitment was broadcast, and its peer's `commitment_signed`
still moves it on and makes it release the secret of that commitment. `Withholds` says that this
does not happen; `secrets_withheld` says that then every revocation that is sent after a broadcast
is one of an earlier commitment.

The invariant of the moves is `Withheld`: the channels closed stay at their number.
-/

open Bitcoin

/-- Our commitment of the channel `s` was broadcast. -/
def Happening.closes (s : Nat) : Happening → Bool
  | .forceClosed e => e.serial = s
  | _ => false

namespace Node

variable {E : Env}

/-- A channel whose commitment was broadcast accepts no `commitment_signed`. -/
def RevokeRule (hs : List Happening) : Happening → Prop
  | .acted e (.commitmentSigned _) (.ok _) => ∀ x, .forceClosed x ∈ hs → x.serial ≠ e.serial
  | _ => True

/-- A revocation sent after a broadcast of the channel's commitment reveals an earlier one. -/
def SpeakRule (hs : List Happening) : Happening → Prop
  | .spoke s (.revokeAndAck m) => ∀ x, .forceClosed x ∈ hs → x.serial = s →
      ∃ hc k, x.channel.currentHolderCommitment = some hc ∧ k < hc.number ∧
        m.perCommitmentSecret = x.channel.signer.releaseCommitmentSecret k
  | _ => True

/-! ## The invariant -/

/-- Where an entry comes from: it is new, or the channel's number stayed or a `commitment_signed` was
accepted. -/
def Origin (n : Node E) (x' : ChannelEntry) : Prop :=
  x'.serial = n.history.length ∨ ∃ id x, n.channels.lookup id = some x ∧ x'.serial = x.serial ∧
    x'.channel.signer = x.channel.signer ∧
    x.channel.holderCommitmentNumber ≤ x'.channel.holderCommitmentNumber ∧
    (x'.channel.holderCommitmentNumber = x.channel.holderCommitmentNumber ∨
      ∃ msg a, RevokeRule n.history (.acted x (.commitmentSigned msg) (.ok a)))

/-- The message is a revocation that reveals a commitment before the channel's. -/
def RevealsEarlier (ch : Channel) (m : Wire.RevokeAndAck) : Prop :=
  ∃ k < ch.holderCommitmentNumber, m.perCommitmentSecret = ch.signer.releaseCommitmentSecret k

/-- The channels whose commitments were broadcast stay as they are. -/
structure Withheld (n : Node E) : Prop where
  numbered : Numbered n
  past : Past n
  guarded : ∀ id x, n.channels.lookup id = some x → Channel.Guarded E.C x.channel.signer x.channel
  /-- What a channel said is about commitments before its current one. -/
  said : ∀ e i a m, .acted e i (.ok a) ∈ n.history → .revokeAndAck m ∈ i.toSend a →
    ∀ id x, n.channels.lookup id = some x → x.serial = e.serial → RevealsEarlier x.channel m
  frozen : ∀ e, .forceClosed e ∈ n.history → ∀ id x, n.channels.lookup id = some x →
    x.serial = e.serial → x.channel.signer = e.channel.signer ∧
      x.channel.holderCommitmentNumber = e.channel.holderCommitmentNumber
  closed : ∀ e, .forceClosed e ∈ n.history → ∃ hc, e.channel.currentHolderCommitment = some hc ∧
    hc.number = e.channel.holderCommitmentNumber
  /-- What a channel said before or after the broadcast is about commitments before that one. -/
  late : ∀ e i a m, .acted e i (.ok a) ∈ n.history → .revokeAndAck m ∈ i.toSend a →
    ∀ x, .forceClosed x ∈ n.history → x.serial = e.serial → RevealsEarlier x.channel m

section
variable {n n' : Node E}

theorem RevealsEarlier.mono {ch ch' : Channel} {m : Wire.RevokeAndAck} (h : RevealsEarlier ch m)
    (hs : ch'.signer = ch.signer) (hn : ch.holderCommitmentNumber ≤ ch'.holderCommitmentNumber) :
    RevealsEarlier ch' m := by
  obtain ⟨k, hk, hm⟩ := h
  exact ⟨k, hk.trans_le hn, hs ▸ hm⟩

/-- An entry that is not touched. -/
theorem Origin.same {id : ChannelId} {x : ChannelEntry} (hx : n.channels.lookup id = some x) :
    Origin n x :=
  .inr ⟨id, x, hx, rfl, rfl, le_rfl, .inl rfl⟩

theorem Origin.update {id : ChannelId} (e' : ChannelEntry) (ho : Origin n e')
    (hc : n'.channels = n.channels.insert id e') :
    ∀ k x', n'.channels.lookup k = some x' → Origin n x' := by
  intro k x' hx'
  rw [hc] at hx'
  rcases lookup_insert_eq hx' with ⟨rfl, rfl⟩ | ⟨-, hx'⟩
  · exact ho
  · exact .same hx'

/-- After a call that returned. -/
theorem Origin.acted {id : ChannelId} {e e' : ChannelEntry} {i : Channel.Input} {a : i.Outcome}
    (he : n.channels.lookup id = some e) (hs : e'.serial = e.serial)
    (hr : Channel.Reveals e.channel i a e'.channel)
    (hP : RevokeRule n.history (.acted e i (.ok a))) : Origin n e' := by
  refine .inr ⟨id, e, he, hs, hr.signer, hr.le, ?_⟩
  by_cases hi : ∃ msg, i = .commitmentSigned msg
  · obtain ⟨msg, rfl⟩ := hi
    exact .inr ⟨msg, a, hP⟩
  · exact .inl (hr.eq fun msg hmsg => hi ⟨msg, hmsg⟩)

/-- Every entry after a move has an origin. -/
theorem Move.origin (hm : Move (fun n x => RevokeRule n.history x) n n') :
    ∀ id x', n'.channels.lookup id = some x' → Origin n x' := by
  have hsame : n'.channels = n.channels → ∀ id x', n'.channels.lookup id = some x' →
      Origin n x' := fun hc id x' hx' => .same (hc ▸ hx')
  cases hm with
  | idle hc | link hc | spoke _ _ _ hc | failedBack _ hc | ordered _ hc | polled hc => exact hsame hc
  | forceClosed _ _ _ _ _ _ hc | published _ _ _ _ _ _ _ hc => exact hsame hc
  | edit id e e' he hch _ hs hc =>
    exact Origin.update e' (.inr ⟨id, e, he, hs, by rw [hch], by rw [hch], .inl (by rw [hch])⟩) hc
  | act id e i a ch he _ hrun hc _ _ hP =>
    have hr := Act.wp_ok (Channel.perform_reveals i) hrun
    exact Origin.update { e with channel := ch } (.acted he rfl hr hP) hc
  | refuse id e i err ch he hrun hc =>
    have hr := Act.wp_error (Channel.perform_reveals i) hrun err rfl
    exact Origin.update { e with channel := ch } (.inr ⟨id, e, he, rfl, hr.1, hr.2.ge, .inl hr.2⟩) hc
  | opened id e _ _ hs hc =>
    intro k x' hx'
    rw [hc] at hx'
    rcases lookup_insert_eq hx' with ⟨rfl, rfl⟩ | ⟨-, hx'⟩
    · exact .inl hs
    · exact .same hx'
  | fund id e e' i a ch he hi hrun hch _ hs hlook _ _ hP =>
    have hr := Act.wp_ok (Channel.perform_reveals i) hrun
    intro k x' hx'
    rw [hlook] at hx'
    split at hx'
    · obtain rfl := Option.some.inj hx'
      exact .acted he hs (hch ▸ hr) hP
    · split at hx'
      · cases hx'
      · exact .same hx'

/-- The origin of an entry with the serial number of one recorded. -/
theorem Origin.old {x' : ChannelEntry} {h : Happening} (ho : Origin n x') (hp : Past n)
    (hmem : h ∈ n.history) (hs : h.serial = some x'.serial) :
    ∃ id x, n.channels.lookup id = some x ∧ x'.serial = x.serial ∧
      x'.channel.signer = x.channel.signer ∧
      x.channel.holderCommitmentNumber ≤ x'.channel.holderCommitmentNumber ∧
      (x'.channel.holderCommitmentNumber = x.channel.holderCommitmentNumber ∨
        ∃ msg a, RevokeRule n.history (.acted x (.commitmentSigned msg) (.ok a))) := by
  rcases ho with hfresh | hold
  · exact absurd (hp h hmem _ hs) (by rw [hfresh]; exact lt_irrefl _)
  · exact hold

/-- Entries with the serial number of a channel are its entry. -/
theorem Numbered.unique (h : Numbered n) {id k : ChannelId} {e x : ChannelEntry}
    (he : n.channels.lookup id = some e) (hx : n.channels.lookup k = some x)
    (hs : x.serial = e.serial) : x = e := by
  obtain rfl := h.inj id k e x he hx hs.symm
  exact Option.some.inj (hx.symm.trans he)

theorem fresh_guarded {C : Crypto} {ch : Channel} (h : Channel.Fresh C ch) :
    Channel.Guarded C ch.signer ch := .initial h.initial

theorem perform_guarded_signer {C : Crypto} (i : Channel.Input) (ch : Channel)
    (h : Channel.Guarded C ch.signer ch) :
    Act.Ends (Channel.perform C i) ch fun ch' => Channel.Guarded C ch'.signer ch' :=
  (show Act.Ends _ _ _ from Channel.perform_guarded h i).mono fun _ hg => hg.signer ▸ hg

theorem Move.withheld (hm : Move (fun n x => RevokeRule n.history x) n n') (h : Withheld n) :
    Withheld n' := by
  have hnum := hm.numbered h.numbered
  have horigin := hm.origin
  have hguarded := hm.channels (J := fun ch => Channel.Guarded E.C ch.signer ch)
    (fun _ => fresh_guarded) perform_guarded_signer h.guarded
  -- What was said before is still about earlier commitments, and what was closed stays.
  have hsaid : ∀ e i a m, .acted e i (.ok a) ∈ n.history → .revokeAndAck m ∈ i.toSend a →
      ∀ id x, n'.channels.lookup id = some x → x.serial = e.serial → RevealsEarlier x.channel m := by
    intro e i a m hmem hm id x' hx' hs
    obtain ⟨k, x, hx, hsx, hsig, hle, -⟩ := (horigin id x' hx').old h.past hmem (by rw [hs]; rfl)
    exact (h.said e i a m hmem hm k x hx (hsx.symm.trans hs)).mono hsig hle
  have hfrozen : ∀ e, .forceClosed e ∈ n.history → ∀ id x, n'.channels.lookup id = some x →
      x.serial = e.serial → x.channel.signer = e.channel.signer ∧
        x.channel.holderCommitmentNumber = e.channel.holderCommitmentNumber := by
    intro e hmem id x' hx' hs
    obtain ⟨k, x, hx, hsx, hsig, -, hn⟩ := (horigin id x' hx').old h.past hmem (by rw [hs]; rfl)
    obtain ⟨hsig', hn'⟩ := h.frozen e hmem k x hx (hsx.symm.trans hs)
    rcases hn with hn | ⟨msg, a, hP⟩
    · exact ⟨hsig.trans hsig', hn.trans hn'⟩
    · exact absurd (hs.symm.trans hsx) (hP e hmem)
  obtain ⟨l, hh, hrec⟩ := hm.records
  have hsplit : ∀ x, x ∈ n'.history → x ∈ n.history ∨ x ∈ l := fun x hx => by
    rw [hh] at hx
    exact List.mem_append.1 hx
  refine ⟨hnum, hm.past h.past h.numbered, hguarded, ?_, ?_, ?_, ?_⟩
  · intro e i a m hmem hmsg id x hx hs
    rcases hsplit _ hmem with hmem | hmem
    · exact hsaid e i a m hmem hmsg id x hx hs
    · cases hrec with
      | none hno => exact absurd hmem (hno e i a)
      | call id₀ k e₀ x' i₀ a₀ he hrun _ hx' hsx hacted _ =>
        obtain ⟨rfl, rfl, ha⟩ := Happening.acted.inj (hacted e i a hmem)
        obtain rfl := Except.ok.inj (eq_of_heq ha)
        obtain rfl := hnum.unique hx' hx (hs.trans hsx.symm)
        have hr := Act.wp_ok (Channel.perform_reveals i) hrun
        exact hr.secrets m hmsg
      | close _ _ _ _ _ _ hl => simp [hl] at hmem
  · intro e hmem id x hx hs
    rcases hsplit _ hmem with hmem | hmem
    · exact hfrozen e hmem id x hx hs
    · cases hrec with
      | none _ hno => exact absurd hmem (hno e)
      | call _ _ _ _ _ _ _ _ _ _ _ _ hno => exact absurd hmem (hno e)
      | close id₀ e₀ tx he _ hc hl =>
        rw [hl] at hmem
        obtain rfl := Happening.forceClosed.inj (List.mem_singleton.1 hmem)
        obtain rfl := h.numbered.unique he (hc ▸ hx) hs
        exact ⟨rfl, rfl⟩
  · intro e hmem
    rcases hsplit _ hmem with hmem | hmem
    · exact h.closed e hmem
    · cases hrec with
      | none _ hno => exact absurd hmem (hno e)
      | call _ _ _ _ _ _ _ _ _ _ _ _ hno => exact absurd hmem (hno e)
      | close id₀ e₀ tx he htx _ hl =>
        rw [hl] at hmem
        obtain rfl := Happening.forceClosed.inj (List.mem_singleton.1 hmem)
        obtain ⟨hc, -, -, -, hhc, -⟩ := (h.guarded id₀ e he).signedHolderCommitmentTx htx
        exact ⟨hc, hhc, ((h.guarded id₀ e he).backed hc hhc).number⟩
  · intro e i a m hmem hmsg x hxmem hs
    rcases hsplit _ hmem with hmem | hmem <;> rcases hsplit _ hxmem with hxmem | hxmem
    · exact h.late e i a m hmem hmsg x hxmem hs
    · cases hrec with
      | none _ hno => exact absurd hxmem (hno x)
      | call _ _ _ _ _ _ _ _ _ _ _ _ hno => exact absurd hxmem (hno x)
      | close id₀ e₀ tx he _ _ hl =>
        rw [hl] at hxmem
        obtain rfl := Happening.forceClosed.inj (List.mem_singleton.1 hxmem)
        exact h.said e i a m hmem hmsg id₀ x he hs
    · cases hrec with
      | none hno => exact absurd hmem (hno e i a)
      | call id₀ k e₀ x' i₀ a₀ he hrun hP _ _ hacted _ =>
        obtain ⟨rfl, rfl, hacc⟩ := Happening.acted.inj (hacted e i a hmem)
        obtain rfl := Except.ok.inj (eq_of_heq hacc)
        have hr := Act.wp_ok (Channel.perform_reveals i) hrun
        obtain ⟨hsig, hn⟩ := h.frozen x hxmem id₀ e he hs.symm
        have heq := hr.eq fun msg hmsg' => by
          subst hmsg'
          exact hP x hxmem hs
        have hrev : RevealsEarlier x'.channel m := hr.secrets m hmsg
        exact hrev.mono (hsig.symm.trans hr.signer.symm) (heq.trans hn).le
      | close _ _ _ _ _ _ hl => simp [hl] at hmem
    · cases hrec with
      | none hno => exact absurd hmem (hno e i a)
      | call _ _ _ _ _ _ _ _ _ _ _ _ hno => exact absurd hxmem (hno x)
      | close _ _ _ _ _ _ hl => simp [hl] at hmem

end

/-! ## Runs -/

/-- The channel accepts the `commitment_signed`. -/
def accepts (C : Crypto) (msg : Wire.CommitmentSigned) (ch : Channel) : Bool :=
  match Channel.onCommitmentSigned C msg ch with
  | .ok _ _ => true
  | .error _ _ => false

/-- The message is no `commitment_signed` that a channel whose commitment was broadcast accepts from
its peer. -/
def Withholds (n : Node E) (peer : PeerId) : Wire.Message → Prop
  | .commitmentSigned msg => ∀ e ∈ n.channels.lookup msg.channelId,
      n.byNodeId.lookup e.nodeId = some peer → n.history.any (·.closes e.serial) = true →
      accepts E.C msg e.channel = false
  | _ => True

/-- A call whose messages withhold the secrets. -/
def WithholdsCall (n : Node E) (i : Input E) : Prop := i.Meets Withholds n

section
variable {n : Node E}

/-- Only a `commitment_signed` is subject to the rule. -/
theorem revokeRule_acted {hs : List Happening} {e : ChannelEntry} {i : Channel.Input}
    {r : Except ChannelError i.Outcome} (hi : ∀ msg, i ≠ .commitmentSigned msg) :
    RevokeRule hs (.acted e i r) := by
  cases i <;> first | trivial | exact absurd rfl (hi _)

theorem request_commitmentSigned {config : NodeConfig} {msg : Wire.Message} {id : ChannelId}
    {m : Wire.CommitmentSigned} (h : request config msg = some (id, .commitmentSigned m)) :
    msg = .commitmentSigned m ∧ id = m.channelId := by
  cases msg with
  | commitmentSigned m' =>
    simp only [request, Option.some.injEq, Prod.mk.injEq, Channel.Input.commitmentSigned.injEq] at h
    obtain ⟨rfl, rfl⟩ := h
    exact ⟨rfl, rfl⟩
  | _ => simp [request] at h

theorem Withholds.allows {peer : PeerId} {msg : Wire.Message} (h : Withholds n peer msg) :
    Allows (fun n x => RevokeRule n.history x) n peer msg where
  requests id i hi := by
    refine ⟨fun e r he hb hy => ?_, fun _ _ _ _ _ _ _ _ _ _ _ => trivial⟩
    by_cases hcs : ∃ m, i = .commitmentSigned m
    · obtain ⟨m, rfl⟩ := hcs
      obtain ⟨rfl, rfl⟩ := request_commitmentSigned hi
      cases r with
      | error err => trivial
      | ok a =>
        obtain ⟨ch', hrun⟩ := hy
        intro x hx hs
        have hno := h e he hb (List.any_eq_true.2 ⟨_, hx, by simp [Happening.closes, hs]⟩)
        rw [accepts, show Channel.onCommitmentSigned E.C m e.channel = .ok a ch' from hrun] at hno
        cases hno
    · exact revokeRule_acted fun m hm => hcs ⟨m, hm⟩
  follows _ _ _ _ _ _ _ _ _ _ := ⟨fun _ _ => trivial, fun _ => trivial⟩
  errors _ _ _ _ _ _ _ := trivial
  opens _ _ _ _ _ _ _ := trivial
  rekeys _ _ _ _ _ _ _ _ := trivial
  fails _ _ _ _ _ _ _ _ _ _ _ := trivial
  failsMalformed _ _ _ _ _ _ _ _ _ _ _ := trivial
  drops _ _ _ _ _ _ := trivial

theorem WithholdsCall.allows {i : Input E} (h : WithholdsCall n i) :
    AllowsCall (fun n x => RevokeRule n.history x) n i where
  messages := Input.Meets.imp (fun _ _ _ => Withholds.allows) h
  own _ _ j _ hj := by cases j <;> first | exact hj.elim | trivial
  opens _ _ _ _ _ _ _ := trivial
  funds _ _ _ _ _ _ _ := trivial
  orders _ _ _ := trivial
  forces _ _ _ _ _ _ _ _ _ _ := trivial
  polls _ := trivial

theorem step_revokeRule {i : Input E} (h : WithholdsCall n i) :
    MovesOnly (fun n x => RevokeRule n.history x) (step i) n := by
  refine step_moves (fun _ _ j _ hj => ?_) (fun _ _ _ => trivial) h.allows
  cases j <;> first | exact hj.elim | trivial

/-- A revocation that is sent was said, and what was said after a broadcast is harmless. -/
theorem Withheld.speak (h : Withheld n) {s : Nat} {msg : Wire.Message} (hsaid : Said n.history s msg) :
    SpeakRule n.history (.spoke s msg) := by
  cases msg with
  | revokeAndAck m =>
    obtain ⟨e, i, a, hmem, rfl, hmsg⟩ := hsaid
    intro x hx hs
    obtain ⟨hc, hhc, hn⟩ := h.closed x hx
    obtain ⟨k, hk, hm⟩ := h.late e i a m hmem hmsg x hx hs
    exact ⟨hc, k, hhc, hn ▸ hk, hm⟩
  | _ => trivial

end

/-- In a run whose messages withhold the secrets, a revocation of a channel that is sent after its
commitment was broadcast reveals an earlier commitment, for each one broadcast; so it is not the
secret of one of these, if the secrets of the channel differ. -/
theorem secrets_withheld {entropy : E.Entropy} {config : NodeConfig}
    {tr : Trace (Input E) NodeError Unit} {n : Node E}
    (hr : Run.Within step WithholdsCall (Node.new E entropy config) tr n) :
    ∀ l s m l', n.history = l ++ .spoke s (.revokeAndAck m) :: l' →
      ∀ e, .forceClosed e ∈ l → e.serial = s →
        ∃ hc, e.channel.currentHolderCommitment = some hc ∧
          (∃ k < hc.number, m.perCommitmentSecret = e.channel.signer.releaseCommitmentSecret k) ∧
          ((∀ k < hc.number, e.channel.signer.releaseCommitmentSecret k ≠
              e.channel.signer.releaseCommitmentSecret hc.number) →
            m.perCommitmentSecret ≠ e.channel.signer.releaseCommitmentSecret hc.number) := by
  have hinv : Withheld n ∧ Lawful SpeakRule n.history := by
    refine hr.invariant (I := fun m => Withheld m ∧ Lawful SpeakRule m.history) ?_ ?_
    · refine ⟨⟨⟨?_, ?_⟩, ?_, ?_, ?_, ?_, ?_, ?_⟩, lawful_nil⟩
      · exact fun _ _ he => nomatch he
      · exact fun _ _ _ _ he => nomatch he
      · exact fun _ hmem => nomatch hmem
      · exact fun _ _ he => nomatch he
      · exact fun _ _ _ _ hmem => nomatch hmem
      · exact fun _ hmem => nomatch hmem
      · exact fun _ hmem => nomatch hmem
      · exact fun _ _ _ _ hmem => nomatch hmem
    · intro m i hi hm
      refine Act.Ends.mono (step_revokeRule hi) fun m' hmoves => ?_
      refine hmoves.invariant (I := fun m => Withheld m ∧ Lawful SpeakRule m.history) ?_ hm
      intro a b hmove hab
      refine ⟨hmove.withheld hab.1, hmove.lawful hab.2 (fun x _ hx => ?_) (fun _ _ => hab.1.speak)
        fun _ _ _ _ => trivial⟩
      cases x <;> first | trivial | exact absurd rfl (hx _ _)
  intro l s m l' heq e he hs
  obtain ⟨hc, k, hhc, hk, hm⟩ := hinv.2 l _ l' heq e he hs
  exact ⟨hc, hhc, ⟨k, hk, hm⟩, fun hne => hm ▸ hne k hk⟩

/-! ## A revocation of a commitment that was broadcast

The check of the condition on concrete runs, a run that meets it, and one in which a channel that
was closed accepts a `commitment_signed`. -/

instance (n : Node E) (peer : PeerId) : ∀ msg, Decidable (Withholds n peer msg)
  | .commitmentSigned msg => inferInstanceAs (Decidable (∀ e ∈ n.channels.lookup msg.channelId,
      n.byNodeId.lookup e.nodeId = some peer → _ = true → accepts E.C msg e.channel = false))
  | .init _ | .error _ | .warning _ | .ping _ | .pong _ | .openChannel _ | .acceptChannel _
  | .fundingCreated _ | .fundingSigned _ | .channelReady _ | .updateAddHtlc _ | .updateFulfillHtlc _
  | .updateFailHtlc _ | .updateFailMalformedHtlc _ | .updateFee _ | .revokeAndAck _ | .shutdown _
  | .closingSigned _ | .channelReestablish _ | .announcementSignatures _ | .channelAnnouncement _
  | .channelUpdate _ | .nodeAnnouncement _ | .gossipTimestampFilter _ | .unknown .. =>
    .isTrue trivial

instance (n : Node E) (i : Input E) : Decidable (WithholdsCall n i) :=
  inferInstanceAs (Decidable (i.Meets Withholds n))

/-- Whether entry `j` is a revocation sent after a commitment of its channel was broadcast, and `p`
of that commitment and the revocation. -/
def revokedAt (p : ChannelEntry → Wire.RevokeAndAck → Bool) (hs : List Happening) (j : Nat) : Bool :=
  match hs[j]? with
  | some (.spoke s (.revokeAndAck m)) => (hs.take j).any fun
    | .forceClosed e => e.serial = s && p e m
    | _ => false
  | _ => false

theorem revokedAt_spec {p : ChannelEntry → Wire.RevokeAndAck → Bool} {hs : List Happening} {j : Nat}
    (h : revokedAt p hs j = true) : ∃ l s m l' e, hs = l ++ .spoke s (.revokeAndAck m) :: l' ∧
      .forceClosed e ∈ l ∧ e.serial = s ∧ p e m = true := by
  unfold revokedAt at h
  split at h
  · next s m hj =>
    obtain ⟨x, hx, hp⟩ := List.any_eq_true.1 h
    split at hp
    · next e =>
      rw [Bool.and_eq_true, decide_eq_true_eq] at hp
      obtain ⟨hlt, hget⟩ := List.getElem?_eq_some_iff.1 hj
      refine ⟨hs.take j, s, m, hs.drop (j + 1), e, ?_, hx, hp⟩
      rw [← hget, ← List.drop_eq_getElem_cons hlt, List.take_append_drop]
    · cases hp
  · cases h

section
open Demo

/-- After a payment the channel is closed; the revocation sent again is the one of commitment 0. -/
theorem secrets_withheld_resent :
    ∃ tr n, Run.Within step WithholdsCall node tr n ∧
      ∃ l s m l' e, n.history = l ++ .spoke s (.revokeAndAck m) :: l' ∧ .forceClosed e ∈ l ∧
        e.serial = s ∧ ∃ hc, e.channel.currentHolderCommitment = some hc ∧
          ∃ k < hc.number, m.perCommitmentSecret = e.channel.signer.releaseCommitmentSecret k := by
  obtain ⟨tr, n, hr, hj⟩ := Run.Within.exists_of_exec (f := step) (A := WithholdsCall) (s := node)
    (opens ++ [.peerInput 1 (pays : List Wire.Message), .forceClose fundedId "",
      .peerInput 1 ([.channelReestablish ⟨fundedId, 2, 0, bytes 0, nodeKey 1⟩] : List Wire.Message)])
    (fun n => revokedAt (fun _ _ => true) n.history 16 = true) (by
      simp only [opens, pays, funds, aliceSays, start_tabled, alice_tabled]
      decide +kernel)
  obtain ⟨l, s, m, l', e, hl, he, hs, -⟩ := revokedAt_spec hj
  obtain ⟨hc, hhc, hk, -⟩ := secrets_withheld hr l s m l' hl e he hs
  exact ⟨tr, n, hr, l, s, m, l', e, hl, he, hs, hc, hhc, hk⟩

/-- The channel is closed, and a payment that comes later makes it release the secret of the
commitment that was broadcast. -/
theorem broadcast_then_revoked :
    ∃ tr n, Run step node tr n ∧
      ∃ l s m l' e, n.history = l ++ .spoke s (.revokeAndAck m) :: l' ∧ .forceClosed e ∈ l ∧
        e.serial = s ∧ ∃ hc, e.channel.currentHolderCommitment = some hc ∧
          m.perCommitmentSecret = e.channel.signer.releaseCommitmentSecret hc.number := by
  obtain ⟨tr, n, hr, hj⟩ := Run.exists_of_exec (f := step) (s := node)
    (opens ++ [.forceClose fundedId "", .peerInput 1 (pays : List Wire.Message)])
    (fun n => revokedAt (fun e m => e.channel.currentHolderCommitment.any fun hc =>
      m.perCommitmentSecret = e.channel.signer.releaseCommitmentSecret hc.number) n.history 11 = true) (by
      simp only [opens, pays, funds, aliceSays, start_tabled, alice_tabled]
      decide +kernel)
  obtain ⟨l, s, m, l', e, hl, he, hs, hsec⟩ := revokedAt_spec hj
  obtain ⟨hc, hhc, hm⟩ := (Option.any_eq_true _ _).1 hsec
  exact ⟨tr, n, hr, l, s, m, l', e, hl, he, hs, hc, hhc, of_decide_eq_true hm⟩

end

end Node
