import Keraunos.Node.Proof.History

/-!
# The integrity of the channel map

An entry of `channels` stands under its channel's id and stays there, except that a channel is
moved from its temporary id to its funding id when it is funded. The code checks neither that a
temporary id chosen by a peer nor that a funding id is free, and it binds the funding outpoint
before it verifies `funding_created`; `KeySafe` says of a call that none of this happens.

`Move.inPlace` and `Move.continues` are the two facts about a move; `channel_map_integrity` is the
result about runs.
-/

open Bitcoin

namespace Node

variable {E : Env}

/-! ## Entries stay -/

/-- The entry stands under its channel's id, the temporary one as long as it is not funded. -/
structure InPlace (id : ChannelId) (e : ChannelEntry) : Prop where
  key : e.channel.channelId = id
  unfunded : e.channel.state.rank = 0 → e.channel.temporaryChannelId = id

/-- What has to hold when an entry in the history is made. -/
def KeyRule (n : Node E) : Happening → Prop
  | .opened _ id => n.channels.lookup id = none
  | .rekeyed _ id newId => newId = id ∨ n.channels.lookup newId = none
  | .acted e (.fundingCreated msg) _ =>
    e.channel.state = .acceptSent → e.channel.FundingVerifies E.C msg
  | _ => True

/-- The entry `e` under `id` has become `e'` under `id'`: its channel went on, and it stayed where
it was or was moved from the temporary id to the funding id. -/
structure Continues (C : Crypto) (id : ChannelId) (e : ChannelEntry) (id' : ChannelId)
    (e' : ChannelEntry) : Prop where
  serial : e'.serial = e.serial
  nodeId : e'.nodeId = e.nodeId
  temporary : e'.channel.temporaryChannelId = e.channel.temporaryChannelId
  channel : ∃ tr, Run (Channel.step C) e.channel tr e'.channel
  key : id' = id ∧ e'.channel.fundingOutpoint = e.channel.fundingOutpoint ∨
    id = e.channel.temporaryChannelId ∧ ∃ funding, e'.channel.fundingOutpoint = some funding ∧
      id' = channelIdFromFunding funding.txid funding.vout

/-- Every entry of `n` is still there in `n'`. -/
def KeepsEntries (n n' : Node E) : Prop :=
  ∀ id e, n.channels.lookup id = some e →
    ∃ id' e', n'.channels.lookup id' = some e' ∧ Continues E.C id e id' e'

namespace Continues

variable {C : Crypto} {id id' id'' : ChannelId} {e e' e'' : ChannelEntry}

theorem edit (hch : e'.channel = e.channel) (hid : e'.nodeId = e.nodeId)
    (hs : e'.serial = e.serial) : Continues C id e id e' :=
  ⟨hs, hid, by rw [hch], ⟨[], hch ▸ .nil⟩, .inl ⟨rfl, by rw [hch]⟩⟩

theorem rfl : Continues C id e id e := edit (.refl _) (.refl _) (.refl _)

theorem trans (h : Continues C id e id' e') (h' : Continues C id' e' id'' e'') :
    Continues C id e id'' e'' := by
  obtain ⟨tr, hr⟩ := h.channel
  obtain ⟨tr', hr'⟩ := h'.channel
  refine ⟨h'.serial.trans h.serial, h'.nodeId.trans h.nodeId, h'.temporary.trans h.temporary,
    ⟨_, hr.append hr'⟩, ?_⟩
  rcases h'.key with ⟨hid', ho'⟩ | ⟨hid', hf'⟩
  · rcases h.key with ⟨hid, ho⟩ | ⟨hid, funding, ho, hf⟩
    · exact .inl ⟨hid'.trans hid, ho'.trans ho⟩
    · exact .inr ⟨hid, funding, ho'.trans ho, hid'.trans hf⟩
  · rcases h.key with ⟨hid, -⟩ | ⟨hid, -⟩
    · exact .inr ⟨hid.symm.trans (hid'.trans h.temporary), hf'⟩
    · exact .inr ⟨hid, hf'⟩

end Continues

/-- A call of a channel's method is a step of the channel. -/
theorem run_of_perform {C : Crypto} {i : Channel.Input} {a : i.Outcome} {ch ch' : Channel}
    (h : Channel.perform C i ch = .ok a ch') :
    Run (Channel.step C) ch [(i, .ok (i.toSend a))] ch' := by
  have hstep : Channel.step C i ch = .ok (i.toSend a) ch' := by
    show EStateM.map _ _ ch = _
    simp only [EStateM.map, h]
  exact Run.nil.ok hstep

theorem run_of_refused {C : Crypto} {i : Channel.Input} {err : ChannelError} {ch ch' : Channel}
    (h : Channel.perform C i ch = .error (.err err) ch') :
    Run (Channel.step C) ch [(i, .error err)] ch' := by
  have hstep : Channel.step C i ch = .error (.err err) ch' := by
    show EStateM.map _ _ ch = _
    simp only [EStateM.map, h]
  exact Run.nil.err hstep

section
variable {n n' : Node E} {id : ChannelId} {e : ChannelEntry} {ch : Channel}

/-- A call that keeps the ids keeps the entry in place. -/
theorem InPlace.same (h : InPlace id e) (hids : Channel.SameIds e.channel ch)
    (hr : e.channel.state.rank ≤ ch.state.rank) : InPlace id { e with channel := ch } :=
  ⟨hids.1.trans h.key, fun h0 => hids.2.1.trans (h.unfunded (Nat.le_zero.1 (h0 ▸ hr)))⟩

/-- A refused call under the rule keeps the ids. -/
theorem refused_ids {i : Channel.Input} {err : ChannelError}
    (hrun : Channel.perform E.C i e.channel = .error (.err err) ch)
    (hP : KeyRule n (.acted e i (.error err))) : Channel.SameIds e.channel ch := by
  by_cases hi : i.Funds
  · cases i with
    | createFunding txid index =>
      obtain rfl := Act.wp_error (Channel.fundingCreated_ids e.channel txid index) hrun err rfl
      exact .rfl
    | fundingCreated msg =>
      obtain rfl := Act.wp_error (Channel.onFundingCreated_ids e.channel msg hP) hrun err rfl
      exact .rfl
    | _ => exact hi.elim
  · exact Act.wp_error (Channel.perform_ids e.channel hi) hrun

/-- A call under the rule that binds the funding outpoint. -/
theorem funded_bound {i : Channel.Input} {a : i.Outcome} (hi : i.Funds)
    (hrun : Channel.perform E.C i e.channel = .ok a ch) (hP : KeyRule n (.acted e i (.ok a))) :
    ∃ funding, Channel.Bound e.channel ch funding := by
  cases i with
  | createFunding txid index =>
    have hb := Act.wp_ok (Channel.fundingCreated_ids e.channel txid index) hrun
    exact ⟨_, hb⟩
  | fundingCreated msg =>
    have hb := Act.wp_ok (Channel.onFundingCreated_ids e.channel msg hP) hrun
    exact ⟨_, hb⟩
  | _ => exact hi.elim

/-- A fresh channel has its temporary id. -/
theorem fresh_ids {C : Crypto} (h : Channel.Fresh C ch) :
    ch.temporaryChannelId = ch.channelId := by
  cases h with
  | outbound h =>
    unfold Channel.newOutbound at h
    split at h
    · cases h
    · obtain ⟨rfl, -⟩ := Prod.mk.inj (Except.ok.inj h)
      rfl
  | inbound h =>
    simp only [Channel.newInbound, Fault.bind_eq_ok, pure, Except.pure, Except.ok.injEq] at h
    obtain ⟨_, -, h⟩ := h
    obtain ⟨rfl, -⟩ := Prod.mk.inj h
    rfl

/-- Under the rule every entry stays in place. -/
theorem Move.inPlace (hm : Move KeyRule n n')
    (h : ∀ id e, n.channels.lookup id = some e → InPlace id e) :
    ∀ id e, n'.channels.lookup id = some e → InPlace id e := by
  intro k x hx
  cases hm with
  | idle hc | link hc | spoke _ _ _ hc | failedBack _ hc | ordered _ hc | polled hc => exact h k x (hc ▸ hx)
  | forceClosed _ _ _ _ _ _ hc | published _ _ _ _ _ _ _ hc => exact h k x (hc ▸ hx)
  | edit id e e' he hch _ _ hc =>
    rw [hc] at hx
    rcases lookup_insert_eq hx with ⟨rfl, rfl⟩ | ⟨-, hx⟩
    · have hin := h k e he
      exact ⟨by rw [hch]; exact hin.key, by rw [hch]; exact hin.unfunded⟩
    · exact h k x hx
  | act id e i a ch he hi hrun hc =>
    rw [hc] at hx
    rcases lookup_insert_eq hx with ⟨rfl, rfl⟩ | ⟨-, hx⟩
    · have hrank := Act.wp_ok (Channel.perform_rank e.channel i) hrun
      have hids := Act.wp_ok (Channel.perform_ids e.channel hi) hrun
      exact (h k e he).same hids hrank
    · exact h k x hx
  | refuse id e i err ch he hrun hc _ _ hP =>
    rw [hc] at hx
    rcases lookup_insert_eq hx with ⟨rfl, rfl⟩ | ⟨-, hx⟩
    · exact (h k e he).same (refused_ids hrun hP) (Act.wp_error (Channel.perform_rank _ i) hrun)
    · exact h k x hx
  | opened id e hfresh hid _ hc =>
    rw [hc] at hx
    rcases lookup_insert_eq hx with ⟨rfl, rfl⟩ | ⟨-, hx⟩
    · exact ⟨hid, fun _ => (fresh_ids hfresh).trans hid⟩
    · exact h k x hx
  | fund id e e' i a ch he hi hrun hch _ _ hlook _ _ hP =>
    obtain ⟨funding, hb⟩ := funded_bound hi hrun hP
    rw [hlook] at hx
    split at hx
    · next hk =>
      obtain rfl := Option.some.inj hx
      exact ⟨by rw [hch, hk], fun h0 => absurd h0 (by rw [hch]; exact hb.after.ne')⟩
    · split at hx
      · cases hx
      · exact h k x hx

/-- Under the rule every entry goes on. -/
theorem Move.continues (hm : Move KeyRule n n')
    (h : ∀ id e, n.channels.lookup id = some e → InPlace id e) : KeepsEntries n n' := by
  have hsame : n'.channels = n.channels → KeepsEntries n n' := fun hc id e he =>
    ⟨id, e, hc ▸ he, .rfl⟩
  -- The entry under `id` is replaced by one that continues it, the others stay.
  have hupdate : ∀ id e e', n.channels.lookup id = some e → Continues E.C id e id e' →
      n'.channels = n.channels.insert id e' → KeepsEntries n n' := by
    intro id e e' he hcont hc k x hx
    by_cases hk : k = id
    · subst hk
      obtain rfl := Option.some.inj (hx.symm.trans he)
      exact ⟨k, e', by rw [hc, AList.lookup_insert], hcont⟩
    · exact ⟨k, x, by rw [hc, AList.lookup_insert_ne hk]; exact hx, .rfl⟩
  cases hm with
  | idle hc | link hc | spoke _ _ _ hc | failedBack _ hc | ordered _ hc | polled hc => exact hsame hc
  | forceClosed _ _ _ _ _ _ hc | published _ _ _ _ _ _ _ hc => exact hsame hc
  | edit id e e' he hch hnode hs hc => exact hupdate id e e' he (.edit hch hnode hs) hc
  | act id e i a ch he hi hrun hc =>
    have hids := Act.wp_ok (Channel.perform_ids _ hi) hrun
    exact hupdate id e { e with channel := ch } he
      ⟨rfl, rfl, hids.2.1, ⟨_, run_of_perform hrun⟩, .inl ⟨rfl, hids.2.2⟩⟩ hc
  | refuse id e i err ch he hrun hc _ _ hP =>
    have hids := refused_ids hrun hP
    exact hupdate id e { e with channel := ch } he
      ⟨rfl, rfl, hids.2.1, ⟨_, run_of_refused hrun⟩, .inl ⟨rfl, hids.2.2⟩⟩ hc
  | opened id e _ _ _ hc _ _ hP =>
    intro k x hx
    have hk : k ≠ id := by
      rintro rfl
      cases hx.symm.trans hP
    exact ⟨k, x, by rw [hc, AList.lookup_insert_ne hk]; exact hx, .rfl⟩
  | fund id e e' i a ch he hi hrun hch hnode hs hlook _ _ hP hrekey =>
    obtain ⟨funding, hb⟩ := funded_bound hi hrun hP
    intro k x hx
    by_cases hk : k = id
    · subst hk
      obtain rfl := Option.some.inj (hx.symm.trans he)
      refine ⟨ch.channelId, e', by rw [hlook, if_pos rfl], hs, hnode, hch ▸ hb.temporary,
        ⟨_, hch ▸ run_of_perform hrun⟩, .inr ⟨((h k x hx).unfunded hb.before).symm, funding, ?_⟩⟩
      exact ⟨hch ▸ hb.outpoint, hb.id⟩
    · have hne : k ≠ ch.channelId := by
        rintro rfl
        rcases hrekey with heq | hnone
        · exact hk heq
        · cases hx.symm.trans hnone
      exact ⟨k, x, by rw [hlook, if_neg hne, if_neg hk]; exact hx, .rfl⟩

end

/-! ## Runs -/

/-- The channel map is well formed. -/
structure MapWf (n : Node E) : Prop where
  inPlace : ∀ id e, n.channels.lookup id = some e → InPlace id e
  numbered : Numbered n

theorem Moves.mapWf {n n' : Node E} (hm : Moves KeyRule n n') (h : MapWf n) :
    MapWf n' ∧ KeepsEntries n n' := by
  refine hm.invariant (I := fun m => MapWf m ∧ KeepsEntries n m) ?_ ⟨h, fun id e he => ⟨id, e, he, .rfl⟩⟩
  rintro m m' hm ⟨hwf, hkeeps⟩
  refine ⟨⟨hm.inPlace hwf.inPlace, hm.numbered hwf.numbered⟩, fun id e he => ?_⟩
  obtain ⟨id₁, e₁, he₁, hc₁⟩ := hkeeps id e he
  obtain ⟨id₂, e₂, he₂, hc₂⟩ := hm.continues hwf.inPlace id₁ e₁ he₁
  exact ⟨id₂, e₂, he₂, hc₁.trans hc₂⟩

/-- A message that overwrites no entry: a temporary id and a funding id are free, and the signature
of a `funding_created` that is awaited is good. -/
def KeySafeMessage (n : Node E) (peer : PeerId) : Wire.Message → Prop
  | .openChannel msg =>
    Channel.checkOpenChannel n.config.channel n.config.network msg = .ok () →
      n.channels.lookup msg.temporaryChannelId = none
  | .fundingCreated msg => ∀ e, n.channels.lookup msg.temporaryChannelId = some e →
      n.byNodeId.lookup e.nodeId = some peer → e.channel.state = .acceptSent →
      e.channel.FundingVerifies E.C msg ∧
        let newId := channelIdFromFunding msg.fundingTxid msg.fundingOutputIndex
        newId = msg.temporaryChannelId ∨ n.channels.lookup newId = none
  | _ => True

/-- A call that overwrites no entry. -/
def KeySafe (n : Node E) : Input E → Prop
  | .openChannel _ capacitySat pushMsat =>
    pushMsat ≤ capacitySat * 1000 → n.channels.lookup (E.randomBytes n.entropy).1 = none
  | .provideFundingTransaction id tx => ∀ newId ∈ n.fundingKey id tx,
      newId = id ∨ n.channels.lookup newId = none
  | i => i.Meets KeySafeMessage n

section
variable {n : Node E}

/-- Only a `funding_created` is subject to the rule. -/
theorem keyRule_acted (n : Node E) {e : ChannelEntry} {i : Channel.Input}
    {r : Except ChannelError i.Outcome} (h : ∀ msg, i = .fundingCreated msg →
      e.channel.state = .acceptSent → e.channel.FundingVerifies E.C msg) :
    KeyRule n (.acted e i r) := by
  cases i <;> first | trivial | exact h _ rfl

theorem keyRule_relays (n : Node E) (e : ChannelEntry) (i : Channel.Input)
    (r : Except ChannelError i.Outcome) (hi : Relays i) : KeyRule n (.acted e i r) := by
  cases i <;> first | exact hi.elim | trivial

theorem keyRule_own (n : Node E) (e : ChannelEntry) (i : Channel.Input)
    (r : Except ChannelError i.Outcome) (hi : OwnCall i) : KeyRule n (.acted e i r) := by
  cases i <;> first | exact hi.elim | trivial

theorem request_fundingCreated {config : NodeConfig} {msg : Wire.Message} {id : ChannelId}
    {m : Wire.FundingCreated} (h : request config msg = some (id, .fundingCreated m)) :
    msg = .fundingCreated m ∧ id = m.temporaryChannelId := by
  cases msg with
  | fundingCreated m' =>
    simp only [request, Option.some.injEq, Prod.mk.injEq, Channel.Input.fundingCreated.injEq] at h
    obtain ⟨rfl, rfl⟩ := h
    exact ⟨rfl, rfl⟩
  | _ => simp [request] at h

theorem KeySafeMessage.allows {peer : PeerId} {msg : Wire.Message}
    (h : KeySafeMessage n peer msg) : Allows KeyRule n peer msg where
  requests id i hi := by
    refine ⟨fun e r he hp _ => keyRule_acted n fun m hm hst => ?_, fun _ _ _ _ _ _ _ _ _ _ _ => trivial⟩
    subst hm
    obtain ⟨rfl, rfl⟩ := request_fundingCreated hi
    exact (h e he hp hst).1
  follows _ _ _ _ _ _ _ _ _ _ := ⟨fun _ _ => trivial, fun _ => trivial⟩
  errors _ _ _ _ _ _ _ := trivial
  opens m hm _ _ hcheck n' hn' := by
    subst hm
    show n'.channels.lookup _ = none
    rw [hn']
    exact h hcheck
  rekeys m hm e reply ch he hp hrun := by
    subst hm
    have hbound := Act.wp_ok (Channel.onFundingCreated_bound m e.channel) hrun
    exact (h e he hp hbound.1).2
  fails _ _ _ _ _ _ _ _ _ _ _ := trivial
  failsMalformed _ _ _ _ _ _ _ _ _ _ _ := trivial
  drops _ _ _ _ _ _ := trivial

theorem KeySafe.allows {i : Input E} (h : KeySafe n i) : AllowsCall KeyRule n i where
  messages := by
    cases i with
    | peerInput peer data => exact Input.Meets.imp (fun _ _ _ hm => hm.allows) h
    | _ => trivial
  opens nodeId capacitySat pushMsat hi hpush n' hn' := by
    subst hi
    show n'.channels.lookup _ = none
    rw [hn']
    exact h hpush
  own := keyRule_own
  funds id tx hi _ newId _ hkey := by
    subst hi
    exact h newId hkey
  forces _ _ _ _ _ _ _ _ _ _ := trivial
  orders _ _ _ := trivial
  polls _ := trivial

/-- A call that meets the condition keeps the map well formed and every entry in it. -/
theorem step_mapWf {i : Input E} (h : KeySafe n i) (hwf : MapWf n) :
    Act.Ends (step i) n fun n' => MapWf n' ∧ KeepsEntries n n' :=
  (step_moves keyRule_relays (fun _ _ _ => trivial) h.allows).mono fun _ hm => hm.mapWf hwf

end

/-- In a run whose calls overwrite no entry, every entry of the channel map stands under its
channel's id, no two are the same channel, and no further such call removes or replaces one. -/
theorem channel_map_integrity {entropy : E.Entropy} {config : NodeConfig}
    {tr : Trace (Input E) NodeError Unit} {n : Node E}
    (hr : Run.Within step KeySafe (Node.new E entropy config) tr n) :
    (∀ id e, n.channels.lookup id = some e → e.channel.channelId = id) ∧
      (∀ id₁ id₂ e₁ e₂, n.channels.lookup id₁ = some e₁ → n.channels.lookup id₂ = some e₂ →
        e₁.serial = e₂.serial → id₁ = id₂) ∧
      ∀ i, KeySafe n i → Act.Ends (step i) n (KeepsEntries n) := by
  have hwf : MapWf n := by
    refine hr.invariant ⟨fun id e he => ?_, ⟨fun id e he => ?_, fun id₁ id₂ e₁ e₂ he => ?_⟩⟩ ?_
    · cases he
    · cases he
    · cases he
    · exact fun m i hi hm => (step_mapWf hi hm).mono fun _ h => h.1
  exact ⟨fun id e he => (hwf.inPlace id e he).key, hwf.numbered.inj, fun i hi =>
    (step_mapWf hi hwf).mono fun _ h => h.2⟩

/-! ## Two channels under one id

The check of the condition on concrete runs, a run that meets it, and one in which a peer opens a
second channel under the temporary id of the first. -/

instance (n : Node E) (peer : PeerId) : ∀ msg, Decidable (KeySafeMessage n peer msg)
  | .openChannel _ => inferInstanceAs (Decidable (_ → _))
  | .fundingCreated msg => inferInstanceAs (Decidable (∀ e ∈ n.channels.lookup
      msg.temporaryChannelId, n.byNodeId.lookup e.nodeId = some peer → e.channel.state = .acceptSent →
      e.channel.FundingVerifies E.C msg ∧ (_ ∨ _)))
  | .init _ | .error _ | .warning _ | .ping _ | .pong _ | .acceptChannel _ | .fundingSigned _
  | .channelReady _ | .updateAddHtlc _ | .updateFulfillHtlc _ | .updateFailHtlc _
  | .updateFailMalformedHtlc _ | .updateFee _ | .commitmentSigned _ | .revokeAndAck _ | .shutdown _
  | .closingSigned _ | .channelReestablish _ | .announcementSignatures _ | .channelAnnouncement _
  | .channelUpdate _ | .nodeAnnouncement _ | .gossipTimestampFilter _ | .unknown .. =>
    .isTrue trivial

instance (n : Node E) : ∀ i, Decidable (KeySafe n i)
  | .openChannel .. => inferInstanceAs (Decidable (_ → _))
  | .provideFundingTransaction id tx => inferInstanceAs (Decidable (∀ newId ∈ n.fundingKey id tx, _ ∨ _))
  | .peerInput peer data => inferInstanceAs (Decidable (Input.Meets KeySafeMessage n (.peerInput peer data)))
  | .connectOutbound .. | .acceptInbound | .peerDisconnected .. | .tick .. | .bestBlockUpdated ..
  | .fundingConfirmed .. | .closeChannel .. | .forceClose .. | .createInvoice .. | .payInvoice ..
  | .claimPayment .. | .pollOutput => .isTrue trivial

/-- Another channel stands under the only key. -/
theorem not_keepsEntries {n n' : Node E} {id : ChannelId} {e e' : ChannelEntry}
    (he : n.channels.lookup id = some e) (hkeys : n'.channels.keys = [id])
    (he' : n'.channels.lookup id = some e') (hs : e'.serial ≠ e.serial) : ¬ KeepsEntries n n' := by
  intro h
  obtain ⟨k, x, hx, hc⟩ := h id e he
  have hk : k ∈ n'.channels.keys := AList.mem_keys.2 (AList.lookup_isSome.1 (by rw [hx]; rfl))
  rw [hkeys, List.mem_singleton] at hk
  subst hk
  obtain rfl := Option.some.inj (hx.symm.trans he')
  exact hs hc.serial

section
open Demo

/-- The node accepts a channel, and the peer funds it. -/
theorem channel_map_integrity_funded :
    ∃ tr n, Run.Within step KeySafe node tr n ∧ n.channels.keys.length = 1 ∧
      ∀ id e, n.channels.lookup id = some e → e.channel.channelId = id := by
  obtain ⟨tr, n, hr, hn⟩ := Run.Within.exists_of_exec (f := step) (A := KeySafe) (s := node)
    (meets funds)
    (fun n => n.channels.keys.length = 1) (by decide +kernel)
  exact ⟨tr, n, hr, hn, (channel_map_integrity hr).1⟩

/-- A peer opens a second channel under the temporary id of the first: the first is gone. -/
theorem channel_replaced :
    ∃ tr n, Run step node tr n ∧
      ¬ Act.Ends (step (.peerInput 1 [.openChannel alice.2])) n (KeepsEntries n) := by
  obtain ⟨tr, n, hr, hn⟩ := Run.exists_of_exec (f := step) (s := node) (meets [.openChannel alice.2])
    (fun n => Act.wp (step (.peerInput 1 [.openChannel alice.2])) n (fun _ n' =>
      ∃ e ∈ n.channels.lookup (bytes 7), ∃ e' ∈ n'.channels.lookup (bytes 7),
        n'.channels.keys = [bytes 7] ∧ e'.serial ≠ e.serial) (fun _ _ => False)) (by decide +kernel)
  refine ⟨tr, n, hr, Act.not_ends (Act.wp_mono hn ?_ fun _ _ h => h.elim)⟩
  rintro _ n' ⟨e, he, e', he', hkeys, hs⟩
  exact not_keepsEntries he hkeys he' hs

end

end Node
