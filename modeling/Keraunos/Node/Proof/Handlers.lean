import Keraunos.Node.Proof.Moves

/-!
# The functions on channels are moves

One lemma per function of `Node.Channels`. Where a function makes an entry in the history that is
not a matter of course, the lemma asks for what the rule `P` has to allow: `Permits` for an
operation run for a peer.
-/

open Bitcoin

namespace Node

variable {E : Env}

/-! ## Commitments -/

/-- Inputs that pass HTLCs on: news on one channel lead to them on another. -/
def Relays : Channel.Input → Prop
  | .sendAddHtlc .. | .sendFulfillHtlc .. | .sendFailHtlc .. | .sendFailMalformedHtlc ..
  | .sendCommitmentSigned => True
  | _ => False

theorem Relays.not_funds {i : Channel.Input} (h : Relays i) : ¬ i.Funds := by
  cases i <;> first | exact h.elim | exact not_false

section
variable {P : Node E → Happening → Prop} {n : Node E}

theorem forceClose_moves {id : ChannelId} (reason : String)
    (hclose : ∀ e tx, n.channels.lookup id = some e →
      e.channel.signedHolderCommitmentTx E.C = .ok tx → P n (.forceClosed e)) :
    MovesOnly P (forceClose id reason) n := by
  refine entryOf_moves fun e he => askChannel_moves fun tx e' he' htx => ?_
  obtain rfl := Option.some.inj (he.symm.trans he')
  refine .one (.forceClosed id e tx reason he htx rfl rfl ?_ (.of rfl rfl rfl) rfl
    (hclose e tx he htx))
  exact List.append_assoc _ _ _

/-- A protocol violation surfaces. -/
theorem failChannel_spec {α : Type} (peer : PeerId) (id : ChannelId) (text : String)
    (hclose : ∀ n' e tx, n'.history = n.history → n'.channels = n.channels →
      n.channels.lookup id = some e → e.channel.signedHolderCommitmentTx E.C = .ok tx →
      P n' (.forceClosed e)) :
    Act.wp (failChannel peer id text : NodeAct E α) n (fun _ _ => False)
      (fun e n' => ∀ e', e = .err e' → Moves P n n') := by
  have hsend : Act.Ends (ignoreErrors (sendToPeer peer (.error ⟨id, textBytes text⟩))) n
      (Unchanged n) :=
    Act.ends_bind (Act.wp_mono (Act.ends_attempt (sendToPeer_quiet _ _)) (fun _ _ h => h)
      fun _ _ h => h)
  refine (Act.wp_bind _ _).2 (Act.wp_mono hsend (fun _ n₁ h₁ => ?_) fun _ _ h e' he => (h e' he).moves)
  have hforce : MovesOnly P (ignoreErrors (forceClose id text)) n₁ :=
    ignoreErrors_moves (forceClose_moves _ fun e tx he htx =>
      hclose n₁ e tx h₁.history h₁.channels (h₁.channels ▸ he) htx)
  refine (Act.wp_bind _ _).2 (Act.wp_mono hforce (fun _ n₂ h₂ => ?_) ?_)
  · exact fun _ _ => h₁.moves.trans h₂
  · exact fun _ _ h e' he => h₁.moves.trans (h e' he)

/-- What has to be allowed for an operation to be run for a peer. -/
structure Permits (P : Node E → Happening → Prop) (n : Node E) (peer : PeerId) (id : ChannelId)
    (i : Channel.Input) : Prop where
  acts : ∀ e r, n.channels.lookup id = some e → n.byNodeId.lookup e.nodeId = some peer →
    Yields (Channel.perform E.C i) e.channel r → P n (.acted e i r)
  /-- A violation closes the channel. -/
  closes : ∀ n' e text ch tx, n.channels.lookup id = some e →
    n.byNodeId.lookup e.nodeId = some peer →
    Channel.perform E.C i e.channel = .error (.err (.close text)) ch →
    n'.history = n.history ++ [.acted e i (.error (.close text))] →
    n'.channels = n.channels.insert id { e with channel := ch } →
    ch.signedHolderCommitmentTx E.C = .ok tx → P n' (.forceClosed { e with channel := ch })

/-- What an operation run for a peer does. -/
theorem withChannel_spec {peer : PeerId} {id : ChannelId} {i : Channel.Input}
    (h : Permits P n peer id i) :
    Act.wp (withChannel peer id i) n
      (fun a n' => ∃ e ch, Called n n' id i a e ch ∧ n.byNodeId.lookup e.nodeId = some peer ∧
        P n (.acted e i (.ok a)))
      (fun e n' => ∀ e', e = .err e' → Moves P n n') := by
  refine (Act.wp_bind _ _).2 (Act.wp_mono (entryOf_spec id) ?_ ?_)
  · rintro entry _ ⟨rfl, hentry⟩
    simp only [Act.wp_bind, Act.wp_get, Act.wp_ite, Act.wp_fail, Act.wp_attempt]
    refine ⟨fun _ _ _ => .rfl, fun hpeer => ?_⟩
    rw [ne_eq, not_not] at hpeer
    refine Act.wp_mono (onChannel_spec id i) ?_ fun f n' hf => ⟨?_, fun _ _ he => by cases he⟩
    · rintro a n' ⟨e, ch, hc⟩
      obtain rfl := Option.some.inj (hentry.symm.trans hc.lookup)
      exact ⟨entry, ch, hc, hpeer, h.acts entry _ hentry hpeer ⟨ch, hc.run⟩⟩
    · rintro err rfl
      rcases hf with ⟨rfl, hne⟩ | ⟨e, err', ch, heq, hr⟩
      · split
        · next heq => cases heq
        · next text heq =>
          obtain rfl := Except.error.inj heq
          exact absurd rfl (hne _)
        · exact fun _ _ => .rfl
      · obtain rfl := Option.some.inj (hentry.symm.trans hr.lookup)
        have hm := hr.moves (h.acts entry _ hentry hpeer ⟨ch, hr.run⟩)
        split
        · next heq => cases heq
        · next text heq' =>
          obtain rfl := Except.error.inj heq'
          obtain rfl := NodeError.channel.inj (Fault.err.inj heq)
          refine Act.wp_mono (failChannel_spec _ _ _ fun n'' e tx hh hc he htx => ?_)
            (fun _ _ h => h.elim) fun _ _ h e' he => hm.trans (h e' he)
          rw [hr.state] at hh hc he
          rw [AList.lookup_insert] at he
          obtain rfl := Option.some.inj he
          exact h.closes n'' entry text ch tx hentry hpeer hr.run hh hc htx
        · exact fun _ _ => hm
  · rintro _ _ ⟨rfl, -⟩ _ _
    exact .rfl

/-- Run an operation for a peer and go on with what it returned. -/
theorem withChannel_moves {α : Type} {peer : PeerId} {id : ChannelId} {i : Channel.Input}
    {f : i.Outcome → NodeAct E α} (hi : ¬ i.Funds) (h : Permits P n peer id i)
    (hf : ∀ a e ch n', Called n n' id i a e ch → n.byNodeId.lookup e.nodeId = some peer →
      Moves P n n' → MovesOnly P (f a) n') :
    MovesOnly P (withChannel peer id i >>= f) n := by
  refine Act.ends_bind (Act.wp_mono (withChannel_spec h) ?_ fun _ _ h => h)
  rintro a n' ⟨e, ch, hc, hpeer, hPa⟩
  have hm := hc.moves hi hPa
  exact (hf a e ch n' hc hpeer hm).mono fun _ => hm.trans

/-! ## Gossip -/

/-- Change the node's own notes on a channel. -/
theorem setEntry_moves {id : ChannelId} {e e' : ChannelEntry} (he : n.channels.lookup id = some e)
    (hch : e'.channel = e.channel) (hid : e'.nodeId = e.nodeId) (hs : e'.serial = e.serial) :
    MovesOnly P (setEntry id e') n :=
  .one (.edit id e e' he hch hid hs rfl rfl (.of rfl rfl rfl rfl rfl))

theorem publishAnnouncement_moves (id : ChannelId) (full : Wire.ChannelAnnouncement)
    (capacity : Nat) (weAreFirst : Bool) :
    MovesOnly P (publishAnnouncement id full capacity weAreFirst) n := by
  refine Act.ends_get_bind ?_
  split
  · exact Act.ends_pure .rfl
  · refine movesOnly_bind (.idle rfl rfl rfl rfl rfl rfl rfl) fun _ _ _ => ?_
    refine movesOnly_bind (broadcastToReadyPeers_moves _) fun _ _ _ => ?_
    refine Act.ends_get_bind ?_
    split
    · exact Act.ends_fail .rfl
    · split
      · exact movesOnly_bind (.idle rfl rfl rfl rfl rfl rfl rfl) fun _ _ _ =>
          broadcastToReadyPeers_moves _
      · exact broadcastToReadyPeers_moves _

theorem sendAnnouncementSigs_moves {id : ChannelId} {entry : ChannelEntry}
    (hentry : n.channels.lookup id = some entry) (unsigned : Wire.ChannelAnnouncement) :
    MovesOnly P (sendAnnouncementSigs id entry unsigned) n := by
  refine Act.ends_ite (fun _ => Act.ends_pure .rfl) fun _ => ?_
  refine movesOnly_bind (setEntry_moves hentry rfl rfl rfl) fun _ _ _ => ?_
  exact (sendToNode_quiet _ _).moves

theorem finishAnnouncement_moves (id : ChannelId) (unsigned : Wire.ChannelAnnouncement)
    (weAreFirst : Bool) : MovesOnly P (finishAnnouncement id unsigned weAreFirst) n := by
  refine entryOf_moves fun entry hentry => ?_
  refine Act.ends_ite (fun _ => Act.ends_pure .rfl) fun _ => ?_
  split
  · exact Act.ends_pure .rfl
  · refine movesOnly_bind (setEntry_moves hentry rfl rfl rfl) fun _ _ _ => ?_
    exact publishAnnouncement_moves _ _ _ _

theorem maybeAnnounceChannel_moves (id : ChannelId) : MovesOnly P (maybeAnnounceChannel id) n := by
  refine Act.ends_get_bind ?_
  split
  · exact Act.ends_pure .rfl
  · next entry hentry =>
    refine Act.ends_ite (fun _ => Act.ends_pure .rfl) fun _ => ?_
    split
    · exact Act.ends_pure .rfl
    · exact movesOnly_bind (sendAnnouncementSigs_moves hentry _) fun _ _ _ =>
        finishAnnouncement_moves _ _ _

theorem afterChannelReadyChange_moves (id : ChannelId) :
    MovesOnly P (afterChannelReadyChange id) n := by
  refine Act.ends_get_bind ?_
  split
  · exact Act.ends_pure .rfl
  · refine Act.ends_ite (fun _ => ?_) fun _ => Act.ends_pure .rfl
    exact movesOnly_bind (Quiet.moves event_quiet) fun _ _ _ => maybeAnnounceChannel_moves _

theorem onAnnouncementSignatures_moves (peer : PeerId) (msg : Wire.AnnouncementSignatures) :
    MovesOnly P (onAnnouncementSignatures peer msg) n := by
  refine Act.ends_get_bind (entryOf_moves fun entry hentry => ?_)
  refine Act.ends_ite (fun _ => Act.ends_fail .rfl) fun _ => ?_
  exact movesOnly_bind (setEntry_moves hentry rfl rfl rfl) fun _ _ _ =>
    maybeAnnounceChannel_moves _

/-! ## Opening -/

theorem addChannel_moves {id : ChannelId} {channel : Channel} (nodeId : PublicKey)
    (hfresh : Channel.Fresh E.C channel) (hid : channel.channelId = id)
    (hopen : P n (.opened n.history.length id)) :
    MovesOnly P (addChannel id channel nodeId) n :=
  .one (.opened id _ hfresh hid rfl rfl rfl (.of rfl rfl rfl rfl rfl) hopen)

theorem newOutbound_ok {signer : ChannelSigner} {config : ChannelConfig}
    {network : Network} {id : ChannelId} {capacity : Nat} {push : Msat} {feerate : FeeRatePerKw}
    {r : Channel × Wire.OpenChannel}
    (h : Channel.newOutbound signer config network id capacity push feerate = .ok r) :
    r.1.channelId = id ∧ push ≤ capacity * 1000 := by
  unfold Channel.newOutbound at h
  split at h
  · cases h
  · next hpush =>
    obtain rfl := Except.ok.inj h
    exact ⟨rfl, Nat.le_of_not_lt hpush⟩

theorem newInbound_ok {signer : ChannelSigner} {config : ChannelConfig}
    {network : Network} {msg : Wire.OpenChannel} {r : Channel × Wire.AcceptChannel}
    (h : Channel.newInbound E.C signer config network msg = .ok r) :
    r.1.channelId = msg.temporaryChannelId ∧
      Channel.checkOpenChannel config network msg = .ok () := by
  simp only [Channel.newInbound, Fault.bind_eq_ok, pure, Except.pure, Except.ok.injEq] at h
  obtain ⟨_, hcheck, rfl⟩ := h
  exact ⟨rfl, hcheck⟩

theorem ends_nextSigner {α : Type} {f : ChannelSigner → NodeAct E α} {Q : Node E → Prop}
    (h : Act.Ends (f (E.deriveChannelSigner n.channelCounter))
      { n with channelCounter := n.channelCounter + 1 } Q) : Act.Ends (nextSigner >>= f) n Q :=
  Act.ends_bind h

theorem ends_randomBytes {α : Type} {f : Bytes32 → NodeAct E α} {Q : Node E → Prop}
    (h : Act.Ends (f (E.randomBytes n.entropy).1)
      { n with entropy := (E.randomBytes n.entropy).2 } Q) : Act.Ends (randomBytes >>= f) n Q :=
  Act.ends_bind h

theorem openChannel_moves (nodeId : PublicKey) (capacitySat : Nat) (pushMsat : Msat)
    (hopen : pushMsat ≤ capacitySat * 1000 → ∀ n', n'.channels = n.channels →
      P n' (.opened n'.history.length (E.randomBytes n.entropy).1)) :
    MovesOnly P (openChannel nodeId capacitySat pushMsat) n := by
  refine Act.ends_get_bind ?_
  refine Act.ends_okOr_bind (fun peer _ => ?_) fun _ => .rfl
  refine Act.ends_ite (fun _ => Act.ends_fail .rfl) fun _ => ?_
  -- The signer and the temporary id are drawn before the checks of `new_outbound`.
  have hidle : Moves P n { n with
    channelCounter := n.channelCounter + 1
    entropy := (E.randomBytes n.entropy).2 } := .idle rfl rfl rfl rfl rfl rfl rfl
  refine ends_nextSigner (ends_randomBytes ?_)
  split
  · exact Act.ends_fail hidle
  · exact Act.ends_panic
  · next channel openMsg hnew =>
    obtain ⟨hid, hpush⟩ := newOutbound_ok hnew
    have hadd := addChannel_moves nodeId (.outbound hnew) hid
      (hopen hpush { n with
        channelCounter := n.channelCounter + 1
        entropy := (E.randomBytes n.entropy).2 } rfl)
    refine Act.Ends.mono (movesOnly_bind hadd fun _ _ _ => ?_) fun _ => hidle.trans
    exact movesOnly_bind (sendToPeer_quiet _ _).moves fun _ _ _ => Act.ends_pure .rfl

theorem onOpenChannel_moves (peer : PeerId) (msg : Wire.OpenChannel)
    (hopen : n.config.acceptInbound = true → ((n.peers.lookup peer).bind (·.nodeId)).isSome →
      Channel.checkOpenChannel n.config.channel n.config.network msg = .ok () →
      ∀ n', n'.channels = n.channels → P n' (.opened n'.history.length msg.temporaryChannelId)) :
    MovesOnly P (onOpenChannel peer msg) n := by
  refine Act.ends_get_bind (Act.ends_ite (fun _ => sendWarning_moves _ _) fun haccept => ?_)
  refine Act.ends_okOr_bind (fun nodeId hnode => ?_) fun _ => .rfl
  have hidle : Moves P n { n with channelCounter := n.channelCounter + 1 } := .idle rfl rfl rfl rfl rfl rfl rfl
  refine ends_nextSigner ?_
  split
  · next channel accept hnew =>
    obtain ⟨hid, hcheck⟩ := newInbound_ok hnew
    have hadd := addChannel_moves nodeId (.inbound hnew) hid
      (hopen (by simpa using haccept) (by rw [hnode]; rfl) hcheck
        { n with channelCounter := n.channelCounter + 1 } rfl)
    refine Act.Ends.mono (movesOnly_bind hadd fun _ _ _ => ?_) fun _ => hidle.trans
    exact (sendToPeer_quiet _ _).moves
  · exact (sendToPeer_quiet _ _).moves.mono fun _ => hidle.trans
  · exact Act.ends_panic

/-- The key a funding transaction gives a channel that awaits one. -/
def fundingKey (n : Node E) (id : ChannelId) (tx : Transaction) : Option ChannelId := do
  let e ← n.channels.lookup id
  let script ← (e.channel.fundingScriptPubkey E.C).toOption
  let vout ← (fundingVout tx script e.channel.fundingAmountSat).toOption
  if e.channel.state = .openSent then channelIdFromFunding (tx.txid E.C) vout else none

section
variable {α : Type} {f : Unit → NodeAct E α} {Q : Node E → Prop}

theorem ends_removeEntry {id : ChannelId}
    (h : Act.Ends (f ()) { n with channels := n.channels.erase id } Q) :
    Act.Ends (removeEntry id >>= f) n Q := Act.ends_bind h

theorem ends_setEntry {id : ChannelId} {e : ChannelEntry}
    (h : Act.Ends (f ()) { n with channels := n.channels.insert id e } Q) :
    Act.Ends (setEntry id e >>= f) n Q := Act.ends_bind h

theorem ends_rekey {id newId : ChannelId} {e : ChannelEntry}
    (h : Act.Ends (f ()) { n with
      channels := (n.channels.erase id).insert newId e
      history := n.history ++ [.rekeyed e.serial id newId] } Q) :
    Act.Ends (rekey id newId e >>= f) n Q := Act.ends_bind h

theorem ends_record {h : Happening}
    (hq : Act.Ends (f ()) { n with history := n.history ++ [h] } Q) :
    Act.Ends (record h >>= f) n Q := Act.ends_bind hq

end

/-- After a call that binds the funding outpoint the entry is moved: one move. -/
theorem Called.fund {n₁ n₂ : Node E} {id : ChannelId} {i : Channel.Input} {a : i.Outcome}
    {e : ChannelEntry} {ch : Channel} (h : Called n n₁ id i a e ch) (e' : ChannelEntry)
    (hi : i.Funds) (hch : e'.channel = ch) (hnode : e'.nodeId = e.nodeId) (hs : e'.serial = e.serial)
    (hc : n₂.channels = (n₁.channels.erase id).insert ch.channelId e')
    (hh : n₂.history = n₁.history ++ [.rekeyed e.serial id ch.channelId]) (hcalm : Calm n₁ n₂)
    (hP : P n (.acted e i (.ok a))) (hrekey : P n (.rekeyed e.serial id ch.channelId)) :
    Moves P n n₂ := by
  refine .one (.fund id e e' i a ch h.lookup hi h.run hch hnode hs (fun k => ?_) ?_
    (h.calm.trans hcalm) hP hrekey)
  · rw [hc, h.state]
    by_cases hk : k = ch.channelId
    · rw [hk, AList.lookup_insert, if_pos rfl]
    · rw [AList.lookup_insert_ne hk, if_neg hk]
      by_cases hid : k = id
      · rw [hid, AList.lookup_erase, if_pos rfl]
      · rw [AList.lookup_erase_ne hid, AList.lookup_insert_ne hid, if_neg hid]
  · rw [hh, h.state, List.append_assoc]
    rfl

end

/-! ## Updates and closing -/

section
variable {P : Node E → Happening → Prop} {n : Node E}

theorem tryStartClosing_moves {id : ChannelId} (hclosing : ∀ e feerate r,
      n.channels.lookup id = some e → P n (.acted e (.maybeSendClosingSigned feerate) r)) :
    MovesOnly P (tryStartClosing id) n := by
  refine Act.ends_get_bind ?_
  split
  · exact Act.ends_pure .rfl
  · next entry hentry =>
    refine onChannel_moves not_false (fun e r he _ => hclosing e _ r he) fun a e ch n' hc _ => ?_
    split
    · exact sendFor_moves (hc.said hentry (by simp [Channel.Input.toSend]))
    · exact Act.ends_pure .rfl

theorem closeChannel_moves (id : ChannelId)
    (hshut : ∀ e script r, P n (.acted e (.sendShutdown script) r))
    (hclosing : ∀ n e feerate r, P n (.acted e (.maybeSendClosingSigned feerate) r)) :
    MovesOnly P (closeChannel id) n := by
  refine Act.ends_get_bind (entryOf_moves fun entry hentry => ?_)
  refine onChannel_moves not_false (fun e r _ _ => hshut e _ r) fun msg e ch n' hc _ => ?_
  refine movesOnly_bind (sendFor_moves (hc.said hentry (List.mem_singleton_self _))) fun _ _ _ => ?_
  exact tryStartClosing_moves fun e f r _ => hclosing _ e f r

/-- The closing transaction is broadcast. -/
theorem finishCooperativeClose_moves {id : ChannelId} {e e' : ChannelEntry} {tx : Transaction}
    (he : n.channels.lookup id = some e') (hid : e'.nodeId = e.nodeId) (hs : e'.serial = e.serial)
    (hP : P n (.published e tx)) : MovesOnly P (finishCooperativeClose id e tx) n := by
  refine .one (.published id e e' tx he hid hs rfl rfl ?_ (.of rfl rfl rfl) rfl hP)
  exact .two (List.append_assoc _ _ _) (.inr (.inl rfl)) (.inr (.inr ⟨_, _, rfl⟩))

theorem onClosingSigned_moves {peer : PeerId} {msg : Wire.ClosingSigned}
    (h : Permits P n peer msg.channelId (.closingSigned msg n.config.closeFeerate))
    (hpub : ∀ n' e tx, n.channels.lookup msg.channelId = some e →
      n.byNodeId.lookup e.nodeId = some peer → P n' (.published e tx)) :
    MovesOnly P (onClosingSigned peer msg) n := by
  refine Act.ends_get_bind (entryOf_moves fun entry hentry => ?_)
  refine withChannel_moves not_false h fun a e ch n' hc hpeer _ => ?_
  obtain rfl := Option.some.inj (hentry.symm.trans hc.lookup)
  have hfinish : ∀ tx n₁, n₁.channels = n'.channels →
      MovesOnly (E := E) P (finishCooperativeClose msg.channelId entry tx) n₁ := fun tx n₁ hn₁ => by
    have hlook : n₁.channels.lookup msg.channelId = _ := (hn₁ ▸ hc.lookup_after :)
    exact finishCooperativeClose_moves hlook rfl rfl (hpub n₁ entry tx hentry hpeer)
  split
  · next reply tx =>
    refine Act.ends_bind (Act.wp_mono (sendToPeer_quiet _ _) (fun _ n₁ h₁ => ?_)
      fun _ _ h e' he => (h e' he).moves)
    have hsaid : Said n₁.history entry.serial (.closingSigned reply) :=
      (hc.said hentry (List.mem_singleton_self _)).mono (h₁.history ▸ List.prefix_refl _)
    have hspoke : Moves P n₁ { n₁ with
        history := n₁.history ++ [.spoke entry.serial (.closingSigned reply)] } :=
      .one (.spoke _ _ hsaid rfl rfl (.of rfl rfl rfl rfl rfl))
    refine Act.Ends.mono (Q := Moves P { n₁ with
      history := n₁.history ++ [.spoke entry.serial (.closingSigned reply)] }) (ends_record ?_)
      fun _ => (h₁.moves.trans hspoke).trans
    split
    · exact hfinish _ _ h₁.channels
    · exact Act.ends_pure .rfl
  · exact hfinish _ _ rfl

theorem onAcceptChannel_moves {peer : PeerId} {msg : Wire.AcceptChannel}
    (h : Permits P n peer msg.temporaryChannelId (.acceptChannel msg)) :
    MovesOnly P (onAcceptChannel peer msg) n := by
  refine withChannel_moves not_false h fun a e ch n' hc _ _ => ?_
  refine askChannel_moves fun _ _ _ _ => ?_
  exact entryOf_moves fun _ _ => Quiet.moves event_quiet

theorem onFundingSigned_moves {peer : PeerId} {msg : Wire.FundingSigned}
    (h : Permits P n peer msg.channelId (.fundingSigned msg))
    (hpub : ∀ n' e e' tx, n.channels.lookup msg.channelId = some e →
      n.byNodeId.lookup e.nodeId = some peer → e'.nodeId = e.nodeId → e'.serial = e.serial →
      P n' (.published e' tx)) : MovesOnly P (onFundingSigned peer msg) n := by
  refine withChannel_moves not_false h fun a e ch n' hc hpeer _ => ?_
  refine ends_entryOf hc.lookup_after ?_
  refine Act.ends_okOr_bind (fun tx _ => ?_) fun _ => .rfl
  have hset : MovesOnly P (setEntry msg.channelId { e with channel := ch, fundingTx := none }) n' :=
    setEntry_moves hc.lookup_after rfl rfl rfl
  refine ends_setEntry (Act.Ends.mono (Q := Moves P { n' with
    channels := n'.channels.insert msg.channelId { e with channel := ch, fundingTx := none } }) ?_
    fun _ => Moves.trans hset)
  refine Act.ends_expect_bind fun outpoint _ => ?_
  refine askChannel_moves fun script _ _ _ => ?_
  refine .one (.published msg.channelId { e with channel := ch }
    { e with channel := ch, fundingTx := none } tx (AList.lookup_insert _) rfl rfl rfl rfl ?_
    (.of rfl rfl rfl) rfl (hpub _ e _ tx hc.lookup hpeer rfl rfl))
  exact .two (List.append_assoc _ _ _) (.inl trivial) (.inr (.inl rfl))

theorem fundingConfirmed_moves (id : ChannelId) (scid : ShortChannelId)
    (hconfirm : ∀ e r, P n (.acted e (.confirmFunding scid) r)) :
    MovesOnly P (fundingConfirmed id scid) n := by
  refine entryOf_moves fun entry hentry => ?_
  refine onChannel_moves not_false (fun e r _ _ => hconfirm e r) fun msg e ch n' hc _ => ?_
  refine movesOnly_bind (.idle rfl rfl rfl rfl rfl rfl rfl) fun _ n₁ h₁ => ?_
  split
  · next m =>
    have hsaid : Said n₁.history entry.serial (.channelReady m) :=
      (hc.said hentry (by simp [Channel.Input.toSend])).mono h₁.history
    exact movesOnly_bind (sendFor_moves hsaid) fun _ _ _ => afterChannelReadyChange_moves _
  · exact afterChannelReadyChange_moves _

theorem provideFundingTransaction_moves (id : ChannelId) (tx : Transaction)
    (hact : ∀ e txid vout r, P n (.acted e (.createFunding txid vout) r))
    (hrekey : ∀ e newId, n.channels.lookup id = some e → n.fundingKey id tx = some newId →
      P n (.rekeyed e.serial id newId)) :
    MovesOnly P (provideFundingTransaction id tx) n := by
  refine askChannel_moves fun script e he hscript => entryOf_moves fun entry hentry => ?_
  obtain rfl := Option.some.inj (he.symm.trans hentry)
  split
  · exact Act.ends_fail .rfl
  · next vout hvout =>
    refine Act.ends_bind (Act.wp_mono (onChannel_called fun e r _ _ => hact e _ _ r) ?_
      fun _ _ h _ _ => h)
    rintro msg n₁ ⟨e', ch, hc, hPa⟩
    obtain rfl := Option.some.inj (he.symm.trans hc.lookup)
    obtain ⟨hst, hid⟩ := Act.wp_ok (Channel.fundingCreated_bound _ _ _) hc.run
    have hkey : n.fundingKey id tx = some ch.channelId := by
      simp [fundingKey, he, hscript, hvout, hst, hid, Except.toOption]
    refine ends_entryOf hc.lookup_after (ends_rekey ?_)
    have hmove : Moves P n { n₁ with
        channels := (n₁.channels.erase id).insert ch.channelId
          { e with channel := ch, fundingTx := some tx }
        history := n₁.history ++ [.rekeyed e.serial id ch.channelId] } :=
      hc.fund { e with channel := ch, fundingTx := some tx } trivial rfl rfl rfl rfl rfl
        (.of rfl rfl rfl rfl rfl) hPa (hrekey e _ he hkey)
    refine Act.Ends.mono (movesOnly_bind (sendFor_moves ?_) fun _ _ _ => ?_) fun _ => hmove.trans
    · exact (hc.said he (List.mem_singleton_self _)).mono (List.prefix_append _ _)
    · exact movesOnly_bind (Quiet.moves event_quiet) fun _ _ _ => Act.ends_pure .rfl

theorem onFundingCreated_moves {peer : PeerId} {msg : Wire.FundingCreated}
    (h : Permits P n peer msg.temporaryChannelId (.fundingCreated msg))
    (hrekey : ∀ e reply ch, n.channels.lookup msg.temporaryChannelId = some e →
      n.byNodeId.lookup e.nodeId = some peer →
      Channel.onFundingCreated E.C msg e.channel = .ok reply ch →
      P n (.rekeyed e.serial msg.temporaryChannelId
        (channelIdFromFunding msg.fundingTxid msg.fundingOutputIndex))) :
    MovesOnly P (onFundingCreated peer msg) n := by
  refine Act.ends_bind (Act.wp_mono (withChannel_spec h) ?_ fun _ _ h => h)
  rintro reply n₁ ⟨e, ch, hc, hpeer, hPa⟩
  obtain ⟨hst, hid, hfunding, cp, hcp⟩ := Act.wp_ok (Channel.onFundingCreated_bound _ _) hc.run
  have hscript : ch.fundingScriptPubkey E.C = .ok (newP2wsh E.C
      (Commitment.fundingRedeemscript ch.holderPubkeys.fundingPubkey cp.fundingPubkey)) := by
    simp [Channel.fundingScriptPubkey, Channel.counterparty, hcp, Fault.okOr]
  refine Act.ends_get_bind (Act.ends_expect_bind fun entry hentry => ?_)
  obtain rfl := Option.some.inj (hc.lookup_after.symm.trans hentry)
  refine ends_removeEntry (Act.ends_expect_bind fun outpoint _ => ?_)
  -- Nothing fails between the removal and the insertion, so the two are one move with the call.
  simp only [hscript]
  rw [← hid]
  refine ends_setEntry (ends_record ?_)
  have hmove : Moves P n { n₁ with
      channels := (n₁.channels.erase msg.temporaryChannelId).insert ch.channelId
        { e with channel := ch }
      history := n₁.history ++ [.rekeyed e.serial msg.temporaryChannelId ch.channelId] } :=
    hc.fund { e with channel := ch } trivial rfl rfl rfl rfl rfl (.of rfl rfl rfl rfl rfl) hPa
      (hid ▸ hrekey e reply ch hc.lookup hpeer hc.run)
  refine Act.Ends.mono (movesOnly_bind (sendFor_moves ?_) fun _ _ _ => ?_) fun _ => hmove.trans
  · exact (hc.said hc.lookup (List.mem_singleton_self _)).mono (List.prefix_append _ _)
  · exact movesOnly_bind (Quiet.moves emit_quiet) fun _ _ _ => Quiet.moves event_quiet

variable (hP : ∀ n e i r, Relays i → P n (.acted e i r))
include hP

theorem flushCommitment_moves (id : ChannelId) : MovesOnly P (flushCommitment id) n := by
  refine entryOf_moves fun entry hentry => Act.ends_ite (fun _ => ?_) fun _ => Act.ends_pure .rfl
  refine onChannel_moves not_false (fun _ _ _ _ => hP _ _ _ _ trivial) fun cs e ch n' hc _ => ?_
  exact sendFor_moves (hc.said hentry (List.mem_singleton_self _))

theorem sendUpdate_moves {id : ChannelId} {entry : ChannelEntry} {msg : Option Wire.Message}
    (h : ∀ m, msg = some m → Said n.history entry.serial m) :
    MovesOnly P (sendUpdate id entry msg) n := by
  rcases msg with _ | m
  · exact Act.ends_pure .rfl
  · exact movesOnly_bind (sendFor_moves (h m rfl)) fun _ _ _ => flushCommitment_moves hP id

end

end Node
