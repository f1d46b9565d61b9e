import Keraunos.Node.Proof.Handlers

/-!
# The node's steps are moves

The handlers of the node, message by message, and its calls (`step_moves`). Where a handler makes
an entry in the history that is not routine, `Allows` says what has to hold before.
-/

open Bitcoin

namespace Node

variable {E : Env}

/-- Somebody waits for news of an HTLC of this source. -/
def Reports (n : Node E) : HtlcSource → Prop
  | .outbound paymentId _ => (n.payments.lookup paymentId).isSome
  | .forwarded inboundChannel inboundHtlc _ =>
    (n.inboundOnionSecrets.lookup (inboundChannel, inboundHtlc)).isSome

theorem Called.reports {n n' : Node E} {id : ChannelId} {i : Channel.Input} {a : i.Outcome}
    {e : ChannelEntry} {ch : Channel} {source : HtlcSource} (h : Called n n' id i a e ch)
    (hr : Reports n' source) : Reports n source := by
  rw [h.state] at hr
  exact hr

/-! ## Payments -/

section
variable {P : Node E → Happening → Prop} {n : Node E} (hP : ∀ n e i r, Relays i → P n (.acted e i r))
include hP

theorem claimPayment_moves (hash : PaymentHash) : MovesOnly P (claimPayment hash) n := by
  refine Act.ends_get_bind (Act.ends_okOr_bind (fun claim _ => ?_) fun _ => .rfl)
  refine movesOnly_bind (.idle rfl rfl rfl rfl rfl rfl rfl) fun _ n₁ _ => ?_
  refine Act.ends_okOr_bind (fun invoice _ => ?_) fun _ => .rfl
  refine entryOf_moves fun entry hentry => ?_
  refine onChannel_moves not_false (fun _ _ _ _ => hP _ _ _ _ trivial) fun a e ch n' hc hm => ?_
  refine movesOnly_bind (sendUpdate_moves hP fun m hm => hc.said hentry ?_)
    fun _ _ _ => Quiet.moves event_quiet
  simpa [Channel.Input.toSend] using hm

theorem onHtlcFulfilled_moves (source : HtlcSource) (preimage : PaymentPreimage) :
    MovesOnly P (onHtlcFulfilled source preimage) n := by
  cases source with
  | outbound paymentId tag =>
    refine Act.ends_get_bind ?_
    split
    · exact Act.ends_pure .rfl
    · exact movesOnly_bind (.idle rfl rfl rfl rfl rfl rfl rfl) fun _ _ _ => Quiet.moves event_quiet
  | forwarded inboundChannel inboundHtlc tag =>
    refine entryOf_moves fun entry hentry => ?_
    refine onChannel_moves not_false (fun _ _ _ _ => hP _ _ _ _ trivial) fun a e ch n' hc hm => ?_
    refine sendUpdate_moves hP fun m hm => hc.said hentry ?_
    simpa [Channel.Input.toSend] using hm

/-- A failure is reported only where somebody waits for it. -/
theorem onHtlcFailed_moves {source : HtlcSource} (reason : Option (List UInt8))
    (malformedCode : Option Nat)
    (hfail : Reports n source → ∀ n', n.history <+: n'.history → P n' (.failedBack source)) :
    MovesOnly P (onHtlcFailed source reason malformedCode) n := by
  have hrecord : Reports n source → ∀ n', n.history <+: n'.history →
      MovesOnly P (record (.failedBack source)) n' := fun hr n' hn =>
    .one (.failedBack source rfl rfl (.of rfl rfl rfl rfl rfl) (hfail hr n' hn))
  cases source with
  | outbound paymentId tag =>
    refine Act.ends_get_bind ?_
    split
    · exact Act.ends_pure .rfl
    · next p hp =>
      have hr : Reports n (.outbound paymentId tag) := by simp [Reports, hp]
      refine movesOnly_bind (.idle rfl rfl rfl rfl rfl rfl rfl) fun _ n₁ h₁ => ?_
      exact movesOnly_bind (hrecord hr n₁ h₁.history) fun _ _ _ => Quiet.moves event_quiet
  | forwarded inboundChannel inboundHtlc tag =>
    refine Act.ends_get_bind ?_
    split
    · exact Act.ends_pure .rfl
    · next ss hss =>
      have hr : Reports n (.forwarded inboundChannel inboundHtlc tag) := by simp [Reports, hss]
      refine entryOf_moves fun entry hentry => ?_
      refine onChannel_moves not_false (fun _ _ _ _ => hP _ _ _ _ trivial) fun a e ch n₁ hc hm => ?_
      refine movesOnly_bind (hrecord hr n₁ hm.history) fun _ n₂ h₂ => ?_
      refine sendUpdate_moves hP fun m hm => (hc.said hentry ?_).mono h₂.history
      simpa [Channel.Input.toSend] using hm

theorem failInbound_moves (id : ChannelId) (htlcId : HtlcId) (code : Nat) (data : List UInt8) :
    MovesOnly P (failInbound id htlcId code data) n := by
  refine Act.ends_get_bind ?_
  split
  · exact Act.ends_pure .rfl
  · refine entryOf_moves fun entry hentry => ?_
    refine onChannel_moves not_false (fun _ _ _ _ => hP _ _ _ _ trivial) fun a e ch n₁ hc hm => ?_
    refine sendUpdate_moves hP fun m hm => hc.said hentry ?_
    simpa [Channel.Input.toSend] using hm

theorem failInboundMalformed_moves (id : ChannelId) (htlcId : HtlcId) (onion : List UInt8) :
    MovesOnly P (failInboundMalformed id htlcId onion) n := by
  refine entryOf_moves fun entry hentry => ?_
  refine onChannel_moves not_false (fun _ _ _ _ => hP _ _ _ _ trivial) fun a e ch n₁ hc hm => ?_
  refine sendUpdate_moves hP fun m hm => hc.said hentry ?_
  simpa [Channel.Input.toSend] using hm

theorem receiveFinalHtlc_moves (id : ChannelId) (htlc : CommittedInboundHtlc)
    (payload : Onion.HopPayload) : MovesOnly P (receiveFinalHtlc id htlc payload) n := by
  refine Act.ends_get_bind ?_
  split
  · exact failInbound_moves hP _ _ _ _
  · refine movesOnly_bind (.idle rfl rfl rfl rfl rfl rfl rfl) fun _ _ _ => ?_
    refine movesOnly_bind (Quiet.moves event_quiet) fun _ _ _ => ?_
    exact Act.ends_ite (fun _ => claimPayment_moves hP _) fun _ => Act.ends_pure .rfl

theorem offerForward_moves (inId outId : ChannelId) (htlc : CommittedInboundHtlc)
    (payload : Onion.HopPayload) (next : Onion.OnionPacket) :
    MovesOnly P (offerForward inId outId htlc payload next) n := by
  refine Act.ends_get_bind (entryOf_moves fun entry hentry => ?_)
  refine Act.ends_bind ((Act.wp_attempt _).2 (Act.wp_mono
    (onChannel_called fun _ _ _ _ => hP _ _ _ _ trivial) ?_ fun f n₁ h₁ => ⟨?_, fun _ _ he => nomatch he⟩))
  · rintro a n₁ ⟨e, ch, hc, hPa⟩
    refine Act.Ends.mono ?_ fun _ => (hc.moves not_false hPa).trans
    split
    · next add heq =>
      obtain rfl := Except.ok.inj heq
      refine movesOnly_bind (.idle rfl rfl rfl rfl rfl rfl rfl) fun _ n₂ h₂ => ?_
      have hsaid : Said n₂.history entry.serial (.updateAddHtlc add) :=
        (hc.said hentry (by simp [Channel.Input.toSend])).mono h₂.history
      refine movesOnly_bind (sendFor_moves hsaid) fun _ _ _ => ?_
      exact movesOnly_bind (flushCommitment_moves hP _) fun _ _ _ => Quiet.moves event_quiet
    · exact Act.ends_pure .rfl
    · next heq => cases heq
    · next heq => cases heq
  · rintro err -
    refine Act.Ends.mono ?_ fun _ => h₁.trans
    split
    · next heq => cases heq
    · next heq => cases heq
    · exact failInbound_moves hP _ _ _ _
    · exact Act.ends_fail .rfl

theorem forwardHtlc_moves (inId : ChannelId) (htlc : CommittedInboundHtlc)
    (payload : Onion.HopPayload) (next : Onion.OnionPacket) :
    MovesOnly P (forwardHtlc inId htlc payload next) n := by
  refine Act.ends_get_bind ?_
  split
  · exact failInbound_moves hP _ _ _ _
  · split
    · exact failInbound_moves hP _ _ _ _
    · refine entryOf_moves fun entry hentry => ?_
      exact Act.ends_ite (fun _ => failInbound_moves hP _ _ _ _) fun _ =>
        offerForward_moves hP _ _ _ _ _

theorem processCommittedHtlc_moves (id : ChannelId) (htlc : CommittedInboundHtlc) :
    MovesOnly P (processCommittedHtlc id htlc) n := by
  unfold processCommittedHtlc
  split
  · exact failInboundMalformed_moves hP _ _ _
  · extract_lets ss
    split
    · exact failInboundMalformed_moves hP _ _ _
    · exact Act.ends_panic
    · refine movesOnly_bind (.idle rfl rfl rfl rfl rfl rfl rfl) fun _ _ _ => ?_
      split
      · split
        · exact Act.ends_get_bind (failInbound_moves hP _ _ _ _)
        · exact receiveFinalHtlc_moves hP _ _ _
      · split
        · exact failInbound_moves hP _ _ _ _
        · exact forwardHtlc_moves hP _ _ _ _

theorem offerPayment_moves (invoice : Bolt11Invoice) (route : Route) (secrets : List Bytes32)
    (packet : Onion.OnionPacket) : MovesOnly P (offerPayment invoice route secrets packet) n := by
  refine movesOnly_bind randomBytes_quiet.moves fun paymentId n₁ _ => ?_
  refine Act.ends_expect_bind fun first _ => Act.ends_get_bind ?_
  refine Act.ends_okOr_bind (fun id _ => ?_) fun _ => .rfl
  refine entryOf_moves fun entry hentry => ?_
  refine onChannel_moves not_false (fun _ _ _ _ => hP _ _ _ _ trivial) fun a e ch n₂ hc hm => ?_
  refine movesOnly_bind (.idle rfl rfl rfl rfl rfl rfl rfl) fun _ n₃ h₃ => ?_
  refine movesOnly_bind (sendUpdate_moves hP fun m hm => (hc.said hentry ?_).mono h₃.history)
    fun _ _ _ => Act.ends_pure .rfl
  simpa [Channel.Input.toSend] using hm

theorem payInvoice_moves (invoice : Bolt11Invoice) (amountMsat : Option Msat) :
    MovesOnly P (payInvoice invoice amountMsat) n := by
  refine Act.ends_okOr_bind (fun amount _ => Act.ends_get_bind ?_) fun _ => .rfl
  refine Act.ends_ite (fun _ => Act.ends_fail .rfl) fun _ => ?_
  split
  · exact Act.ends_fail .rfl
  · extract_lets payloads
    refine movesOnly_bind randomSecretKey_quiet.moves fun sessionKey _ _ => ?_
    extract_lets secrets
    split
    · exact Act.ends_panic
    · exact offerPayment_moves hP _ _ _ _

end

/-! ## Messages -/

/-- The operation a message asks for: the channel and the input. -/
def request (config : NodeConfig) : Wire.Message → Option (ChannelId × Channel.Input)
  | .acceptChannel msg => some (msg.temporaryChannelId, .acceptChannel msg)
  | .fundingCreated msg => some (msg.temporaryChannelId, .fundingCreated msg)
  | .fundingSigned msg => some (msg.channelId, .fundingSigned msg)
  | .channelReady msg => some (msg.channelId, .channelReady msg)
  | .updateAddHtlc msg => some (msg.channelId, .updateAddHtlc msg)
  | .updateFulfillHtlc msg => some (msg.channelId, .updateFulfillHtlc msg)
  | .updateFailHtlc msg => some (msg.channelId, .updateFailHtlc msg)
  | .updateFailMalformedHtlc msg => some (msg.channelId, .updateFailMalformedHtlc msg)
  | .updateFee msg => some (msg.channelId, .updateFee msg)
  | .commitmentSigned msg => some (msg.channelId, .commitmentSigned msg)
  | .revokeAndAck msg => some (msg.channelId, .revokeAndAck msg)
  | .shutdown msg => some (msg.channelId, .shutdown msg config.closeScript)
  | .closingSigned msg => some (msg.channelId, .closingSigned msg config.closeFeerate)
  | .channelReestablish msg => some (msg.channelId, .channelReestablish msg)
  | _ => none

/-- What may follow on the channel `id`: a closing negotiation, a transaction broadcast. -/
def Follows (P : Node E → Happening → Prop) (n : Node E) (peer : PeerId) (id : ChannelId) : Prop :=
  ∀ n' e e', n.channels.lookup id = some e → n.byNodeId.lookup e.nodeId = some peer →
    e'.nodeId = e.nodeId → e'.serial = e.serial →
    (∀ feerate r, P n' (.acted e' (.maybeSendClosingSigned feerate) r)) ∧ ∀ tx, P n' (.published e' tx)

/-- What the rule has to allow when the message is handled. -/
structure Allows (P : Node E → Happening → Prop) (n : Node E) (peer : PeerId) (msg : Wire.Message) :
    Prop where
  requests : ∀ id i, request n.config msg = some (id, i) → Permits P n peer id i
  follows : ∀ id i, request n.config msg = some (id, i) → Follows P n peer id
  errors : ∀ m, msg = .error m → m.channelId ≠ zeroChannelId → ∀ e tx,
    n.channels.lookup m.channelId = some e → e.channel.signedHolderCommitmentTx E.C = .ok tx →
    P n (.forceClosed e)
  opens : ∀ m, msg = .openChannel m → n.config.acceptInbound = true →
    ((n.peers.lookup peer).bind (·.nodeId)).isSome →
    Channel.checkOpenChannel n.config.channel n.config.network m = .ok () →
    ∀ n', n'.channels = n.channels → P n' (.opened n'.history.length m.temporaryChannelId)
  rekeys : ∀ m, msg = .fundingCreated m → ∀ e reply ch,
    n.channels.lookup m.temporaryChannelId = some e → n.byNodeId.lookup e.nodeId = some peer →
    Channel.onFundingCreated E.C m e.channel = .ok reply ch →
    P n (.rekeyed e.serial m.temporaryChannelId
      (channelIdFromFunding m.fundingTxid m.fundingOutputIndex))
  fails : ∀ m, msg = .updateFailHtlc m → ∀ e source amount ch n',
    n.channels.lookup m.channelId = some e → n.byNodeId.lookup e.nodeId = some peer →
    Channel.onUpdateFailHtlc m e.channel = .ok (source, amount) ch → Reports n source →
    P n' (.failedBack source)
  failsMalformed : ∀ m, msg = .updateFailMalformedHtlc m → ∀ e source amount ch n',
    n.channels.lookup m.channelId = some e → n.byNodeId.lookup e.nodeId = some peer →
    Channel.onUpdateFailMalformedHtlc m e.channel = .ok (source, amount) ch → Reports n source →
    P n' (.failedBack source)
  /-- An `init` that is no good drops the connection. -/
  drops : ∀ m, msg = .init m → ∀ n' e r, (n.peers.lookup peer).bind (·.nodeId) = some e.nodeId →
    P n' (.acted e .disconnect r)

/-- The rule that allows everything. -/
theorem Allows.top (n : Node E) (peer : PeerId) (msg : Wire.Message) :
    Allows (fun _ _ => True) n peer msg where
  requests _ _ _ := ⟨fun _ _ _ _ _ => trivial, fun _ _ _ _ _ _ _ _ _ _ _ => trivial⟩
  follows _ _ _ _ _ _ _ _ _ _ := ⟨fun _ _ => trivial, fun _ => trivial⟩
  errors _ _ _ _ _ _ _ := trivial
  opens _ _ _ _ _ _ _ := trivial
  rekeys _ _ _ _ _ _ _ _ := trivial
  fails _ _ _ _ _ _ _ _ _ _ _ := trivial
  failsMalformed _ _ _ _ _ _ _ _ _ _ _ := trivial
  drops _ _ _ _ _ _ := trivial

section
variable {P : Node E → Happening → Prop} {n : Node E}

theorem sendInit_moves (peer : PeerId) : MovesOnly P (sendInit peer) n := by
  refine Act.ends_get_bind (movesOnly_bind (sendToPeer_quiet _ _).moves fun _ _ _ => ?_)
  refine Act.ends_get_bind ?_
  split
  · next p hp => exact (setPeer_quiet { p with initSent := true } hp rfl fun h => h).moves
  · exact Act.ends_pure .rfl

theorem sendAllFor_moves {id : ChannelId} {msgs : List Wire.Message}
    (h : ∀ e m, n.channels.lookup id = some e → m ∈ msgs → Said n.history e.serial m) :
    MovesOnly P (sendAllFor id msgs) n := by
  refine Act.ends_get_bind (Act.ends_expect_bind fun entry hentry => ?_)
  exact forM_moves fun m hm n' hn => sendFor_moves ((h entry m hentry hm).mono hn.history)

theorem onGossip_moves (graph : Except GossipError E.Graph) (msg : Wire.Message) :
    MovesOnly P (onGossip graph msg) n := by
  unfold onGossip
  split
  · exact movesOnly_bind (.idle rfl rfl rfl rfl rfl rfl rfl) fun _ _ _ =>
      broadcastToReadyPeers_moves _
  · exact Act.ends_pure .rfl

/-- Entries allowed by `P` that leave every channel under its key. -/
abbrev Staying (P : Node E → Happening → Prop) (n : Node E) (h : Happening) : Prop := P n h ∧ Stays h

theorem Relays.staying (hP : ∀ n e i r, Relays i → P n (.acted e i r)) :
    ∀ n e i r, Relays i → Staying P n (.acted e i r) :=
  fun n e i r hi => ⟨hP n e i r hi, trivial⟩

/-- What follows finds a channel of the same node and serial number. -/
theorem movesOnly_bind_owners {α β : Type} {x : NodeAct E β} {f : β → NodeAct E α}
    (hx : MovesOnly (Staying P) x n)
    (hf : ∀ b n', SameOwners n n' → n.history <+: n'.history → MovesOnly P (f b) n') :
    MovesOnly P (x >>= f) n := by
  have hmono : ∀ n', Moves (Staying P) n n' → Moves P n n' := fun _ hm => hm.mono fun _ _ h => h.1
  refine Act.ends_bind (Act.wp_mono hx (fun b n' h => ?_) fun _ n' h e' he => hmono n' (h e' he))
  exact (hf b n' (h.owners fun _ _ h => h.2) h.history).mono fun _ => (hmono n' h).trans

/-- Forget a connection. -/
theorem Linked.erase {id : PeerId} {p : Peer E} (hl : Linked n) (hp : n.peers.lookup id = some p)
    {n' : Node E} (hpeers : n'.peers = n.peers.erase id)
    (hindex : ∀ k id', n'.byNodeId.lookup k = some id' → n.byNodeId.lookup k = some id' ∧
      p.nodeId ≠ some k) (hnext : n'.nextPeer = n.nextPeer) : Linked n' where
  index k id' hk := by
    obtain ⟨hk, hne⟩ := hindex k id' hk
    obtain ⟨q, hq, hqk⟩ := hl.index k id' hk
    have hid : id' ≠ id := by
      rintro rfl
      exact hne (Option.some.inj (hq.symm.trans hp) ▸ hqk)
    exact ⟨q, by rw [hpeers, AList.lookup_erase_ne hid]; exact hq, hqk⟩
  known id' q hq := by
    rw [hpeers] at hq
    by_cases hid : id' = id
    · rw [hid, AList.lookup_erase] at hq
      cases hq
    · exact hl.known id' q (by rwa [AList.lookup_erase_ne hid] at hq)
  fresh id' q hq := by
    rw [hpeers] at hq
    by_cases hid : id' = id
    · rw [hid, AList.lookup_erase] at hq
      cases hq
    · rw [hnext]
      exact hl.fresh id' q (by rwa [AList.lookup_erase_ne hid] at hq)

theorem peerDisconnected_moves {peer : PeerId} (hdrop : ∀ n' e r,
      (n.peers.lookup peer).bind (·.nodeId) = some e.nodeId → P n' (.acted e .disconnect r)) :
    MovesOnly P (peerDisconnected peer) n := by
  refine Act.ends_get_bind ?_
  split
  · exact Act.ends_pure .rfl
  · next p hp =>
    rw [hp, Option.bind_some] at hdrop
    refine Act.ends_set_bind ?_
    split
    · next hid =>
      refine .one (.link rfl rfl rfl (.of_eq rfl) fun hl => hl.erase hp rfl (fun k id' hk => ?_) rfl)
      exact ⟨hk, by rw [hid]; nofun⟩
    · next nodeId hid =>
      have hlink : Moves P n { n with
          peers := n.peers.erase peer
          byNodeId := n.byNodeId.erase nodeId } := by
        refine .one (.link rfl rfl rfl (.of_eq rfl) fun hl => hl.erase hp rfl (fun k id' hk => ?_) rfl)
        by_cases hk' : k = nodeId
        · rw [hk', AList.lookup_erase] at hk
          cases hk
        · exact ⟨by rwa [AList.lookup_erase_ne hk'] at hk, by rw [hid]; simpa using Ne.symm hk'⟩
      refine Act.ends_modify_bind (Act.ends_get_bind (Act.Ends.mono ?_ fun _ => hlink.trans))
      refine movesOnly_bind (Act.Ends.mono (forM_moves (P := Staying P) fun id hmem n' hn => ?_)
        fun _ hm => hm.mono fun _ _ h => h.1) fun _ _ _ => Quiet.moves event_quiet
      have hnode : ∀ e, n'.channels.lookup id = some e → p.nodeId = some e.nodeId := by
        intro e he
        obtain ⟨e₀, he₀, hnode, -⟩ := (hn.owners fun _ _ h => h.2).before he
        have hany := (List.mem_filter.1 hmem).2
        rw [he₀] at hany
        rw [hid, hnode, of_decide_eq_true hany]
      refine Act.wp_mono (onChannel_called fun e r he _ => ⟨hdrop n' e r (hnode e he), trivial⟩) ?_
        fun _ _ h _ _ => h
      rintro a n₁ ⟨e, ch, hc, hPa⟩
      exact hc.moves not_false hPa

theorem onInit_moves {peer : PeerId} (init : Wire.Init) (hdrop : ∀ n' e r,
      (n.peers.lookup peer).bind (·.nodeId) = some e.nodeId → P n' (.acted e .disconnect r)) :
    MovesOnly P (onInit peer init) n := by
  have hleave : ∀ text, MovesOnly P (do sendWarning peer text; peerDisconnected peer) n := fun text => by
    have hwarn : Act.Ends (sendWarning peer text) n (Unchanged n) :=
      Act.ends_bind (Act.wp_mono (Act.ends_attempt (sendToPeer_quiet _ _)) (fun _ _ h => h)
        fun _ _ h => h)
    refine Act.ends_bind (Act.wp_mono hwarn (fun _ n' h => ?_) fun _ _ h e he => (h e he).moves)
    refine Act.Ends.mono (peerDisconnected_moves fun n'' e r he => hdrop n'' e r ?_) fun _ => h.moves.trans
    rw [← he, h.known peer]
  refine Act.ends_get_bind ?_
  extract_lets combined
  split
  · exact hleave _
  · refine Act.ends_ite (fun _ => hleave _) fun _ => ?_
    refine Act.ends_okOr_bind (fun p hp => ?_) fun _ => .rfl
    extract_lets p'
    refine movesOnly_bind (setPeer_quiet p' hp rfl fun h => h).moves fun _ _ _ => ?_
    split
    · refine Act.ends_ite (fun _ => ?_) fun _ => Act.ends_pure .rfl
      refine movesOnly_bind (Quiet.moves event_quiet) fun _ _ _ => Act.ends_get_bind ?_
      exact forM_moves fun _ _ _ _ => (sendToPeer_quiet _ _).moves
    · exact Act.ends_pure .rfl

end

section
variable {P : Node E → Happening → Prop} {n : Node E}

theorem Called.owners {n' : Node E} {id : ChannelId} {i : Channel.Input} {a : i.Outcome}
    {e : ChannelEntry} {ch : Channel} (h : Called n n' id i a e ch) : SameOwners n n' :=
  .of_insert { e with channel := ch } h.lookup rfl rfl (by rw [h.state])

/-- The closing negotiation after an operation run for a peer. -/
theorem Follows.tryStartClosing_moves {peer : PeerId} {id : ChannelId} {n₁ n₂ : Node E}
    {i : Channel.Input} {a : i.Outcome} {e : ChannelEntry} {ch : Channel} (h : Follows P n peer id)
    (hc : Called n n₁ id i a e ch) (hpeer : n.byNodeId.lookup e.nodeId = some peer)
    (ho : SameOwners n₁ n₂) : MovesOnly P (tryStartClosing id) n₂ := by
  refine Node.tryStartClosing_moves fun e₂ feerate r he₂ => ?_
  obtain ⟨e₀, he₀, hnode, hs⟩ := (hc.owners.trans ho).before he₂
  obtain rfl := Option.some.inj (hc.lookup.symm.trans he₀)
  exact (h n₂ e e₂ he₀ hpeer hnode hs).1 feerate r

/-- An operation run for a peer, and nothing more. -/
theorem withChannel_only_moves {peer : PeerId} {id : ChannelId} {i : Channel.Input}
    (hi : ¬ i.Funds) (h : Permits P n peer id i) : MovesOnly P (withChannel peer id i) n := by
  refine Act.wp_mono (withChannel_spec h) ?_ fun _ _ h => h
  rintro a n' ⟨e, ch, hc, -, hPa⟩
  exact hc.moves hi hPa

theorem onChannelReestablish_moves {peer : PeerId} {msg : Wire.ChannelReestablish}
    (h : Permits P n peer msg.channelId (.channelReestablish msg)) :
    MovesOnly P (onChannelReestablish peer msg) n := by
  refine withChannel_moves not_false h fun a e ch n' hc _ _ => ?_
  refine Act.ends_ite (fun _ => Quiet.moves event_quiet) fun _ => ?_
  refine sendAllFor_moves fun e' m he' hm => hc.said_after he' ?_
  simpa [Channel.Input.toSend] using hm

theorem onShutdown_moves {peer : PeerId} {msg : Wire.Shutdown}
    (h : Permits P n peer msg.channelId (.shutdown msg n.config.closeScript))
    (hf : Follows P n peer msg.channelId) : MovesOnly P (onShutdown peer msg) n := by
  refine Act.ends_get_bind (withChannel_moves not_false h fun a e ch n' hc hpeer _ => ?_)
  split
  · next reply =>
    refine movesOnly_bind_owners (sendAllFor_moves fun e' m he' hm => hc.said_after he' ?_)
      fun _ n₂ ho _ => hf.tryStartClosing_moves hc hpeer ho
    simpa [Channel.Input.toSend] using hm
  · exact hf.tryStartClosing_moves hc hpeer .rfl

variable (hP : ∀ n e i r, Relays i → P n (.acted e i r))
include hP

theorem onCommitmentSigned_moves {peer : PeerId} {msg : Wire.CommitmentSigned}
    (h : Permits P n peer msg.channelId (.commitmentSigned msg))
    (hf : Follows P n peer msg.channelId) : MovesOnly P (onCommitmentSigned peer msg) n := by
  refine withChannel_moves not_false h fun a e ch n₁ hc hpeer _ => ?_
  refine movesOnly_bind_owners (sendAllFor_moves fun e' m he' hm => hc.said_after he' ?_)
    fun _ n₂ ho₂ _ => ?_
  · simpa [Channel.Input.toSend] using hm
  refine movesOnly_bind_owners (flushCommitment_moves (Relays.staying hP) _) fun _ n₃ ho₃ _ => ?_
  exact hf.tryStartClosing_moves hc hpeer (ho₂.trans ho₃)

variable (hdrop : ∀ n source, Dropped n.history source → P n (.failedBack source))
include hdrop

theorem onRevokeAndAck_moves {peer : PeerId} {msg : Wire.RevokeAndAck}
    (h : Permits P n peer msg.channelId (.revokeAndAck msg)) (hf : Follows P n peer msg.channelId) :
    MovesOnly P (onRevokeAndAck peer msg) n := by
  refine withChannel_moves not_false h fun a e ch n₁ hc hpeer _ => ?_
  refine movesOnly_bind_owners (sendAllFor_moves fun e' m he' hm => hc.said_after he' hm)
    fun _ n₂ ho₂ hh₂ => ?_
  -- The parked HTLCs that were dropped are failed back.
  have hfail : MovesOnly (Staying P) (a.failedAdds.forM fun f => onHtlcFailedLocally f.1) n₂ := by
    refine forM_moves fun f hmem n' hn => onHtlcFailed_moves (Relays.staying hP) _ _ fun _ n'' hn'' => ?_
    have hdropped : Dropped n₁.history f.1 := ⟨e, msg, a, hc.acted, List.mem_map_of_mem hmem⟩
    exact ⟨hdrop n'' f.1 (hdropped.mono (hh₂.trans (hn.history.trans hn''))), trivial⟩
  refine movesOnly_bind_owners hfail fun _ n₃ ho₃ _ => ?_
  refine movesOnly_bind_owners (forM_moves fun _ _ _ _ =>
    processCommittedHtlc_moves (Relays.staying hP) _ _) fun _ n₄ ho₄ _ => ?_
  exact hf.tryStartClosing_moves hc hpeer ((ho₂.trans ho₃).trans ho₄)

/-- Every message is handled by a sequence of moves. -/
theorem handleMessage_moves {peer : PeerId} {msg : Wire.Message} (h : Allows P n peer msg) :
    MovesOnly P (handleMessage peer msg) n := by
  refine Act.ends_get_bind ?_
  cases msg with
  | init msg => exact onInit_moves _ (h.drops msg rfl)
  | error msg =>
    refine Act.ends_ite (fun hc => ?_) fun _ => Act.ends_pure .rfl
    exact forceClose_moves _ (h.errors msg rfl hc.1)
  | warning msg => exact Act.ends_pure .rfl
  | ping msg => exact Act.ends_ite (fun _ => Act.ends_pure .rfl) fun _ => (sendToPeer_quiet _ _).moves
  | pong msg =>
    dsimp only
    split
    · next p hp => exact (setPeer_quiet { p with awaitingPong := false } hp rfl fun h => h).moves
    · exact Act.ends_pure .rfl
  | openChannel msg => exact onOpenChannel_moves _ _ (h.opens msg rfl)
  | acceptChannel msg => exact onAcceptChannel_moves (h.requests _ _ rfl)
  | fundingCreated msg => exact onFundingCreated_moves (h.requests _ _ rfl) (h.rekeys msg rfl)
  | fundingSigned msg =>
    exact onFundingSigned_moves (h.requests _ _ rfl) fun n' e e' tx he hp hid hs =>
      (h.follows _ _ rfl n' e e' he hp hid hs).2 tx
  | channelReady msg =>
    exact withChannel_moves not_false (h.requests _ _ rfl) fun _ _ _ _ _ _ _ =>
      afterChannelReadyChange_moves _
  | updateAddHtlc msg => exact withChannel_only_moves not_false (h.requests _ _ rfl)
  | updateFulfillHtlc msg =>
    exact withChannel_moves not_false (h.requests _ _ rfl) fun _ _ _ _ _ _ _ =>
      onHtlcFulfilled_moves hP _ _
  | updateFailHtlc msg =>
    refine withChannel_moves not_false (h.requests _ _ rfl) fun a e ch n' hc hpeer _ => ?_
    refine onHtlcFailed_moves hP _ _ fun hr n'' _ => ?_
    exact h.fails msg rfl e a.1 a.2 ch n'' hc.lookup hpeer hc.run (hc.reports hr)
  | updateFailMalformedHtlc msg =>
    refine withChannel_moves not_false (h.requests _ _ rfl) fun a e ch n' hc hpeer _ => ?_
    refine onHtlcFailed_moves hP _ _ fun hr n'' _ => ?_
    exact h.failsMalformed msg rfl e a.1 a.2 ch n'' hc.lookup hpeer hc.run (hc.reports hr)
  | updateFee msg => exact withChannel_only_moves not_false (h.requests _ _ rfl)
  | commitmentSigned msg => exact onCommitmentSigned_moves hP (h.requests _ _ rfl) (h.follows _ _ rfl)
  | revokeAndAck msg => exact onRevokeAndAck_moves hP hdrop (h.requests _ _ rfl) (h.follows _ _ rfl)
  | shutdown msg => exact onShutdown_moves (h.requests _ _ rfl) (h.follows _ _ rfl)
  | closingSigned msg =>
    exact onClosingSigned_moves (h.requests _ _ rfl) fun n' e tx he hp =>
      (h.follows _ _ rfl n' e e he hp rfl rfl).2 tx
  | channelReestablish msg => exact onChannelReestablish_moves (h.requests _ _ rfl)
  | announcementSignatures msg => exact onAnnouncementSignatures_moves _ _
  | channelAnnouncement msg => exact onGossip_moves _ _
  | channelUpdate msg => exact onGossip_moves _ _
  | nodeAnnouncement msg => exact onGossip_moves _ _
  | gossipTimestampFilter msg => exact Act.ends_pure .rfl
  | unknown t data =>
    exact Act.ends_ite (fun _ => sendWarning_moves _ _) fun _ => Act.ends_pure .rfl

end

/-! ## Calls -/

/-- Every message handled meets `M` in the state it finds; the rest is lost when one fails. -/
def Handles (M : Node E → PeerId → Wire.Message → Prop) (peer : PeerId) :
    List (Except Wire.WireError Wire.Message) → Node E → Prop
  | [], _ => True
  | m :: ms, n => (∀ msg, m = .ok msg → M n peer msg) ∧
      ∀ n', handleDecoded peer m n = .ok () n' → Handles M peer ms n'

/-- Every message that the call handles meets `M`. -/
def Input.Meets (M : Node E → PeerId → Wire.Message → Prop) (n : Node E) : Input E → Prop
  | .peerInput peer data =>
    ∀ msgs n', readInput peer data n = .ok msgs n' → Handles M peer msgs n'
  | _ => True

section
variable {M : Node E → PeerId → Wire.Message → Prop} [∀ n peer msg, Decidable (M n peer msg)]

instance decidableHandles (peer : PeerId) :
    ∀ (ms : List (Except Wire.WireError Wire.Message)) (n : Node E), Decidable (Handles M peer ms n)
  | [], _ => .isTrue trivial
  | m :: ms, n =>
    have : Decidable (∀ msg, m = .ok msg → M n peer msg) :=
      match m with
      | .ok msg => decidable_of_iff (M n peer msg) ⟨fun h _ hm => Except.ok.inj hm ▸ h, fun h => h msg rfl⟩
      | .error _ => .isTrue nofun
    have : Decidable (∀ n', handleDecoded peer m n = .ok () n' → Handles M peer ms n') :=
      match handleDecoded peer m n with
      | .ok () n' =>
        have := decidableHandles peer ms n'
        decidable_of_iff (Handles M peer ms n')
          ⟨fun h _ hn => (EStateM.Result.ok.inj hn).2 ▸ h, fun h => h n' rfl⟩
      | .error _ _ => .isTrue nofun
    inferInstanceAs (Decidable (_ ∧ _))

instance decidableMeets (n : Node E) : ∀ i : Input E, Decidable (i.Meets M n)
  | .peerInput peer data =>
    show Decidable (∀ msgs n', readInput peer data n = .ok msgs n' → Handles M peer msgs n') from
    match readInput peer data n with
    | .ok msgs n' => decidable_of_iff (Handles M peer msgs n')
        ⟨fun h _ _ hn => (EStateM.Result.ok.inj hn).1 ▸ (EStateM.Result.ok.inj hn).2 ▸ h,
          fun h => h msgs n' rfl⟩
    | .error _ _ => .isTrue nofun
  | .connectOutbound .. | .acceptInbound | .peerDisconnected .. | .tick .. | .bestBlockUpdated ..
  | .fundingConfirmed .. | .openChannel .. | .provideFundingTransaction .. | .closeChannel ..
  | .forceClose .. | .createInvoice .. | .payInvoice .. | .claimPayment .. | .pollOutput =>
    .isTrue trivial

end

theorem Handles.imp {M M' : Node E → PeerId → Wire.Message → Prop} {peer : PeerId}
    (hM : ∀ n peer msg, M n peer msg → M' n peer msg) :
    ∀ {ms : List (Except Wire.WireError Wire.Message)} {n : Node E}, Handles M peer ms n →
      Handles M' peer ms n
  | [], _, _ => trivial
  | _ :: _, _, h => ⟨fun msg hm => hM _ _ _ (h.1 msg hm), fun n' hn' => (h.2 n' hn').imp hM⟩

theorem Input.Meets.imp {M M' : Node E → PeerId → Wire.Message → Prop} {n : Node E} {i : Input E}
    (hM : ∀ n peer msg, M n peer msg → M' n peer msg) (h : i.Meets M n) : i.Meets M' n := by
  cases i with
  | peerInput peer data => exact fun msgs n' hn' => (h msgs n' hn').imp hM
  | _ => trivial

theorem Handles.of_forall {M : Node E → PeerId → Wire.Message → Prop} {peer : PeerId}
    (hM : ∀ n peer msg, M n peer msg) :
    ∀ (ms : List (Except Wire.WireError Wire.Message)) (n : Node E), Handles M peer ms n
  | [], _ => trivial
  | _ :: ms, _ => ⟨fun _ _ => hM _ _ _, fun n' _ => of_forall hM ms n'⟩

theorem Input.Meets.of_forall {M : Node E → PeerId → Wire.Message → Prop}
    (hM : ∀ n peer msg, M n peer msg) (n : Node E) (i : Input E) : i.Meets M n := by
  cases i with
  | peerInput peer data => exact fun msgs n' _ => .of_forall hM msgs n'
  | _ => trivial

section
variable {P : Node E → Happening → Prop} {n : Node E}

/-- Enter a connection in the index under the node it is authenticated as. -/
theorem setByNodeId_moves {peer : PeerId} {p : Peer E} {nodeId : PublicKey}
    (hp : n.peers.lookup peer = some p) (hid : p.nodeId = some nodeId) :
    MovesOnly P (setByNodeId nodeId peer) n := by
  refine .one (.link rfl rfl rfl (.of_eq rfl) fun hl => ⟨fun k id hk => ?_, hl.known, hl.fresh⟩)
  change (n.byNodeId.insert nodeId peer).lookup k = some id at hk
  by_cases hkn : k = nodeId
  · rw [hkn, AList.lookup_insert] at hk
    exact ⟨p, Option.some.inj hk ▸ hp, hkn ▸ hid⟩
  · rw [AList.lookup_insert_ne hkn] at hk
    exact hl.index k id hk

theorem becomeReady_moves {peer : PeerId} {p : Peer E} (hp : n.peers.lookup peer = some p) :
    MovesOnly P (becomeReady peer p.nodeId) n := by
  cases hid : p.nodeId with
  | none => exact sendInit_moves _
  | some nodeId => exact movesOnly_bind (setByNodeId_moves hp hid) fun _ _ _ => sendInit_moves _

/-- A new connection. -/
theorem addPeer_moves {transport : E.Transport} {nodeId : Option PublicKey}
    (hid : nodeId.isSome → E.identified transport) : MovesOnly P (addPeer transport nodeId) n := by
  refine .one (.link rfl rfl rfl (.of_eq rfl) fun hl => ?_)
  have hold : ∀ id p, n.peers.lookup id = some p →
      (n.peers.insert n.nextPeer { transport, nodeId }).lookup id = some p := fun id p hp => by
    rw [AList.lookup_insert_ne (hl.fresh id p hp).ne, hp]
  have hnew : ∀ id p, (n.peers.insert n.nextPeer { transport, nodeId }).lookup id = some p →
      id = n.nextPeer ∧ p = { transport, nodeId } ∨ n.peers.lookup id = some p := fun id p hp => by
    by_cases hi : id = n.nextPeer
    · rw [hi, AList.lookup_insert] at hp
      exact .inl ⟨hi, (Option.some.inj hp).symm⟩
    · rw [AList.lookup_insert_ne hi] at hp
      exact .inr hp
  refine ⟨fun k id hk => ?_, fun id p hp hk => ?_, fun id p hp => ?_⟩
  · obtain ⟨p, hp, hpk⟩ := hl.index k id hk
    exact ⟨p, hold id p hp, hpk⟩
  · rcases hnew id p hp with ⟨-, rfl⟩ | hp
    · exact hid hk
    · exact hl.known id p hp hk
  · rcases hnew id p hp with ⟨rfl, -⟩ | hp
    · exact Nat.lt_succ_self _
    · exact (hl.fresh id p hp).trans (Nat.lt_succ_self _)

/-- The transport of a connection took bytes: its identity may have been revealed. -/
theorem setInput_moves {peer : PeerId} {p : Peer E} (data : E.Data)
    (hp : n.peers.lookup peer = some p) :
    MovesOnly P (setPeer peer { p with
      transport := (E.input p.transport data).transport
      nodeId := (E.input p.transport data).nodeId <|> p.nodeId }) n := by
  refine .one (.link rfl rfl rfl (.of_eq rfl) fun hl => ?_)
  have hknown : p.nodeId.isSome → (E.input p.transport data).nodeId = none := fun hk =>
    E.input_identified _ _ (hl.known peer p hp hk)
  refine ⟨fun k id hk => ?_, fun id q hq hk => ?_, fun id q hq => ?_⟩
  · obtain ⟨q, hq, hqk⟩ := hl.index k id hk
    by_cases hi : id = peer
    · subst hi
      obtain rfl := Option.some.inj (hp.symm.trans hq)
      refine ⟨_, AList.lookup_insert _, ?_⟩
      rw [hknown (by rw [hqk]; rfl)]
      exact hqk
    · exact ⟨q, by rw [AList.lookup_insert_ne hi, hq], hqk⟩
  · change (n.peers.insert peer _).lookup id = some q at hq
    by_cases hi : id = peer
    · subst hi
      rw [AList.lookup_insert] at hq
      obtain rfl := Option.some.inj hq
      cases hr : (E.input p.transport data).nodeId with
      | some k => exact E.identified_revealed _ _ (by rw [hr]; rfl)
      | none =>
        rw [hr] at hk
        exact E.identified_input _ _ (hl.known id p hp hk)
    · rw [AList.lookup_insert_ne hi] at hq
      exact hl.known id q hq hk
  · change (n.peers.insert peer _).lookup id = some q at hq
    by_cases hi : id = peer
    · exact hi ▸ hl.fresh peer p hp
    · rw [AList.lookup_insert_ne hi] at hq
      exact hl.fresh id q hq

theorem forM_emit_moves {α : Type} {l : List α} {f : α → Output E.Data} (hf : ∀ a, Plain (f a)) :
    Act.Ends (l.forM fun a => emit (f a)) n fun n' => Moves P n n' ∧ n'.peers = n.peers := by
  induction l generalizing n with
  | nil => exact Act.ends_pure ⟨.rfl, rfl⟩
  | cons a l ih =>
    have hemit : Moves P n { n with outputs := n.outputs ++ [f a] } :=
      Quiet.moves (x := emit (f a)) (emit_quiet (hf a))
    exact Act.ends_modify_bind (ih.mono fun _ h => ⟨hemit.trans h.1, h.2⟩)

theorem readInput_moves (peer : PeerId) (data : E.Data) : MovesOnly P (readInput peer data) n := by
  refine Act.ends_get_bind (Act.ends_okOr_bind (fun p hp => ?_) fun _ => .rfl)
  extract_lets input p'
  have hset : MovesOnly P (setPeer peer p') n := setInput_moves data hp
  refine Act.ends_modify_bind (Act.Ends.mono (Q := Moves P { n with peers := n.peers.insert peer p' })
    ?_ fun _ => Moves.trans hset)
  split
  · exact Act.ends_fail .rfl
  · exact Act.ends_panic
  · refine Act.ends_bind (Act.wp_mono (forM_emit_moves fun _ => trivial) (fun _ n' h => ?_)
      fun _ _ h e' he => (h e' he).1)
    refine Act.Ends.mono ?_ fun _ => h.1.trans
    refine Act.ends_ite (fun _ => ?_) fun _ => Act.ends_pure .rfl
    have hp' : n'.peers.lookup peer = some p' := by
      rw [h.2]
      exact AList.lookup_insert _
    exact movesOnly_bind (becomeReady_moves hp') fun _ _ _ => Act.ends_pure .rfl

variable (hP : ∀ n e i r, Relays i → P n (.acted e i r))
  (hdrop : ∀ n source, Dropped n.history source → P n (.failedBack source))
include hP hdrop

theorem handleDecoded_moves {peer : PeerId} {m : Except Wire.WireError Wire.Message}
    (h : ∀ msg, m = .ok msg → Allows P n peer msg) : MovesOnly P (handleDecoded peer m) n := by
  unfold handleDecoded
  split
  · exact handleMessage_moves hP hdrop (h _ rfl)
  · exact sendWarning_moves _ _
  · exact Act.ends_pure .rfl

theorem handleAll_moves {peer : PeerId} {ms : List (Except Wire.WireError Wire.Message)}
    (h : Handles (Allows P) peer ms n) :
    MovesOnly P (ms.forM fun m => handleDecoded peer m) n := by
  induction ms generalizing n with
  | nil => exact Act.ends_pure .rfl
  | cons m ms ih =>
    have hm := handleDecoded_moves hP hdrop h.1
    refine Act.ends_bind (Act.wp_iff.2 ⟨fun u n' hrun => ?_, fun e n' hrun => ?_⟩)
    · exact (ih (h.2 n' hrun)).mono fun _ => (Act.wp_ok hm hrun).trans
    · exact Act.wp_error hm hrun

end

/-- Methods that the embedder's calls lead to. -/
def OwnCall : Channel.Input → Prop
  | .createFunding .. | .confirmFunding .. | .sendShutdown .. | .maybeSendClosingSigned ..
  | .disconnect => True
  | _ => False

/-- What the rule has to allow for a call of the embedder. -/
structure AllowsCall (P : Node E → Happening → Prop) (n : Node E) (i : Input E) : Prop where
  messages : i.Meets (Allows P) n
  own : ∀ n' e j r, OwnCall j → P n' (.acted e j r)
  opens : ∀ nodeId capacitySat pushMsat, i = .openChannel nodeId capacitySat pushMsat →
    pushMsat ≤ capacitySat * 1000 → ∀ n', n'.channels = n.channels →
    P n' (.opened n'.history.length (E.randomBytes n.entropy).1)
  funds : ∀ id tx, i = .provideFundingTransaction id tx →
    ∀ e newId, n.channels.lookup id = some e → n.fundingKey id tx = some newId →
      P n (.rekeyed e.serial id newId)
  orders : ∀ id reason, i = .forceClose id reason → P n (.ordered id)
  forces : ∀ id reason, i = .forceClose id reason → ∀ n', n'.channels = n.channels →
    n'.history = n.history ++ [.ordered id] → ∀ e tx, n.channels.lookup id = some e →
    e.channel.signedHolderCommitmentTx E.C = .ok tx → P n' (.forceClosed e)
  polls : i = .pollOutput → P n .polled

theorem AllowsCall.top (n : Node E) (i : Input E) : AllowsCall (fun _ _ => True) n i where
  messages := .of_forall Allows.top n i
  own _ _ _ _ _ := trivial
  opens _ _ _ _ _ _ _ := trivial
  funds _ _ _ _ _ _ _ := trivial
  orders _ _ _ := trivial
  forces _ _ _ _ _ _ _ _ _ _ := trivial
  polls _ := trivial

section
variable {P : Node E → Happening → Prop} {n : Node E}
  (hP : ∀ n e i r, Relays i → P n (.acted e i r))
  (hdrop : ∀ n source, Dropped n.history source → P n (.failedBack source))
include hP hdrop

/-- Every call of the node is a sequence of moves. -/
theorem step_moves {i : Input E} (h : AllowsCall P n i) : MovesOnly P (step i) n := by
  cases i with
  | connectOutbound remote =>
    refine Act.ends_map (movesOnly_bind randomSecretKey_quiet.moves fun ephemeral n₁ _ => ?_)
    have hadd : MovesOnly P (addPeer (E.newOutbound remote ephemeral).1 (some remote)) n₁ :=
      addPeer_moves fun _ => E.identified_outbound _ _
    refine Act.ends_bind (Act.wp_iff.2 ⟨fun id n₂ hrun => ?_, fun e n₂ hrun => ?_⟩)
    · obtain ⟨rfl, rfl⟩ := EStateM.Result.ok.inj hrun
      refine Act.Ends.mono ?_ fun _ => Moves.trans hadd
      exact movesOnly_bind (setByNodeId_moves (AList.lookup_insert _) rfl) fun _ _ _ => Act.ends_pure .rfl
    · exact Act.wp_error hadd hrun
  | acceptInbound =>
    refine Act.ends_map (movesOnly_bind randomSecretKey_quiet.moves fun _ _ _ => ?_)
    exact addPeer_moves nofun
  | peerInput peer data =>
    have hread := readInput_moves (P := P) (n := n) peer data
    refine Act.ends_bind (Act.wp_iff.2 ⟨fun msgs n' hrun => ?_, fun e n' hrun => ?_⟩)
    · exact (handleAll_moves hP hdrop (h.messages msgs n' hrun)).mono fun _ =>
        (Act.wp_ok hread hrun).trans
    · exact Act.wp_error hread hrun
  | peerDisconnected peer => exact peerDisconnected_moves fun n' e r _ => h.own n' e _ r trivial
  | tick unixNow =>
    refine movesOnly_bind (.idle rfl rfl rfl rfl rfl rfl rfl) fun _ _ _ => Act.ends_get_bind ?_
    refine forM_moves fun id _ _ _ => ?_
    refine movesOnly_bind (ignoreErrors_moves (sendToPeer_quiet _ _).moves) fun _ _ _ => ?_
    refine Act.ends_get_bind ?_
    split
    · next p hp =>
      exact (setPeer_quiet { p with lastPingSentAt := unixNow, awaitingPong := true } hp rfl
        fun h => h).moves
    · exact Act.ends_pure .rfl
  | bestBlockUpdated height => exact .idle rfl rfl rfl rfl rfl rfl rfl
  | fundingConfirmed id scid => exact fundingConfirmed_moves _ _ fun e r => h.own _ e _ r trivial
  | openChannel nodeId capacitySat pushMsat =>
    exact Act.ends_map (openChannel_moves _ _ _ (h.opens _ _ _ rfl))
  | provideFundingTransaction id tx =>
    exact Act.ends_map (provideFundingTransaction_moves _ _ (fun e _ _ r => h.own _ e _ r trivial)
      (h.funds _ _ rfl))
  | closeChannel id =>
    exact closeChannel_moves _ (fun e _ r => h.own _ e _ r trivial) fun _ e _ r => h.own _ e _ r trivial
  | forceClose id reason =>
    have hordered : Moves P n { n with history := n.history ++ [.ordered id] } :=
      .one (.ordered id rfl rfl (.of rfl rfl rfl rfl rfl) (h.orders _ _ rfl))
    refine ends_record (Act.Ends.mono ?_ fun _ => hordered.trans)
    exact forceClose_moves _ (h.forces _ _ rfl _ rfl rfl)
  | createInvoice amountMsat description expirySecs =>
    refine Act.ends_map (movesOnly_bind randomBytes_quiet.moves fun _ _ _ => ?_)
    refine movesOnly_bind randomBytes_quiet.moves fun _ _ _ => Act.ends_get_bind ?_
    exact movesOnly_bind (.idle rfl rfl rfl rfl rfl rfl rfl) fun _ _ _ => Act.ends_pure .rfl
  | payInvoice invoice amountMsat => exact Act.ends_map (payInvoice_moves hP _ _)
  | claimPayment hash => exact claimPayment_moves hP _
  | pollOutput =>
    exact .one (.polled rfl rfl rfl (.of rfl rfl rfl) rfl (h.polls rfl))

end

end Node
