import Keraunos.Node.Machine

/-!
# What most functions leave alone

`Frame S R` says of a relation between states that it holds of the elementary changes: notes of the
node that concern neither connections nor outputs, an output, a message through a transport. Then
every run of a function that handles no connections stays in it (`Keeps R`). Two things are left to
the relation: the report of a forward, and entries of the history in `S`, which may tell that a
forward was fulfilled.
-/

open Bitcoin

/-- The report of a forward. -/
def Output.isForwarded {Data : Type} : Output Data → Bool
  | .event (.forwarded ..) => true
  | _ => false

/-- The peer fulfilled an HTLC that we forwarded. -/
def Happening.fulfilled : Happening → Bool
  | .acted _ (.updateFulfillHtlc _) (.ok (.forwarded .., _)) => true
  | _ => false

/-- The method that can fulfill a forward. -/
def Channel.Input.isFulfill : Channel.Input → Bool
  | .updateFulfillHtlc _ => true
  | _ => false

theorem Happening.fulfilled_acted {e : ChannelEntry} {i : Channel.Input}
    (hi : i.isFulfill = false) (r : Except ChannelError i.Outcome) :
    (Happening.acted e i r).fulfilled = false := by
  cases i with
  | updateFulfillHtlc msg => cases hi
  | _ => rfl

/-- Messages that may lead to a disconnect, the settlement of a forward or a new one. -/
def Wire.Message.isSpecial : Wire.Message → Bool
  | .init _ | .updateFulfillHtlc _ | .revokeAndAck _ => true
  | _ => false

theorem Happening.fulfilled_error {e : ChannelEntry} {i : Channel.Input} (err : ChannelError) :
    (Happening.acted e i (.error err)).fulfilled = false := by
  cases i with
  | _ => rfl

namespace Node

variable {E : Env} {α β : Type}

/-- Every run of `x` stays in `R`. -/
def Keeps (R : Node E → Node E → Prop) (x : NodeAct E α) : Prop := ∀ n, Act.Ends x n (R n)

structure Frame (S : Happening → Bool) (R : Node E → Node E → Prop) : Prop where
  plain : ∀ h, h.fulfilled = false → S h = false
  refl : ∀ n, R n n
  trans : ∀ {n n' n''}, R n n' → R n' n'' → R n n''
  /-- The node's notes on channels and payments. -/
  note : ∀ {n n'}, n'.peers = n.peers → n'.byNodeId = n.byNodeId → n'.outputs = n.outputs →
    n'.history = n.history → R n n'
  record : ∀ n h, S h = false → R n { n with history := n.history ++ [h] }
  emit : ∀ n o, o.isForwarded = false → R n { n with outputs := n.outputs ++ [o] }
  /-- A transport encrypts a message. -/
  send : ∀ {n id p} msg, n.peers.lookup id = some p →
    R n { n with peers := n.peers.insert id { p with transport := (E.encrypt p.transport msg).1 } }
  /-- The notes on a connection. -/
  peer : ∀ {n id p p'}, n.peers.lookup id = some p → p'.transport = p.transport →
    p'.nodeId = p.nodeId → R n { n with peers := n.peers.insert id p' }

variable {S : Happening → Bool} {R : Node E → Node E → Prop} {n n' : Node E}

theorem Keeps.attempt {x : NodeAct E α} (h : Keeps R x) : Keeps R (Act.attempt x) :=
  fun n => Act.ends_attempt (h n)

theorem Keeps.map {x : NodeAct E β} (h : Keeps R x) (f : β → α) : Keeps R (f <$> x) :=
  fun n => Act.ends_map (h n)

namespace Frame

/-! ## Sequences -/

section
variable (hR : Frame S R)
include hR

theorem pure (a : α) : Keeps R (Pure.pure a) := fun n => Act.ends_pure (hR.refl n)

theorem fail (e : NodeError) : Keeps R (Act.fail e : NodeAct E α) :=
  fun n => Act.ends_fail (hR.refl n)

theorem okOr (o : Option α) (e : NodeError) : Keeps R (Act.okOr o e) := by
  cases o with
  | none => exact hR.fail e
  | some a => exact hR.pure a

theorem expect (o : Option α) : Keeps R (Act.expect o : NodeAct E α) := by
  cases o with
  | none => exact fun _ => Act.ends_panic
  | some a => exact hR.pure a

theorem get : Keeps R (MonadState.get : NodeAct E (Node E)) := fun n => hR.refl n

theorem bind {x : NodeAct E β} {f : β → NodeAct E α} (hx : Keeps R x) (hf : ∀ b, Keeps R (f b)) :
    Keeps R (x >>= f) := by
  intro n
  refine Act.ends_bind (Act.wp_mono (hx n) (fun b n' h => ?_) fun _ _ h => h)
  exact (hf b n').mono fun _ h' => hR.trans h h'

/-- Set a state, then go on. -/
theorem ends_set {f : PUnit → NodeAct E α} (h : R n n') (hf : Keeps R (f ⟨⟩)) :
    Act.Ends (set n' >>= f) n (R n) :=
  Act.ends_set_bind ((hf n').mono fun _ h' => hR.trans h h')

theorem ignoreErrors {x : NodeAct E α} (h : Keeps R x) : Keeps R (Node.ignoreErrors x) :=
  hR.bind h.attempt fun _ => hR.pure _

theorem forM {l : List α} {f : α → NodeAct E Unit} (h : ∀ a ∈ l, Keeps R (f a)) :
    Keeps R (l.forM f) := by
  induction l with
  | nil => exact hR.pure _
  | cons a l ih =>
    exact hR.bind (h a List.mem_cons_self) fun _ => ih fun b hb => h b (List.mem_cons_of_mem _ hb)

/-! ## Elementary actions -/

theorem output {o : Output E.Data} (ho : o.isForwarded = false) : Keeps R (Node.emit o) :=
  fun n => hR.emit n o ho

theorem event {e : NodeEvent} (he : (.event e : Output E.Data).isForwarded = false) :
    Keeps R (Node.event e) := hR.output he

theorem happens {h : Happening} (hh : h.fulfilled = false) :
    Keeps R (Node.record h : NodeAct E Unit) := fun n => hR.record n h (hR.plain h hh)

theorem randomBytes : Keeps R (Node.randomBytes : NodeAct E Bytes32) :=
  fun _ => Act.ends_get_bind (hR.ends_set (hR.note rfl rfl rfl rfl) (hR.pure _))

theorem randomSecretKey : Keeps R (Node.randomSecretKey : NodeAct E SecretKey) :=
  fun _ => Act.ends_get_bind (hR.ends_set (hR.note rfl rfl rfl rfl) (hR.pure _))

theorem sendToPeer (peer : PeerId) (msg : Wire.Message) : Keeps R (Node.sendToPeer peer msg) := by
  intro n
  refine Act.ends_get_bind (Act.ends_okOr_bind (fun p hp => ?_) fun _ => hR.refl n)
  refine Act.ends_modify_bind ?_
  have hsent := hR.send msg hp
  split
  · exact (hR.fail _ _).mono fun _ => hR.trans hsent
  · exact (hR.output rfl _).mono fun _ => hR.trans hsent

theorem sendToNode (nodeId : PublicKey) (msg : Wire.Message) : Keeps R (Node.sendToNode nodeId msg) :=
  hR.bind hR.get fun _ => hR.bind (hR.okOr _ _) fun _ => hR.sendToPeer _ _

theorem sendWarning (peer : PeerId) (text : String) : Keeps R (Node.sendWarning peer text : NodeAct E Unit) :=
  hR.ignoreErrors (hR.sendToPeer _ _)

theorem publish (entry : ChannelEntry) (tx : Transaction) :
    Keeps R (Node.publish entry tx : NodeAct E Unit) :=
  hR.bind (hR.output rfl) fun _ => hR.happens rfl

theorem broadcastToReadyPeers (msg : Wire.Message) :
    Keeps R (Node.broadcastToReadyPeers msg : NodeAct E Unit) :=
  hR.bind hR.get fun _ => hR.forM fun _ _ => hR.ignoreErrors (hR.sendToPeer _ _)

theorem entryOf (id : ChannelId) : Keeps R (Node.entryOf id : NodeAct E ChannelEntry) :=
  hR.bind hR.get fun _ => hR.okOr _ _

theorem setEntry (id : ChannelId) (entry : ChannelEntry) :
    Keeps R (Node.setEntry id entry : NodeAct E Unit) :=
  fun _ => hR.note rfl rfl rfl rfl

theorem removeEntry (id : ChannelId) : Keeps R (Node.removeEntry id : NodeAct E Unit) :=
  fun _ => hR.note rfl rfl rfl rfl

theorem addChannel (id : ChannelId) (channel : Channel) (nodeId : PublicKey) :
    Keeps R (Node.addChannel id channel nodeId : NodeAct E Unit) :=
  hR.bind hR.get fun _ => hR.bind (hR.setEntry _ _) fun _ => hR.happens rfl

theorem ends_entryOf {id : ChannelId} {f : ChannelEntry → NodeAct E α}
    (hf : ∀ entry ∈ n.channels.lookup id, Act.Ends (f entry) n (R n)) :
    Act.Ends (Node.entryOf id >>= f) n (R n) := by
  rw [Node.entryOf, bind_assoc]
  exact Act.ends_get_bind (Act.ends_okOr_bind (fun entry hentry => hf entry hentry) fun _ => hR.refl n)

theorem callChannel {id : ChannelId} {i : Channel.Input}
    (hi : ∀ e ∈ n.channels.lookup id, ∀ a ch, Channel.perform E.C i e.channel = .ok a ch →
      S (.acted e i (.ok a)) = false) : Act.Ends (Node.onChannel id i) n (R n) := by
  refine hR.ends_entryOf fun entry hentry => ?_
  split
  · next a ch hrun =>
    have hkeeps : Keeps R (do Node.setEntry id { entry with channel := ch }
                              Node.record (.acted entry i (.ok a)); Pure.pure a) :=
      hR.bind (hR.setEntry _ _) fun _ => hR.bind (fun n => hR.record n _ (hi entry hentry a ch hrun))
        fun _ => hR.pure _
    exact hkeeps n
  · next e ch hrun =>
    have hkeeps : Keeps R (do Node.setEntry id { entry with channel := ch }
                              Node.record (.acted entry i (.error e))
                              (Act.fail (.channel e) : NodeAct E i.Outcome)) :=
      hR.bind (hR.setEntry _ _) fun _ => hR.bind (hR.happens (Happening.fulfilled_error e))
        fun _ => hR.fail _
    exact hkeeps n
  · exact Act.ends_panic

theorem onChannel (id : ChannelId) {i : Channel.Input} (hi : i.isFulfill = false) :
    Keeps R (Node.onChannel id i : NodeAct E i.Outcome) :=
  fun _ => hR.callChannel fun _ _ a _ _ => hR.plain _ (Happening.fulfilled_acted hi (.ok a))

theorem askChannel (id : ChannelId) (f : Channel → ChannelResult α) :
    Keeps R (Node.askChannel id f : NodeAct E α) := by
  refine hR.bind (hR.entryOf id) fun entry => ?_
  split
  · exact hR.pure _
  · exact hR.fail _
  · exact fun _ => Act.ends_panic

theorem sendFor (entry : ChannelEntry) (msg : Wire.Message) :
    Keeps R (Node.sendFor entry msg : NodeAct E Unit) :=
  hR.bind (hR.sendToNode _ _) fun _ => hR.happens rfl

/-! ## Channels -/

theorem flushCommitment (id : ChannelId) : Keeps R (Node.flushCommitment id : NodeAct E Unit) := by
  refine hR.bind (hR.entryOf id) fun entry => ?_
  split
  · exact hR.bind (hR.onChannel _ rfl) fun _ => hR.sendFor _ _
  · exact hR.pure _

theorem sendUpdate (id : ChannelId) (entry : ChannelEntry) (msg : Option Wire.Message) :
    Keeps R (Node.sendUpdate id entry msg : NodeAct E Unit) := by
  cases msg with
  | none => exact hR.pure _
  | some msg => exact hR.bind (hR.sendFor _ _) fun _ => hR.flushCommitment _

theorem forceClose (id : ChannelId) (reason : String) :
    Keeps R (Node.forceClose id reason : NodeAct E Unit) :=
  hR.bind (hR.entryOf _) fun _ => hR.bind (hR.askChannel _ _) fun _ => hR.bind (hR.output rfl) fun _ =>
    hR.bind (hR.happens rfl) fun _ => hR.event rfl

theorem failChannel (peer : PeerId) (id : ChannelId) (text : String) :
    Keeps R (Node.failChannel peer id text : NodeAct E α) :=
  hR.bind (hR.ignoreErrors (hR.sendToPeer _ _)) fun _ =>
    hR.bind (hR.ignoreErrors (hR.forceClose _ _)) fun _ => hR.fail _

theorem runChannel {peer : PeerId} {id : ChannelId} {i : Channel.Input}
    (hi : ∀ e ∈ n.channels.lookup id, ∀ a ch, Channel.perform E.C i e.channel = .ok a ch →
      S (.acted e i (.ok a)) = false) : Act.Ends (Node.withChannel peer id i) n (R n) := by
  refine hR.ends_entryOf fun entry _ => Act.ends_get_bind ?_
  split
  · exact Act.ends_fail (hR.refl n)
  · refine Act.ends_bind (Act.wp_mono (Act.ends_attempt (hR.callChannel hi)) (fun r n' h => ?_)
      fun _ _ h => h)
    split
    · exact (hR.pure _ n').mono fun _ => hR.trans h
    · exact (hR.failChannel _ _ _ n').mono fun _ => hR.trans h
    · exact (hR.fail _ n').mono fun _ => hR.trans h

theorem withChannel (peer : PeerId) (id : ChannelId) {i : Channel.Input} (hi : i.isFulfill = false) :
    Keeps R (Node.withChannel peer id i : NodeAct E i.Outcome) :=
  fun _ => hR.runChannel fun _ _ a _ _ => hR.plain _ (Happening.fulfilled_acted hi (.ok a))

theorem finishCooperativeClose (id : ChannelId) (entry : ChannelEntry) (tx : Transaction) :
    Keeps R (Node.finishCooperativeClose id entry tx : NodeAct E Unit) :=
  hR.bind (hR.publish _ _) fun _ => hR.event rfl

theorem tryStartClosing (id : ChannelId) : Keeps R (Node.tryStartClosing id : NodeAct E Unit) := by
  refine hR.bind hR.get fun n => ?_
  split
  · exact hR.pure _
  · refine hR.bind (hR.onChannel _ rfl) fun msg => ?_
    split
    · exact hR.sendFor _ _
    · exact hR.pure _

theorem closeChannel (id : ChannelId) : Keeps R (Node.closeChannel id : NodeAct E Unit) :=
  hR.bind hR.get fun _ => hR.bind (hR.entryOf _) fun _ => hR.bind (hR.onChannel _ rfl) fun _ =>
    hR.bind (hR.sendFor _ _) fun _ => hR.tryStartClosing _

theorem onClosingSigned (peer : PeerId) (msg : Wire.ClosingSigned) :
    Keeps R (Node.onClosingSigned peer msg : NodeAct E Unit) := by
  refine hR.bind hR.get fun n => hR.bind (hR.entryOf _) fun entry =>
    hR.bind (hR.withChannel _ _ rfl) fun outcome => ?_
  split
  · refine hR.bind (hR.sendToPeer _ _) fun _ => hR.bind (hR.happens rfl) fun _ => ?_
    split
    · exact hR.finishCooperativeClose _ _ _
    · exact hR.pure _
  · exact hR.finishCooperativeClose _ _ _

theorem publishAnnouncement (id : ChannelId) (full : Wire.ChannelAnnouncement) (capacity : Nat)
    (weAreFirst : Bool) :
    Keeps R (Node.publishAnnouncement id full capacity weAreFirst : NodeAct E Unit) := by
  intro n
  refine Act.ends_get_bind ?_
  split
  · exact Act.ends_pure (hR.refl n)
  · refine hR.ends_set (hR.note rfl rfl rfl rfl) ?_
    refine hR.bind (hR.broadcastToReadyPeers _) fun _ m => Act.ends_get_bind ?_
    split
    · exact Act.ends_fail (hR.refl m)
    · split
      · exact hR.ends_set (hR.note rfl rfl rfl rfl) (hR.broadcastToReadyPeers _)
      · exact hR.bind (hR.pure _) (fun _ => hR.broadcastToReadyPeers _) m

theorem sendAnnouncementSigs (id : ChannelId) (entry : ChannelEntry)
    (unsigned : Wire.ChannelAnnouncement) :
    Keeps R (Node.sendAnnouncementSigs id entry unsigned : NodeAct E Unit) := by
  unfold Node.sendAnnouncementSigs
  split
  · exact hR.pure _
  · exact hR.bind (hR.setEntry _ _) fun _ => hR.sendToNode _ _

theorem finishAnnouncement (id : ChannelId) (unsigned : Wire.ChannelAnnouncement)
    (weAreFirst : Bool) : Keeps R (Node.finishAnnouncement id unsigned weAreFirst : NodeAct E Unit) := by
  refine hR.bind (hR.entryOf id) fun entry => ?_
  split
  · exact hR.pure _
  · split
    · exact hR.pure _
    · exact hR.bind (hR.setEntry _ _) fun _ => hR.publishAnnouncement _ _ _ _

theorem maybeAnnounceChannel (id : ChannelId) :
    Keeps R (Node.maybeAnnounceChannel id : NodeAct E Unit) := by
  refine hR.bind hR.get fun n => ?_
  split
  · exact hR.pure _
  · split
    · exact hR.pure _
    · split
      · exact hR.pure _
      · exact hR.bind (hR.sendAnnouncementSigs _ _ _) fun _ => hR.finishAnnouncement _ _ _

theorem afterChannelReadyChange (id : ChannelId) :
    Keeps R (Node.afterChannelReadyChange id : NodeAct E Unit) := by
  refine hR.bind hR.get fun n => ?_
  split
  · exact hR.pure _
  · split
    · exact hR.bind (hR.event rfl) fun _ => hR.maybeAnnounceChannel _
    · exact hR.pure _

theorem onAnnouncementSignatures (peer : PeerId) (msg : Wire.AnnouncementSignatures) :
    Keeps R (Node.onAnnouncementSignatures peer msg : NodeAct E Unit) := by
  refine hR.bind hR.get fun n => hR.bind (hR.entryOf _) fun entry => ?_
  split
  · exact hR.fail _
  · exact hR.bind (hR.setEntry _ _) fun _ => hR.maybeAnnounceChannel _

theorem nextSigner : Keeps R (Node.nextSigner : NodeAct E ChannelSigner) :=
  fun _ => Act.ends_get_bind (hR.ends_set (hR.note rfl rfl rfl rfl) (hR.pure _))

theorem openChannel (nodeId : PublicKey) (capacitySat : Nat) (pushMsat : Msat) :
    Keeps R (Node.openChannel nodeId capacitySat pushMsat : NodeAct E ChannelId) := by
  refine hR.bind hR.get fun n => hR.bind (hR.okOr _ _) fun peer => ?_
  split
  · exact hR.fail _
  · refine hR.bind hR.nextSigner fun signer => hR.bind hR.randomBytes fun tempId => ?_
    split
    · exact hR.fail _
    · exact fun _ => Act.ends_panic
    · exact hR.bind (hR.addChannel _ _ _) fun _ => hR.bind (hR.sendToPeer _ _) fun _ => hR.pure _

theorem onOpenChannel (peer : PeerId) (msg : Wire.OpenChannel) :
    Keeps R (Node.onOpenChannel peer msg : NodeAct E Unit) := by
  refine hR.bind hR.get fun n => ?_
  split
  · exact hR.sendWarning _ _
  · refine hR.bind (hR.okOr _ _) fun nodeId => hR.bind hR.nextSigner fun signer => ?_
    split
    · exact hR.bind (hR.addChannel _ _ _) fun _ => hR.sendToPeer _ _
    · exact hR.sendToPeer _ _
    · exact fun _ => Act.ends_panic

theorem onAcceptChannel (peer : PeerId) (msg : Wire.AcceptChannel) :
    Keeps R (Node.onAcceptChannel peer msg : NodeAct E Unit) :=
  hR.bind (hR.withChannel _ _ rfl) fun _ => hR.bind (hR.askChannel _ _) fun _ =>
    hR.bind (hR.entryOf _) fun _ => hR.event rfl

theorem rekey (id newId : ChannelId) (entry : ChannelEntry) :
    Keeps R (Node.rekey id newId entry : NodeAct E Unit) :=
  hR.bind (hR.removeEntry _) fun _ => hR.bind (hR.setEntry _ _) fun _ => hR.happens rfl

theorem provideFundingTransaction (id : ChannelId) (tx : Transaction) :
    Keeps R (Node.provideFundingTransaction id tx : NodeAct E ChannelId) := by
  refine hR.bind (hR.askChannel _ _) fun script => hR.bind (hR.entryOf _) fun entry => ?_
  split
  · exact hR.fail _
  · exact hR.bind (hR.onChannel _ rfl) fun _ => hR.bind (hR.entryOf _) fun _ =>
      hR.bind (hR.rekey _ _ _) fun _ => hR.bind (hR.sendFor _ _) fun _ =>
        hR.bind (hR.event rfl) fun _ => hR.pure _

theorem onFundingCreated (peer : PeerId) (msg : Wire.FundingCreated) :
    Keeps R (Node.onFundingCreated peer msg : NodeAct E Unit) := by
  refine hR.bind (hR.withChannel _ _ rfl) fun reply => hR.bind hR.get fun n =>
    hR.bind (hR.expect _) fun entry => hR.bind (hR.removeEntry _) fun _ =>
      hR.bind (hR.expect _) fun outpoint => ?_
  split
  · exact hR.fail _
  · exact fun _ => Act.ends_panic
  · exact hR.bind (hR.setEntry _ _) fun _ => hR.bind (hR.happens rfl) fun _ =>
      hR.bind (hR.sendFor _ _) fun _ => hR.bind (hR.output rfl) fun _ => hR.event rfl

theorem onFundingSigned (peer : PeerId) (msg : Wire.FundingSigned) :
    Keeps R (Node.onFundingSigned peer msg : NodeAct E Unit) :=
  hR.bind (hR.withChannel _ _ rfl) fun _ => hR.bind (hR.entryOf _) fun _ => hR.bind (hR.okOr _ _) fun _ =>
    hR.bind (hR.setEntry _ _) fun _ => hR.bind (hR.expect _) fun _ => hR.bind (hR.askChannel _ _) fun _ =>
      hR.bind (hR.output rfl) fun _ => hR.publish _ _

theorem fundingConfirmed (id : ChannelId) (scid : ShortChannelId) :
    Keeps R (Node.fundingConfirmed id scid : NodeAct E Unit) := by
  refine hR.bind (hR.entryOf _) fun entry => hR.bind (hR.onChannel _ rfl) fun msg => ?_
  refine hR.bind (fun _ => hR.note rfl rfl rfl rfl) fun _ => ?_
  split
  · exact hR.bind (hR.sendFor _ _) fun _ => hR.afterChannelReadyChange _
  · exact hR.afterChannelReadyChange _

/-! ## Payments -/

theorem claimPayment (hash : PaymentHash) : Keeps R (Node.claimPayment hash : NodeAct E Unit) := by
  intro n
  refine Act.ends_get_bind (Act.ends_okOr_bind (fun claim _ => ?_) fun _ => hR.refl n)
  refine hR.ends_set (hR.note rfl rfl rfl rfl) ?_
  exact hR.bind (hR.okOr _ _) fun _ => hR.bind (hR.entryOf _) fun _ => hR.bind (hR.onChannel _ rfl) fun _ =>
    hR.bind (hR.sendUpdate _ _ _) fun _ => hR.event rfl

theorem onHtlcFulfilled (source : HtlcSource) (preimage : PaymentPreimage) :
    Keeps R (Node.onHtlcFulfilled source preimage : NodeAct E Unit) := by
  cases source with
  | outbound paymentId tag =>
    refine fun n => Act.ends_get_bind ?_
    split
    · exact Act.ends_pure (hR.refl n)
    · exact hR.ends_set (hR.note rfl rfl rfl rfl) (hR.event rfl)
  | forwarded inboundChannel inboundHtlc tag =>
    exact hR.bind (hR.entryOf _) fun _ => hR.bind (hR.onChannel _ rfl) fun _ => hR.sendUpdate _ _ _

theorem onHtlcFailed (source : HtlcSource) (reason : Option (List UInt8)) (malformedCode : Option Nat) :
    Keeps R (Node.onHtlcFailed source reason malformedCode : NodeAct E Unit) := by
  cases source with
  | outbound paymentId tag =>
    refine fun n => Act.ends_get_bind ?_
    split
    · exact Act.ends_pure (hR.refl n)
    · exact hR.ends_set (hR.note rfl rfl rfl rfl)
        (hR.bind (hR.happens rfl) fun _ => hR.event rfl)
  | forwarded inboundChannel inboundHtlc tag =>
    refine hR.bind hR.get fun n => ?_
    split
    · exact hR.pure _
    · exact hR.bind (hR.entryOf _) fun _ => hR.bind (hR.onChannel _ rfl) fun _ =>
        hR.bind (hR.happens rfl) fun _ => hR.sendUpdate _ _ _

theorem failInbound (id : ChannelId) (htlcId : HtlcId) (code : Nat) (data : List UInt8) :
    Keeps R (Node.failInbound id htlcId code data : NodeAct E Unit) := by
  refine hR.bind hR.get fun n => ?_
  split
  · exact hR.pure _
  · exact hR.bind (hR.entryOf _) fun _ => hR.bind (hR.onChannel _ rfl) fun _ => hR.sendUpdate _ _ _

theorem failInboundMalformed (id : ChannelId) (htlcId : HtlcId) (onionBytes : List UInt8) :
    Keeps R (Node.failInboundMalformed id htlcId onionBytes : NodeAct E Unit) :=
  hR.bind (hR.entryOf _) fun _ => hR.bind (hR.onChannel _ rfl) fun _ => hR.sendUpdate _ _ _

theorem receiveFinalHtlc (id : ChannelId) (htlc : CommittedInboundHtlc) (payload : Onion.HopPayload) :
    Keeps R (Node.receiveFinalHtlc id htlc payload : NodeAct E Unit) := by
  refine fun n => Act.ends_get_bind ?_
  split
  · exact hR.failInbound _ _ _ _ n
  · refine hR.ends_set (hR.note rfl rfl rfl rfl) (hR.bind (hR.event rfl) fun _ => ?_)
    split
    · exact hR.claimPayment _
    · exact hR.pure _

theorem createInvoice (amountMsat : Option Msat) (description : String) (expirySecs : Nat) :
    Keeps R (Node.createInvoice amountMsat description expirySecs : NodeAct E (String × PaymentHash)) :=
  hR.bind hR.randomBytes fun _ => hR.bind hR.randomBytes fun _ => fun _ => Act.ends_get_bind
    (hR.ends_set (hR.note rfl rfl rfl rfl) (hR.pure _))

theorem offerPayment (invoice : Bolt11Invoice) (route : Route) (sharedSecrets : List Bytes32)
    (packet : Onion.OnionPacket) :
    Keeps R (Node.offerPayment invoice route sharedSecrets packet : NodeAct E Bytes32) :=
  hR.bind hR.randomBytes fun _ => hR.bind (hR.expect _) fun _ => hR.bind hR.get fun _ =>
    hR.bind (hR.okOr _ _) fun _ => hR.bind (hR.entryOf _) fun _ => hR.bind (hR.onChannel _ rfl) fun _ =>
      hR.bind (fun _ => hR.note rfl rfl rfl rfl) fun _ =>
        hR.bind (hR.sendUpdate _ _ _) fun _ => hR.pure _

theorem payInvoice (invoice : Bolt11Invoice) (amountMsat : Option Msat) :
    Keeps R (Node.payInvoice invoice amountMsat : NodeAct E Bytes32) := by
  refine hR.bind (hR.okOr _ _) fun amount => hR.bind hR.get fun n => ?_
  split
  · exact hR.fail _
  · split
    · exact hR.fail _
    · refine hR.bind hR.randomSecretKey fun sessionKey => ?_
      dsimp only
      split
      · exact fun _ => Act.ends_panic
      · exact hR.offerPayment _ _ _ _

/-! ## Messages -/

theorem sendInit (peer : PeerId) : Keeps R (Node.sendInit peer : NodeAct E Unit) := by
  refine hR.bind hR.get fun n => hR.bind (hR.sendToPeer _ _) fun _ m => Act.ends_get_bind ?_
  split
  · next p hp => exact hR.peer hp rfl rfl
  · exact Act.ends_pure (hR.refl m)

theorem sendAllFor (id : ChannelId) (msgs : List Wire.Message) :
    Keeps R (Node.sendAllFor id msgs : NodeAct E Unit) :=
  hR.bind hR.get fun _ => hR.bind (hR.expect _) fun _ => hR.forM fun _ _ => hR.sendFor _ _

theorem onCommitmentSigned (peer : PeerId) (cs : Wire.CommitmentSigned) :
    Keeps R (Node.onCommitmentSigned peer cs : NodeAct E Unit) :=
  hR.bind (hR.withChannel _ _ rfl) fun _ => hR.bind (hR.sendAllFor _ _) fun _ =>
    hR.bind (hR.flushCommitment _) fun _ => hR.tryStartClosing _

theorem onShutdown (peer : PeerId) (msg : Wire.Shutdown) :
    Keeps R (Node.onShutdown peer msg : NodeAct E Unit) := by
  refine hR.bind hR.get fun n => hR.bind (hR.withChannel _ _ rfl) fun reply => ?_
  split
  · exact hR.bind (hR.sendAllFor _ _) fun _ => hR.tryStartClosing _
  · exact hR.tryStartClosing _

theorem onChannelReestablish (peer : PeerId) (msg : Wire.ChannelReestablish) :
    Keeps R (Node.onChannelReestablish peer msg : NodeAct E Unit) := by
  refine hR.bind (hR.withChannel _ _ rfl) fun actions => ?_
  split
  · exact hR.event rfl
  · exact hR.sendAllFor _ _

theorem onGossip (graph : Except GossipError E.Graph) (msg : Wire.Message) :
    Keeps R (Node.onGossip graph msg : NodeAct E Unit) := by
  unfold Node.onGossip
  split
  · exact hR.bind (fun _ => hR.note rfl rfl rfl rfl) fun _ => hR.broadcastToReadyPeers _
  · exact hR.pure _

variable (hoffer : ∀ inId outId htlc payload next, Keeps R (Node.offerForward inId outId htlc payload next))
include hoffer

theorem forwardHtlc (inId : ChannelId) (htlc : CommittedInboundHtlc) (payload : Onion.HopPayload)
    (next : Onion.OnionPacket) : Keeps R (Node.forwardHtlc inId htlc payload next : NodeAct E Unit) := by
  refine hR.bind hR.get fun n => ?_
  split
  · exact hR.failInbound _ _ _ _
  · split
    · exact hR.failInbound _ _ _ _
    · refine hR.bind (hR.entryOf _) fun entry => ?_
      split
      · exact hR.failInbound _ _ _ _
      · exact hoffer _ _ _ _ _

theorem processCommittedHtlc (id : ChannelId) (htlc : CommittedInboundHtlc) :
    Keeps R (Node.processCommittedHtlc id htlc : NodeAct E Unit) := by
  unfold Node.processCommittedHtlc
  split
  · exact hR.failInboundMalformed _ _ _
  · dsimp only
    split
    · exact hR.failInboundMalformed _ _ _
    · exact fun _ => Act.ends_panic
    · refine hR.bind (fun _ => hR.note rfl rfl rfl rfl) fun _ => ?_
      split
      · split
        · exact hR.bind hR.get fun _ => hR.failInbound _ _ _ _
        · exact hR.receiveFinalHtlc _ _ _
      · split
        · exact hR.failInbound _ _ _ _
        · exact hR.forwardHtlc hoffer _ _ _ _

theorem onRevokeAndAck (peer : PeerId) (raa : Wire.RevokeAndAck) :
    Keeps R (Node.onRevokeAndAck peer raa : NodeAct E Unit) :=
  hR.bind (hR.withChannel _ _ rfl) fun _ => hR.bind (hR.sendAllFor _ _) fun _ =>
    hR.bind (hR.forM fun _ _ => hR.onHtlcFailed _ _ _) fun _ =>
      hR.bind (hR.forM fun _ _ => hR.processCommittedHtlc hoffer _ _) fun _ => hR.tryStartClosing _

end

section
variable (hR : Frame S R)
include hR

theorem handleMessage (peer : PeerId) {msg : Wire.Message} (hmsg : msg.isSpecial = false) :
    Keeps R (Node.handleMessage peer msg : NodeAct E Unit) := by
  intro n
  refine Act.ends_get_bind ?_
  cases msg with
  | init | updateFulfillHtlc | revokeAndAck => cases hmsg
  | ping ping =>
    dsimp only
    split
    · exact Act.ends_pure (hR.refl n)
    · exact hR.sendToPeer _ _ n
  | pong =>
    dsimp only
    split
    · next p hp => exact hR.peer hp rfl rfl
    · exact Act.ends_pure (hR.refl n)
  | error e =>
    dsimp only
    split
    · exact hR.forceClose _ _ n
    · exact Act.ends_pure (hR.refl n)
  | warning => exact Act.ends_pure (hR.refl n)
  | openChannel open_ => exact hR.onOpenChannel _ _ n
  | acceptChannel accept => exact hR.onAcceptChannel _ _ n
  | fundingCreated fc => exact hR.onFundingCreated _ _ n
  | fundingSigned fs => exact hR.onFundingSigned _ _ n
  | channelReady cr =>
    exact hR.bind (hR.withChannel _ _ rfl) (fun _ => hR.afterChannelReadyChange _) n
  | updateAddHtlc add => exact hR.withChannel _ _ rfl n
  | updateFailHtlc fail => exact hR.bind (hR.withChannel _ _ rfl) (fun _ => hR.onHtlcFailed _ _ _) n
  | updateFailMalformedHtlc fail =>
    exact hR.bind (hR.withChannel _ _ rfl) (fun _ => hR.onHtlcFailed _ _ _) n
  | updateFee uf => exact hR.withChannel _ _ rfl n
  | commitmentSigned cs => exact hR.onCommitmentSigned _ _ n
  | shutdown sd => exact hR.onShutdown _ _ n
  | closingSigned cs => exact hR.onClosingSigned _ _ n
  | channelReestablish re => exact hR.onChannelReestablish _ _ n
  | announcementSignatures anns => exact hR.onAnnouncementSignatures _ _ n
  | channelAnnouncement ca => exact hR.onGossip _ _ n
  | channelUpdate cu => exact hR.onGossip _ _ n
  | nodeAnnouncement na => exact hR.onGossip _ _ n
  | gossipTimestampFilter => exact Act.ends_pure (hR.refl n)
  | unknown t data =>
    dsimp only
    split
    · exact hR.sendWarning _ _ n
    · exact Act.ends_pure (hR.refl n)

end

end Frame

/-! ## Calls -/

/-- A call about the connections, or one that takes an output. -/
def Input.external : Input E → Bool
  | .connectOutbound _ | .acceptInbound | .peerInput .. | .peerDisconnected _ | .pollOutput => true
  | _ => false

namespace Frame

section
variable (hR : Frame S R)
include hR

theorem tick (unixNow : Nat) : Keeps R (Node.tick unixNow : NodeAct E Unit) := by
  refine hR.bind (fun _ => hR.note rfl rfl rfl rfl) fun _ => hR.bind hR.get fun n => ?_
  refine hR.forM fun id _ => hR.bind (hR.ignoreErrors (hR.sendToPeer _ _)) fun _ m =>
    Act.ends_get_bind ?_
  split
  · next p hp => exact hR.peer hp rfl rfl
  · exact Act.ends_pure (hR.refl m)

theorem step {i : Input E} (hi : i.external = false) : Keeps R (Node.step i) := by
  cases i with
  | connectOutbound | acceptInbound | peerInput | peerDisconnected | pollOutput => cases hi
  | tick unixNow => exact hR.tick _
  | bestBlockUpdated height => exact fun _ => hR.note rfl rfl rfl rfl
  | fundingConfirmed id scid => exact hR.fundingConfirmed _ _
  | openChannel nodeId capacitySat pushMsat => exact (hR.openChannel _ _ _).map _
  | provideFundingTransaction id tx => exact (hR.provideFundingTransaction _ _).map _
  | closeChannel id => exact hR.closeChannel _
  | forceClose id reason => exact hR.bind (hR.happens rfl) fun _ => hR.forceClose _ _
  | createInvoice amountMsat description expirySecs => exact (hR.createInvoice _ _ _).map _
  | payInvoice invoice amountMsat => exact (hR.payInvoice _ _).map _
  | claimPayment hash => exact hR.claimPayment _

end

end Frame

end Node
