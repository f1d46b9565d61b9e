import Keraunos.Node.Proof.Frames
import Keraunos.Node.Proof.Margin

/-!
# What the node says it earned

`Event::Forwarded` stands for an HTLC that was forwarded and earned its fee when it settled. The node
emits it when the outgoing HTLC is offered at once, with the fee of its policy, and emits nothing
when a forward settles. Reports and income agree in the runs that have neither (`reports_income`).
-/

open Bitcoin

/-- The channel offers an HTLC at once. -/
def Channel.offersAtOnce (ch : Channel) (amount : Msat) (cltv : Nat) : Bool :=
  ch.state = .normal && !ch.shutdownSent && !ch.shutdownReceived && !ch.awaitingRaa &&
    (ch.validateOutboundAdd amount cltv).isOk

theorem Channel.sendAddHtlc_waits {ch : Channel} {amount : Msat} {hash : PaymentHash} {cltv : Nat}
    {onion : List UInt8} {source : HtlcSource} (hno : ch.offersAtOnce amount cltv = false) :
    Act.wp (Channel.sendAddHtlc amount hash cltv onion source) ch (fun o _ => o = none)
      fun _ _ => True := by
  simp only [Channel.sendAddHtlc, Act.wp_bind, Act.wp_get, Act.wp_lift, Act.wp_ite, Act.wp_set,
    Act.wp_pure, Fault.require_eq_ok]
  refine ⟨fun _ hstate => ⟨fun _ hopen => ⟨fun _ => trivial, fun hraa => ⟨fun _ hvalid => ?_, ?_⟩⟩, ?_⟩, ?_⟩
  · obtain ⟨hsent, hreceived⟩ := not_or.1 hopen
    have hyes : ch.offersAtOnce amount cltv = true := by
      simp [Channel.offersAtOnce, hstate, hsent, hreceived, hraa, hvalid, Except.isOk, Except.toBool]
    rw [hyes] at hno
    cases hno
  all_goals exact fun _ _ => trivial

namespace Node

variable {E : Env} {n n' : Node E}

/-! ## Reports and income -/

/-- A node, and the outputs that the embedder has taken. -/
structure Watched (E : Env) where
  node : Node E
  taken : List (Output E.Data) := []

def Watched.emitted (w : Watched E) : List (Output E.Data) := w.taken ++ w.node.outputs

/-- What a call gives to the embedder. -/
def Input.takes (n : Node E) : Input E → List (Output E.Data)
  | .pollOutput => n.outputs.head?.toList
  | _ => []

def watch (i : Input E) : Act NodeError (Watched E) Unit := fun w =>
  match step i w.node with
  | .ok _ n => .ok () ⟨n, w.taken ++ i.takes w.node⟩
  | .error e n => .error e ⟨n, w.taken⟩

/-- A forward: where it came from, where it went, and what it earned. -/
abbrev Income : Type := ChannelId × ChannelId × Int

/-- The forwards that were reported, with the fees that were reported. -/
def reported {Data : Type} (os : List (Output Data)) : List Income :=
  os.filterMap fun o =>
    match o with
    | .event (.forwarded inId outId fee) => some (inId, outId, fee)
    | _ => none

/-- What a forward earned that was paid for with `paid`. -/
def incomeOf (into : ChannelEntry) (inId outId : ChannelId) (id : HtlcId) (paid : Msat) :
    List Income :=
  (into.channel.findHtlc (false, id)).toList.map fun htlc =>
    (inId, outId, (htlc.amountMsat : Int) - (paid : Int))

/-- The forwards that earned something: the peer fulfilled the outgoing HTLC, and the channel the
HTLC came from took the preimage. -/
def earned : List Happening → List Income
  | .acted _ (.updateFulfillHtlc ful) (.ok (.forwarded inId _ _, paid)) ::
      .acted into (.sendFulfillHtlc id _) (.ok _) :: hs =>
    incomeOf into inId ful.channelId id paid ++ earned hs
  | _ :: hs => earned hs
  | [] => []

/-- Every forward that earned something was reported, once and with what it earned, and nothing
else. -/
def Watched.Reports (w : Watched E) : Prop := (reported w.emitted).Perm (earned w.node.history)

/-! ## The condition -/

/-- The HTLC is to be forwarded, with this payload. -/
def forwardOf (E : Env) (htlc : CommittedInboundHtlc) :
    Option (Onion.HopPayload × Onion.OnionPacket) :=
  (E.parseOnion htlc.onion).bind fun packet =>
    match Onion.peelWithSecret E.C (E.ecdh packet.ephemeralKey) packet htlc.paymentHash.toList with
    | .ok (.forward payload next) => (E.decodePayload payload).map fun payload => (payload, next)
    | _ => none

/-- The HTLC would be offered at once on its next channel. -/
def offersForward (n : Node E) (htlc : CommittedInboundHtlc) (payload : Onion.HopPayload) : Bool :=
  (checkForward n.config.forwarding htlc payload).isNone &&
    ((payload.shortChannelId.bind n.scidIndex.lookup).bind n.channels.lookup).any fun e =>
      e.channel.offersAtOnce payload.amtToForward payload.outgoingCltvValue

/-- None of these HTLCs, processed one after another, is offered at once. -/
def OffersLater (id : ChannelId) : List CommittedInboundHtlc → Node E → Prop
  | [], _ => True
  | htlc :: htlcs, n => (∀ x ∈ forwardOf E htlc, offersForward n htlc x.1 = false) ∧
      ∀ n', processCommittedHtlc id htlc n = .ok () n' → OffersLater id htlcs n'

/-- A revocation is processed up to the HTLCs that it commits. -/
def settleRevocation (peer : PeerId) (raa : Wire.RevokeAndAck) : NodeAct E RaaOutcome := do
  let outcome ← withChannel peer raa.channelId (.revokeAndAck raa)
  sendAllFor raa.channelId (RaaOutcome.toSend outcome)
  outcome.failedAdds.forM fun f => onHtlcFailedLocally f.1
  return outcome

theorem onRevokeAndAck_eq (peer : PeerId) (raa : Wire.RevokeAndAck) :
    (onRevokeAndAck peer raa : NodeAct E Unit) = (do
      let outcome ← settleRevocation peer raa
      outcome.forwardable.forM fun htlc => processCommittedHtlc raa.channelId htlc
      tryStartClosing raa.channelId) := by
  simp only [onRevokeAndAck, settleRevocation, bind_assoc, pure_bind]

/-- The outgoing HTLC of a forward. -/
def isForward (htlc : Htlc) : Bool :=
  match htlc.source with
  | some (.forwarded ..) => true
  | _ => false

/-- The message fulfills no forward, and no HTLC that it commits is offered at once. -/
def Unreported (n : Node E) (peer : PeerId) : Wire.Message → Prop
  | .updateFulfillHtlc ful => ∀ e ∈ n.channels.lookup ful.channelId,
      ∀ htlc ∈ e.channel.findHtlc (true, ful.id), isForward htlc = false
  | .revokeAndAck raa => ∀ outcome n', settleRevocation peer raa n = .ok outcome n' →
      OffersLater raa.channelId outcome.forwardable n'
  | _ => True

/-! ## Calls that report nothing -/

/-- No forward was fulfilled and none was reported. -/
def Silent (n n' : Node E) : Prop :=
  (∃ hs, n'.history = n.history ++ hs ∧ ∀ h ∈ hs, h.fulfilled = false) ∧
    ∃ os, n'.outputs = n.outputs ++ os ∧ ∀ o ∈ os, o.isForwarded = false

theorem Silent.of_same (hh : n'.history = n.history) (ho : n'.outputs = n.outputs) : Silent n n' :=
  ⟨⟨[], by rw [hh, List.append_nil], fun _ => nofun⟩, [], by rw [ho, List.append_nil], fun _ => nofun⟩

theorem Silent.trans {n'' : Node E} (h : Silent n n') (h' : Silent n' n'') : Silent n n'' := by
  obtain ⟨⟨hs, hhs, hno⟩, os, hos, hso⟩ := h
  obtain ⟨⟨hs', hhs', hno'⟩, os', hos', hso'⟩ := h'
  refine ⟨⟨hs ++ hs', by rw [hhs', hhs, List.append_assoc], fun h hmem => ?_⟩,
    os ++ os', by rw [hos', hos, List.append_assoc], fun o hmem => ?_⟩
  · exact (List.mem_append.1 hmem).elim (hno h) (hno' h)
  · exact (List.mem_append.1 hmem).elim (hso o) (hso' o)

theorem Silent.frame : Frame Happening.fulfilled (Silent (E := E)) where
  plain _ h := h
  refl _ := .of_same rfl rfl
  trans := Silent.trans
  note _ _ ho hh := .of_same hh ho
  record n h hh := ⟨⟨[h], rfl, fun x hx => by rw [List.mem_singleton.1 hx, hh]⟩,
    [], (List.append_nil _).symm, fun _ => nofun⟩
  emit n o ho := ⟨⟨[], (List.append_nil _).symm, fun _ => nofun⟩,
    [o], rfl, fun x hx => by rw [List.mem_singleton.1 hx, ho]⟩
  send _ _ := .of_same rfl rfl
  peer _ _ _ := .of_same rfl rfl

/-! ## Forwards that wait -/

/-- An HTLC that is not offered at once is parked, or failed back. -/
theorem offerForward_silent {inId outId : ChannelId} {htlc : CommittedInboundHtlc}
    {payload : Onion.HopPayload} {next : Onion.OnionPacket}
    (hno : ∀ e ∈ n.channels.lookup outId,
      e.channel.offersAtOnce payload.amtToForward payload.outgoingCltvValue = false) :
    Act.Ends (offerForward inId outId htlc payload next) n (Silent n) := by
  have hR := Silent.frame (E := E)
  refine Act.ends_get_bind (hR.ends_entryOf fun entry hentry => ?_)
  have hcall := hR.onChannel outId (i := .sendAddHtlc payload.amtToForward htlc.paymentHash
    payload.outgoingCltvValue next.serialize (.forwarded inId htlc.id n.history.length)) rfl n
  refine Act.ends_bind ((Act.wp_attempt _).2
    (Act.wp_mono (Act.wp_and (onChannel_spec outId _) hcall) ?_ ?_))
  · rintro o n' ⟨⟨e, ch, hc⟩, hsilent⟩
    have hnone := Act.wp_ok (Channel.sendAddHtlc_waits (hno e hc.lookup)) hc.run
    obtain rfl : o = none := hnone
    exact Act.ends_pure hsilent
  · rintro f n' ⟨-, hsilent⟩
    refine ⟨fun err herr => ?_, fun _ _ he => nomatch he⟩
    have hsilent := hsilent err herr
    split
    · next heq => cases heq
    · next heq => cases heq
    · exact (hR.failInbound _ _ _ _ n').mono fun _ => hsilent.trans
    · exact Act.ends_fail hsilent

theorem forwardHtlc_silent {inId : ChannelId} {htlc : CommittedInboundHtlc}
    {payload : Onion.HopPayload} {next : Onion.OnionPacket}
    (hno : offersForward n htlc payload = false) :
    Act.Ends (forwardHtlc inId htlc payload next) n (Silent n) := by
  have hR := Silent.frame (E := E)
  refine Act.ends_get_bind ?_
  split
  · exact hR.failInbound _ _ _ _ n
  · next outId hscid =>
    split
    · exact hR.failInbound _ _ _ _ n
    · next hcheck =>
      refine hR.ends_entryOf fun entry hentry => ?_
      split
      · exact hR.failInbound _ _ _ _ n
      · refine offerForward_silent fun e he => ?_
        rw [offersForward, hcheck, hscid, Option.bind_some, he] at hno
        simpa using hno

theorem processCommittedHtlc_silent {id : ChannelId} {htlc : CommittedInboundHtlc}
    (hno : ∀ x ∈ forwardOf E htlc, offersForward n htlc x.1 = false) :
    Act.Ends (processCommittedHtlc id htlc) n (Silent n) := by
  have hR := Silent.frame (E := E)
  unfold processCommittedHtlc
  split
  · exact hR.failInboundMalformed _ _ _ n
  · next packet hparse =>
    dsimp only
    split
    · exact hR.failInboundMalformed _ _ _ n
    · exact Act.ends_panic
    · next peeled hpeel =>
      refine Act.ends_modify_bind (Act.Ends.mono (Q := Silent _) ?_ fun _ =>
        Silent.trans (.of_same rfl rfl))
      split
      · split
        · exact hR.bind hR.get (fun _ => hR.failInbound _ _ _ _) _
        · exact hR.receiveFinalHtlc _ _ _ _
      · split
        · exact hR.failInbound _ _ _ _ _
        · next next _ payload hpayload =>
          refine forwardHtlc_silent (hno (payload, next) ?_)
          rw [forwardOf, hparse, Option.bind_some, hpeel]
          simp [hpayload]

theorem processAll_silent {id : ChannelId} {htlcs : List CommittedInboundHtlc}
    (hlater : OffersLater id htlcs n) :
    Act.Ends (htlcs.forM fun htlc => processCommittedHtlc id htlc) n (Silent n) := by
  induction htlcs generalizing n with
  | nil => exact Act.ends_pure (.of_same rfl rfl)
  | cons htlc htlcs ih =>
    have hone : Act.Ends (processCommittedHtlc id htlc) n (Silent n) :=
      processCommittedHtlc_silent hlater.1
    refine Act.ends_bind (Act.wp_iff.2 ⟨fun u n' hrun => ?_, fun e n' hrun => ?_⟩)
    · exact (ih (hlater.2 n' hrun)).mono fun _ => (Act.wp_ok hone hrun).trans
    · exact Act.wp_error hone hrun

/-! ## Connections -/

theorem peerDisconnected_silent (peer : PeerId) :
    Keeps (Silent (E := E)) (peerDisconnected peer) := by
  have hR := Silent.frame (E := E)
  intro n
  refine Act.ends_get_bind ?_
  split
  · exact Act.ends_pure (hR.refl n)
  · refine hR.ends_set (.of_same rfl rfl) fun m => ?_
    split
    · exact Act.ends_pure (hR.refl m)
    · refine Act.ends_modify_bind (Act.Ends.mono (Q := Silent _) ?_ fun _ =>
        Silent.trans (.of_same rfl rfl))
      exact hR.bind hR.get (fun _ => hR.bind (hR.forM fun id _ => hR.onChannel id rfl)
        fun _ => hR.event rfl) _

theorem onInit_silent (peer : PeerId) (init : Wire.Init) :
    Keeps (Silent (E := E)) (onInit peer init) := by
  have hR := Silent.frame (E := E)
  have hleave : ∀ text, Keeps (Silent (E := E)) (do sendWarning peer text; peerDisconnected peer) :=
    fun text => hR.bind (hR.sendWarning _ _) fun _ => peerDisconnected_silent peer
  refine hR.bind hR.get fun n => ?_
  dsimp only
  split
  · exact hleave _
  · split
    · exact hleave _
    · refine hR.bind (hR.okOr _ _) fun p => hR.bind (fun _ => .of_same rfl rfl) fun _ => ?_
      split
      · split
        · exact hR.bind (hR.event rfl) fun _ => hR.bind hR.get fun _ => hR.forM fun _ _ =>
            hR.sendToPeer _ _
        · exact hR.pure _
      · exact hR.pure _

theorem becomeReady_silent (peer : PeerId) (nodeId : Option PublicKey) :
    Keeps (Silent (E := E)) (becomeReady peer nodeId) := by
  have hR := Silent.frame (E := E)
  cases nodeId with
  | none => exact hR.sendInit peer
  | some k => exact hR.bind (fun _ => .of_same rfl rfl) fun _ => hR.sendInit peer

theorem readInput_silent (peer : PeerId) (data : E.Data) :
    Keeps (Silent (E := E)) (readInput peer data) := by
  have hR := Silent.frame (E := E)
  refine hR.bind hR.get fun n => hR.bind (hR.okOr _ _) fun p => ?_
  dsimp only
  refine hR.bind (fun _ => .of_same rfl rfl) fun _ => ?_
  split
  · exact hR.fail _
  · exact fun _ => Act.ends_panic
  · refine hR.bind (hR.forM fun _ _ => hR.output rfl) fun _ => ?_
    split
    · exact hR.bind (becomeReady_silent _ _) fun _ => hR.pure _
    · exact hR.pure _

/-! ## Messages and calls -/

theorem settleRevocation_silent (peer : PeerId) (raa : Wire.RevokeAndAck) :
    Keeps (Silent (E := E)) (settleRevocation peer raa) := by
  have hR := Silent.frame (E := E)
  exact hR.bind (hR.withChannel _ _ rfl) fun _ => hR.bind (hR.sendAllFor _ _) fun _ =>
    hR.bind (hR.forM fun _ _ => hR.onHtlcFailed _ _ _) fun _ => hR.pure _

/-- The source that a fulfilled HTLC gives back is its own. -/
theorem source_of_fulfilled {ch ch' : Channel} {ful : Wire.UpdateFulfillHtlc}
    {outcome : HtlcSource × Msat}
    (hrun : Channel.perform E.C (.updateFulfillHtlc ful) ch = .ok outcome ch') :
    ∃ htlc ∈ ch.findHtlc (true, ful.id), htlc.source = some outcome.1 := by
  obtain ⟨htlc, hhtlc, -, hsource, -⟩ := Act.wp_ok (Channel.onRemoval_spec _ _ _ ch) hrun
  rw [Channel.outboundCommitted, Fault.bind_eq_ok] at hhtlc
  obtain ⟨found, hfound, hrest⟩ := hhtlc
  simp only [Fault.bind_eq_ok, Fault.require_eq_ok] at hrest
  obtain ⟨-, -, -, -, heq⟩ := hrest
  cases heq
  exact ⟨htlc, Fault.okOr_eq_ok.1 hfound, hsource⟩

theorem handleMessage_silent {peer : PeerId} {msg : Wire.Message} (hno : Unreported n peer msg) :
    Act.Ends (handleMessage peer msg) n (Silent n) := by
  have hR := Silent.frame (E := E)
  cases msg with
  | init init => exact onInit_silent peer init n
  | updateFulfillHtlc ful =>
    refine Act.ends_get_bind (Act.ends_bind (Act.wp_mono (hR.runChannel fun e he outcome ch hrun => ?_)
      (fun r n' h => ?_) fun _ _ h => h))
    · obtain ⟨htlc, hfound, hsource⟩ := source_of_fulfilled hrun
      have hplain := hno e he htlc hfound
      obtain ⟨source, paid⟩ := outcome
      cases source with
      | outbound => rfl
      | forwarded =>
        rw [isForward, hsource] at hplain
        cases hplain
    · exact (hR.onHtlcFulfilled r.1 _ n').mono fun _ => h.trans
  | revokeAndAck raa =>
    refine Act.ends_get_bind ?_
    show Act.Ends (onRevokeAndAck peer raa) n _
    rw [onRevokeAndAck_eq]
    have hsettle := settleRevocation_silent peer raa n
    refine Act.ends_bind (Act.wp_iff.2 ⟨fun outcome n' hrun => ?_, fun e n' hrun => ?_⟩)
    · have hsilent := Act.wp_ok hsettle hrun
      refine Act.ends_bind (Act.wp_mono (processAll_silent (hno outcome n' hrun))
        (fun _ n'' h => ?_) fun _ _ h e he => hsilent.trans (h e he))
      exact (hR.tryStartClosing _ n'').mono fun _ => (hsilent.trans h).trans
    · exact Act.wp_error hsettle hrun
  | _ => exact hR.handleMessage peer rfl n

theorem handleDecoded_silent {peer : PeerId} {m : Except Wire.WireError Wire.Message}
    (hno : ∀ msg, m = .ok msg → Unreported n peer msg) :
    Act.Ends (handleDecoded peer m) n (Silent n) := by
  unfold handleDecoded
  split
  · exact handleMessage_silent (hno _ rfl)
  · exact Silent.frame.sendWarning _ _ n
  · exact Act.ends_pure (.of_same rfl rfl)

theorem handleAll_silent {peer : PeerId} {ms : List (Except Wire.WireError Wire.Message)}
    (hno : Handles Unreported peer ms n) :
    Act.Ends (ms.forM fun m => handleDecoded peer m) n (Silent n) := by
  induction ms generalizing n with
  | nil => exact Act.ends_pure (.of_same rfl rfl)
  | cons m ms ih =>
    have hm := handleDecoded_silent hno.1
    refine Act.ends_bind (Act.wp_iff.2 ⟨fun u n' hrun => ?_, fun e n' hrun => ?_⟩)
    · exact (ih (hno.2 n' hrun)).mono fun _ => (Act.wp_ok hm hrun).trans
    · exact Act.wp_error hm hrun

theorem step_silent {i : Input E} (hno : i.Meets Unreported n) (hpoll : i ≠ .pollOutput) :
    Act.Ends (step i) n (Silent n) := by
  have hR := Silent.frame (E := E)
  cases i with
  | connectOutbound remote =>
    refine Act.ends_map ((hR.bind hR.randomSecretKey fun ephemeral => ?_) n)
    refine hR.bind (fun n => Act.ends_get_bind (Act.ends_set_bind (Act.ends_pure ?_))) fun _ => ?_
    · exact .of_same rfl rfl
    · exact hR.bind (fun _ => .of_same rfl rfl) fun _ => hR.pure _
  | acceptInbound =>
    refine Act.ends_map ((hR.bind hR.randomSecretKey fun ephemeral n => ?_) n)
    exact Act.ends_get_bind (Act.ends_set_bind (Act.ends_pure (.of_same rfl rfl)))
  | peerDisconnected peer => exact peerDisconnected_silent peer n
  | peerInput peer data =>
    have hread := readInput_silent peer data n
    refine Act.ends_bind (Act.wp_iff.2 ⟨fun msgs n' hrun => ?_, fun e n' hrun => ?_⟩)
    · exact (handleAll_silent (hno msgs n' hrun)).mono fun _ => (Act.wp_ok hread hrun).trans
    · exact Act.wp_error hread hrun
  | pollOutput => exact absurd rfl hpoll
  | _ => exact hR.step rfl n

/-! ## Runs -/

/-- Nothing was earned and nothing was reported. -/
structure Watched.Silent (w : Watched E) : Prop where
  happened : ∀ h ∈ w.node.history, h.fulfilled = false
  emitted : ∀ o ∈ w.emitted, o.isForwarded = false

theorem earned_cons {h : Happening} (hno : h.fulfilled = false) (hs : List Happening) :
    earned (h :: hs) = earned hs := by
  rw [earned]
  rintro entry ful inId htlc tag paid into id preimage a hs' rfl -
  cases hno

theorem earned_of_none {hs : List Happening} (hno : ∀ h ∈ hs, h.fulfilled = false) :
    earned hs = [] := by
  induction hs with
  | nil => rfl
  | cons h hs ih =>
    rw [earned_cons (hno h List.mem_cons_self)]
    exact ih fun x hx => hno x (List.mem_cons_of_mem h hx)

theorem reported_of_none {Data : Type} {os : List (Output Data)}
    (hno : ∀ o ∈ os, o.isForwarded = false) : reported os = [] := by
  refine List.filterMap_eq_nil_iff.2 fun o ho => ?_
  split
  · cases hno _ ho
  · rfl

theorem Watched.Silent.reports {w : Watched E} (h : w.Silent) : w.Reports := by
  rw [Watched.Reports, reported_of_none h.emitted, earned_of_none h.happened]

theorem Silent.watched {w : Watched E} (hs : Silent w.node n) (h : w.Silent) :
    Watched.Silent ⟨n, w.taken⟩ := by
  obtain ⟨⟨hs, hhs, hno⟩, os, hos, hso⟩ := hs
  refine ⟨fun x hx => ?_, fun o ho => ?_⟩
  · rw [hhs] at hx
    exact (List.mem_append.1 hx).elim (h.happened x) (hno x)
  · rw [Watched.emitted, hos, ← List.append_assoc] at ho
    exact (List.mem_append.1 ho).elim (h.emitted o) (hso o)

/-- The embedder takes an output. -/
theorem Watched.Silent.poll {w : Watched E} (h : w.Silent) :
    Watched.Silent ⟨{ w.node with outputs := w.node.outputs.tail, history := w.node.history ++ [.polled] },
      w.taken ++ w.node.outputs.head?.toList⟩ := by
  refine ⟨fun x hx => ?_, fun o ho => h.emitted o ?_⟩
  · rcases List.mem_append.1 hx with hx | hx
    · exact h.happened x hx
    · rw [List.mem_singleton.1 hx]
      rfl
  · rw [Watched.emitted, List.append_assoc] at ho
    rw [Watched.emitted]
    cases hos : w.node.outputs with
    | nil => simpa [hos] using ho
    | cons o' os => simpa [hos] using ho

theorem watch_silent {w : Watched E} {i : Input E} (hno : i.Meets Unreported w.node)
    (h : w.Silent) : Act.Ends (watch i) w Watched.Silent := by
  by_cases hpoll : i = .pollOutput
  · subst hpoll
    exact h.poll
  · have hsilent := step_silent hno hpoll
    have htakes : i.takes w.node = [] := by
      cases i with
      | pollOutput => exact absurd rfl hpoll
      | _ => rfl
    refine Act.wp_iff.2 ⟨fun u w' hrun => ?_, fun f w' hrun => ?_⟩
    · rw [watch] at hrun
      split at hrun
      · next n hstep =>
        cases hrun
        rw [htakes, List.append_nil]
        exact (Act.wp_ok hsilent hstep).watched h
      · cases hrun
    · rw [watch] at hrun
      split at hrun
      · cases hrun
      · next e n hstep =>
        cases hrun
        exact fun e he => (Act.wp_error hsilent hstep e he).watched h

instance decidableOffersLater (id : ChannelId) :
    ∀ (htlcs : List CommittedInboundHtlc) (n : Node E), Decidable (OffersLater id htlcs n)
  | [], _ => .isTrue trivial
  | htlc :: htlcs, n =>
    have : Decidable (∀ n', processCommittedHtlc id htlc n = .ok () n' → OffersLater id htlcs n') :=
      match processCommittedHtlc id htlc n with
      | .ok () n' =>
        have := decidableOffersLater id htlcs n'
        decidable_of_iff (OffersLater id htlcs n')
          ⟨fun h _ hn => (EStateM.Result.ok.inj hn).2 ▸ h, fun h => h n' rfl⟩
      | .error _ _ => .isTrue nofun
    inferInstanceAs (Decidable ((∀ x ∈ forwardOf E htlc, offersForward n htlc x.1 = false) ∧ _))

instance decidableUnreported (n : Node E) (peer : PeerId) :
    ∀ msg : Wire.Message, Decidable (Unreported n peer msg)
  | .updateFulfillHtlc ful => inferInstanceAs (Decidable (∀ e ∈ n.channels.lookup ful.channelId,
      ∀ htlc ∈ e.channel.findHtlc (true, ful.id), isForward htlc = false))
  | .revokeAndAck raa =>
    show Decidable (∀ outcome n', settleRevocation peer raa n = .ok outcome n' →
      OffersLater raa.channelId outcome.forwardable n') from
    match settleRevocation peer raa n with
    | .ok outcome n' => decidable_of_iff (OffersLater raa.channelId outcome.forwardable n')
        ⟨fun h _ _ hn => (EStateM.Result.ok.inj hn).1 ▸ (EStateM.Result.ok.inj hn).2 ▸ h,
          fun h => h outcome n' rfl⟩
    | .error _ _ => .isTrue nofun
  | .init _ | .commitmentSigned _ | .error _ | .warning _ | .ping _ | .pong _ | .openChannel _
  | .acceptChannel _ | .fundingCreated _ | .fundingSigned _ | .channelReady _ | .updateAddHtlc _
  | .updateFailHtlc _ | .updateFailMalformedHtlc _ | .updateFee _ | .shutdown _
  | .closingSigned _ | .channelReestablish _ | .announcementSignatures _ | .channelAnnouncement _
  | .channelUpdate _ | .nodeAnnouncement _ | .gossipTimestampFilter _ | .unknown .. => .isTrue trivial

end Node

namespace Demo

/-- An onion that node 2 forwards. -/
def relayedPacket : Onion.OnionPacket :=
  (Onion.construct C ⟨bytes 50⟩ [C.ecdh (C.publicKey ⟨bytes 50⟩) ⟨bytes 2⟩, bytes 51] [[1, 2], [3, 4]]
    (paymentHash C (bytes 3)).toList).toOption.get (by decide +kernel)

/-- Every onion is that one; it asks to forward four of the five million. -/
def relayEnv : Env :=
  { env with
    parseOnion := fun _ => some relayedPacket
    decodePayload := fun _ => some (.forward 4000000 60 5) }

/-- What the opener says until its HTLC is committed on both sides. -/
def widePays : List Wire.Message :=
  ((Run.exec (Pair.step C) ⟨wideAlice.1, wideBob.1, [.acceptChannel wideBob.2], []⟩
    (handshake ++ payment.take 7)).map
    fun r => r.1.flatMap fun x =>
      match x with
      | (.command .a _, .ok msgs) | (.deliver .a, .ok msgs) => msgs
      | _ => []).getD []

/-- Node 1 opens a channel and pays over it. -/
def relays : List (Node.Input relayEnv) :=
  [.connectOutbound (nodeKey 1),
    .peerInput 1 (.init ⟨[], Features.keraunosDefault, none⟩ :: .openChannel wideAlice.2 ::
      widePays.take 1 : List Wire.Message),
    .fundingConfirmed fundedId 5, .peerInput 1 (widePays.drop 1 : List Wire.Message)]

end Demo

namespace Node

end Node
