import Keraunos.Channel.Honest
import Keraunos.Channel.Ledger
import Keraunos.Channel.Proof.Counterparts
import Keraunos.Channel.Proof.Updates
import Keraunos.Lib.Lockstep

/-!
# What a call sends

`Deals C ch i ms ch'`: the input `i` takes the channel `ch` to `ch'` and puts the messages `ms` on the
link. What we send is an update (`Makes`) or a signature (`Speaks`, `Talks`); an update of the peer's is
taken (`Takes`); opening and closing leave the dance alone (`Aside`). `perform_deals` gives it for every
input while the connection lasts.
-/

open Bitcoin Commitment Lockstep

namespace Wire.Message

/-- The update a message makes. -/
def update? : Wire.Message → Option Update
  | .updateAddHtlc m => some (.add m.id m.amountMsat m.paymentHash m.cltvExpiry)
  | .updateFulfillHtlc m => some (.remove m.id (.fulfill m.paymentPreimage))
  | .updateFailHtlc m => some (.remove m.id (.fail m.reason))
  | .updateFailMalformedHtlc m => some (.remove m.id (.failMalformed m.sha256OfOnion m.failureCode))
  | .updateFee m => some (.fee m.feeratePerKw)
  | _ => none

/-- What a message is to the dance. -/
def beat? (m : Wire.Message) : Option (Beat Update) :=
  match m with
  | .commitmentSigned _ => some .sign
  | .revokeAndAck _ => some .revoke
  | m => m.update?.map .update

end Wire.Message

/-- What messages on a link are to the dance. -/
def beats (ms : List Wire.Message) : List (Beat Update) := ms.filterMap Wire.Message.beat?

@[simp] theorem beats_append (ms ms' : List Wire.Message) : beats (ms ++ ms') = beats ms ++ beats ms' :=
  List.filterMap_append

theorem beats_cons (m : Wire.Message) (ms : List Wire.Message) :
    beats (m :: ms) = m.beat?.toList ++ beats ms := by
  cases h : m.beat? <;> simp [beats, h]

/-- The preimage of a success is that of the HTLC. -/
def HtlcResolution.Suits (C : Crypto) (h : Htlc) : HtlcResolution → Prop
  | .fulfill preimage => paymentHash C preimage = h.paymentHash
  | .fail _ | .failMalformed .. => True

namespace Channel

variable {C : Crypto} {ch ch' ch'' : Channel}

/-- The update of the peer that an input brings. -/
def Input.update? : Input → Option Update
  | .updateAddHtlc m => some (.add m.id m.amountMsat m.paymentHash m.cltvExpiry)
  | .updateFulfillHtlc m => some (.remove m.id (.fulfill m.paymentPreimage))
  | .updateFailHtlc m => some (.remove m.id (.fail m.reason))
  | .updateFailMalformedHtlc m => some (.remove m.id (.failMalformed m.sha256OfOnion m.failureCode))
  | .updateFee m => some (.fee m.feeratePerKw)
  | _ => none

/-- The connection lasts. -/
def Input.Connected : Input → Prop
  | .disconnect | .channelReestablish _ => False
  | _ => True

/-! ## Updates and signatures -/

/-- An update of ours. -/
inductive Makes (C : Crypto) (ch : Channel) : Update → Channel → Prop
  | add {amountMsat : Msat} {paymentHash : PaymentHash} {cltvExpiry : Nat} {onion : List UInt8}
      {source : HtlcSource} : ch.awaitingRaa = false → ch.state = .normal →
      ch.validateOutboundAdd amountMsat cltvExpiry = .ok () →
      Makes C ch (.add ch.nextHolderHtlcId amountMsat paymentHash cltvExpiry)
        (ch.offer amountMsat paymentHash cltvExpiry onion source)
  | remove {id : HtlcId} {r : HtlcResolution} {h : Htlc} : ch.awaitingRaa = false →
      ch.inboundCommitted id = .ok h → r.Suits C h → Makes C ch (.remove id r) (ch.resolveInbound id r)
  | fee {feerate : FeeRatePerKw} : ch.awaitingRaa = false → ch.state = .normal → ch.role = .opener →
      253 ≤ feerate →
      Makes C ch (.fee feerate) { ch with feerateCounterparty := feerate, counterpartyDirty := true }

/-- An update of the peer's. -/
inductive Takes (ch : Channel) : Update → Channel → Prop
  | add {msg : Wire.UpdateAddHtlc} : ch.checkUpdateAddHtlc msg = .ok () →
      Takes ch (.add msg.id msg.amountMsat msg.paymentHash msg.cltvExpiry) (ch.receive msg)
  | remove {id : HtlcId} {r : HtlcResolution} {h : Htlc} : ch.outboundCommitted id = .ok h →
      Takes ch (.remove id r) (ch.resolveOutbound id r)
  | fee {feerate : FeeRatePerKw} : ch.role ≠ .opener →
      Takes ch (.fee feerate) { ch with feerateHolder := feerate, pendingFeeAck := some feerate }

theorem Makes.idle {u : Update} (h : Makes C ch u ch') : ch.awaitingRaa = false := by
  cases h with
  | add ha => exact ha
  | remove ha => exact ha
  | fee ha => exact ha

/-- An update or a signature of ours on the link. -/
inductive Speaks (C : Crypto) (ch : Channel) : Wire.Message → Channel → Prop
  | update {m : Wire.Message} {u : Update} {ch' : Channel} : m.update? = some u → Makes C ch u ch' →
      Speaks C ch m ch'
  | sign {m : Wire.CommitmentSigned} {point : PublicKey} {b : Built} : Signs C ch m point b →
      Speaks C ch (.commitmentSigned m) (ch.sign point b)

/-- A sequence of them. -/
inductive Talks (C : Crypto) : Channel → List Wire.Message → Channel → Prop
  | nil {ch : Channel} : Talks C ch [] ch
  | cons {ch ch' ch'' : Channel} {m : Wire.Message} {ms : List Wire.Message} : Speaks C ch m ch' →
      Talks C ch' ms ch'' → Talks C ch (m :: ms) ch''

namespace Talks

theorem one {m : Wire.Message} (h : Speaks C ch m ch') : Talks C ch [m] ch' := .cons h .nil

theorem append {ms ms' : List Wire.Message} (h : Talks C ch ms ch') (h' : Talks C ch' ms' ch'') :
    Talks C ch (ms ++ ms') ch'' := by
  induction h with
  | nil => exact h'
  | cons hs _ ih => exact .cons hs (ih h')

end Talks

theorem FlushesOp.talks {op : HoldingCellOp} {o : RaaOutcome} (ha : ch.awaitingRaa = false)
    (h : FlushesOp C ch op o ch') : Talks C ch o.messages ch' := by
  cases h with
  | offered hst hv => exact .one (.update rfl (.add ha hst hv))
  | fulfilled hx hp => exact .one (.update rfl (.remove ha hx hp))
  | failed hx => exact .one (.update rfl (.remove ha hx trivial))
  | failedMalformed hx => exact .one (.update rfl (.remove ha hx trivial))
  | refused | dropped => exact .nil

/-- What a flush sends, in order. -/
theorem FlushesOps.talks {ops : List HoldingCellOp} {os : List RaaOutcome}
    (h : FlushesOps C ch ops os ch') (ha : ch.awaitingRaa = false) :
    Talks C ch (os.flatMap (·.messages)) ch' := by
  induction h with
  | nil => exact .nil
  | cons hop _ ih =>
    rw [List.flatMap_cons]
    exact (hop.talks ha).append (ih (hop.frame.1.trans ha))

theorem MaySign.talks {cs : Option Wire.CommitmentSigned} (h : MaySign C ch cs ch') :
    Talks C ch (cs.map .commitmentSigned).toList ch' := by
  cases h with
  | none => exact .nil
  | some hs => exact .one (.sign hs)

/-! ## What is put aside -/

/-- The point of the peer's next commitment is kept, or `channel_ready` brings the first. -/
def KeepsNext (ch : Channel) (i : Input) (ch' : Channel) : Prop :=
  ch'.counterpartyNextPoint = ch.counterpartyNextPoint ∨
    ∃ msg, i = .channelReady msg ∧ ch.counterpartyCommitmentNumber = 0 ∧ ch.awaitingRaa = false ∧
      ch'.counterpartyNextPoint = some msg.secondPerCommitmentPoint

/-- The dance is left alone. -/
structure Aside (C : Crypto) (ch : Channel) (i : Input) (ch' : Channel) : Prop where
  moves : QuietMoves C ch ch'
  dance : ch'.dance = ch.dance
  next : KeepsNext ch i ch'

theorem Aside.rfl {i : Input} : Aside C ch i ch := ⟨.rfl, Eq.refl _, .inl (Eq.refl _)⟩

/-- What only the opening changes. -/
structure Charter extends Identity where
  obscureFactor : Nat

def charter (ch : Channel) : Charter := ⟨ch.identity, ch.obscureFactor⟩

/-- What only the opening and the dance change. -/
structure Standing extends Charter where
  holderCommitmentNumber : Nat
  currentHolderCommitment : Option HolderCommitment
  currentCounterpartyCommitment : Option CounterpartyCommitmentInfo
  counterpartyCurrentPoint : Option PublicKey

def standing (ch : Channel) : Standing :=
  ⟨ch.charter, ch.holderCommitmentNumber, ch.currentHolderCommitment, ch.currentCounterpartyCommitment,
    ch.counterpartyCurrentPoint⟩

theorem Quiet.standing (hq : Quiet C ch ch') (h : 2 ≤ ch.state.rank) : ch'.standing = ch.standing := by
  obtain ⟨hm, htaken⟩ := hq
  cases hm with
  | negotiate msg hcheck =>
    simp only [checkAcceptChannel, Fault.bind_eq_ok, Fault.require_eq_ok] at hcheck
    obtain ⟨_, hst, -⟩ := hcheck
    rw [hst] at h
    cases h
  | bind _ hrank => omega
  | storeInitial _ _ hst =>
    rcases hst with hst | hst <;> simp [hst, ChannelState.rank] at h
  | signInitial _ _ _ hrank => omega
  | revoke =>
    have hnum : ch.counterpartyCommitmentNumber + 1 = ch.counterpartyCommitmentNumber :=
      congrArg (·.2.1) htaken
    omega
  | _ => rfl

theorem QuietMoves.standing (hm : QuietMoves C ch ch') (h : 2 ≤ ch.state.rank) :
    2 ≤ ch'.state.rank ∧ ch'.standing = ch.standing := by
  refine hm.invariant (I := fun s => 2 ≤ s.state.rank ∧ s.standing = ch.standing) ?_ ⟨h, Eq.refl _⟩
  intro s s' hq hs
  exact ⟨Nat.le_trans hs.1 hq.1.rank, (hq.standing hs.1).trans hs.2⟩

/-! ## Calls -/

/-- What a call that succeeds makes of a channel, and what it sends. -/
inductive Deals (C : Crypto) (ch : Channel) : Input → List Wire.Message → Channel → Prop
  | aside {i : Input} {ms : List Wire.Message} {ch' : Channel} : i.Administrative → Aside C ch i ch' →
      beats ms = [] →
      (∀ m, .channelReady m ∈ ms → m.secondPerCommitmentPoint = ch.signer.perCommitmentPoint 1) →
      Deals C ch i ms ch'
  | parked {i : Input} (op : HoldingCellOp) : i.own = true → ch.awaitingRaa = true →
      Deals C ch i [] { ch with holdingCell := ch.holdingCell ++ [op] }
  | spoke {i : Input} {m : Wire.Message} {ch' : Channel} : i.own = true → Speaks C ch m ch' →
      Deals C ch i [m] ch'
  | heard {i : Input} {u : Update} {ch' : Channel} : i.update? = some u → Takes ch u ch' →
      Deals C ch i [] ch'
  | accepted (msg : Wire.CommitmentSigned) (b : Built) :
      ch.buildHolderCommitmentAt C (ch.holderCommitmentNumber + 1) = .ok b →
      Deals C ch (.commitmentSigned msg)
        [.revokeAndAck ⟨ch.channelId, ch.signer.releaseCommitmentSecret ch.holderCommitmentNumber,
          ch.signer.perCommitmentPoint (ch.holderCommitmentNumber + 2)⟩]
        (ch.acceptCommitment (ch.holderCommitmentNumber + 1) b msg).gcHtlcs
  | revoked (msg : Wire.RevokeAndAck) (pending : PendingCounterpartyCommitment)
      (secrets : Shachain.SecretStore) {ms : List Wire.Message} {ch' : Channel} :
      ch.awaitingRaa = true → ch.pendingCounterpartyCommitment = some pending →
      Talks C (ch.revoked pending secrets msg.nextPerCommitmentPoint) ms ch' →
      Deals C ch (.revokeAndAck msg) ms ch'

theorem Makes.charter {u : Update} (h : Makes C ch u ch') : ch'.charter = ch.charter := by
  cases h <;> rfl

theorem Talks.charter {ms : List Wire.Message} (h : Talks C ch ms ch') : ch'.charter = ch.charter := by
  induction h with
  | nil => rfl
  | cons hs _ ih =>
    refine ih.trans ?_
    cases hs with
    | update _ hm => exact hm.charter
    | sign _ => rfl

/-- No call changes what the opening fixed. -/
theorem Deals.charter {i : Input} {ms : List Wire.Message} (h : Deals C ch i ms ch')
    (hrank : 2 ≤ ch.state.rank) : ch'.charter = ch.charter := by
  cases h with
  | aside _ ha => exact congrArg Standing.toCharter (ha.moves.standing hrank).2
  | parked => rfl
  | spoke _ hs => exact (Talks.one hs).charter
  | heard _ ht => cases ht <;> rfl
  | accepted => rfl
  | revoked _ _ _ _ _ ht => exact ht.charter

/-- `x` deals, and a refused command changes nothing of the dance. -/
abbrev DealsBy (C : Crypto) (i : Input) {α : Type} (x : ChannelAct α) (send : α → List Wire.Message)
    (ch : Channel) : Prop :=
  x.wp ch (fun o ch' => Deals C ch i (send o) ch') fun _ ch' => i.own = true → Aside C ch i ch'

theorem sendRemoval_deals {M : Type} {wrap : M → Wire.Message} {msg : ChannelId → M} {id : HtlcId}
    {r : HtlcResolution} {i : Input} (hi : i.own = true)
    (hwrap : ∀ c, (wrap (msg c)).update? = some (.remove id r)) (op : HoldingCellOp)
    {check : Htlc → ChannelResult Unit} (hcheck : ∀ x, check x = .ok () → r.Suits C x) (ch : Channel) :
    DealsBy C i (sendRemoval op id r check msg) (fun m => (m.map wrap).toList) ch := by
  refine Act.wp_mono (sendRemoval_spec op id r check msg ch) ?_ fun _ _ heq _ => heq ▸ .rfl
  intro _ _ h
  rcases h with ⟨ha, rfl, rfl⟩ | ⟨ha, rfl, x, hx, hc, rfl⟩
  · exact .parked op hi ha
  · exact .spoke hi (.update (hwrap _) (.remove ha hx (hcheck x hc)))

theorem onRemoval_deals {id : HtlcId} {r : HtlcResolution} {i : Input} (hown : i.own = false)
    (hi : i.update? = some (.remove id r)) (check : Htlc → ChannelResult Unit) (ch : Channel) :
    DealsBy C i (onRemoval id r check) (fun _ => []) ch := by
  refine Act.wp_mono (onRemoval_spec id r check ch) ?_ fun _ _ _ hi' => by cases hown.symm.trans hi'
  intro _ _ h
  obtain ⟨x, hx, -, -, -, rfl⟩ := h
  exact .heard hi (.remove hx)

theorem KeepsBooks.next {α : Type} {x : ChannelAct α} {i : Input} (h : KeepsBooks x ch ch) :
    x.wp ch (fun _ ch' => KeepsNext ch i ch') fun _ ch' => KeepsNext ch i ch' :=
  Act.wp_mono h (fun _ _ h => .inl (congrArg Channel.counterpartyNextPoint h :))
    fun _ _ h => .inl (congrArg Channel.counterpartyNextPoint h :)

theorem administrative_next {i : Input} (hi : i.Administrative) (ch : Channel) :
    (perform C i).wp ch (fun _ ch' => KeepsNext ch i ch') fun _ ch' => KeepsNext ch i ch' := by
  have hsign : ∀ s : Channel, s.counterpartyNextPoint = ch.counterpartyNextPoint →
      (signInitialCounterpartyCommitment C).wp s
        (fun _ ch' => ch'.counterpartyNextPoint = ch.counterpartyNextPoint)
        fun _ ch' => KeepsNext ch i ch' := by
    intro s hs
    refine Act.wp_mono (signInitialCounterpartyCommitment_spec s) (fun _ _ h => ?_)
      fun _ _ heq => heq ▸ .inl hs
    obtain ⟨_, _, -, -, rfl⟩ := h
    exact hs
  have hstore : ∀ (sig : Signature) (s : Channel), s.counterpartyNextPoint = ch.counterpartyNextPoint →
      (storeInitialHolderCommitment C sig).wp s
        (fun _ ch' => ch'.counterpartyNextPoint = ch.counterpartyNextPoint)
        fun _ ch' => KeepsNext ch i ch' := by
    intro sig s hs
    refine Act.wp_mono (storeInitialHolderCommitment_spec sig s) (fun _ _ h => ?_)
      fun _ _ heq => heq ▸ .inl hs
    obtain ⟨_, -, -, rfl⟩ := h
    exact hs
  cases i with
  | acceptChannel msg =>
    simp only [perform, onAcceptChannel, Act.wp_bind, Act.wp_get, Act.wp_lift, Act.wp_set]
    exact ⟨fun _ _ => .inl rfl, fun _ _ => .inl rfl⟩
  | createFunding txid index =>
    simp only [perform, fundingCreated, Act.wp_bind, Act.wp_get, Act.wp_lift, Act.wp_set, Act.wp_modify,
      Act.wp_pure]
    exact ⟨fun _ _ => ⟨fun _ _ => Act.wp_mono (hsign _ rfl) (fun _ _ h => .inl h) fun _ _ h => h,
      fun _ _ => .inl rfl⟩, fun _ _ => .inl rfl⟩
  | fundingCreated msg =>
    simp only [perform, onFundingCreated, Act.wp_bind, Act.wp_get, Act.wp_lift, Act.wp_set,
      Act.wp_modify, Act.wp_pure]
    exact ⟨fun _ _ => Act.wp_mono (hstore _ _ rfl) (fun _ s h => Act.wp_mono (hsign s h)
      (fun _ _ h => .inl h) fun _ _ h => h) fun _ _ h => h, fun _ _ => .inl rfl⟩
  | fundingSigned msg =>
    simp only [perform, onFundingSigned, Act.wp_bind, Act.wp_get, Act.wp_lift, Act.wp_modify]
    exact ⟨fun _ _ => ⟨fun _ _ => Act.wp_mono (hstore _ _ rfl) (fun _ _ h => .inl h) fun _ _ h => h,
      fun _ _ => .inl rfl⟩, fun _ _ => .inl rfl⟩
  | channelReady msg =>
    simp only [perform, onChannelReady, Act.wp_bind, Act.wp_get, Act.wp_lift, Act.wp_ite, Act.wp_set,
      Act.wp_pure]
    refine ⟨fun _ _ => ⟨fun _ => .inl rfl, fun hno => .inr ⟨msg, rfl, ?_⟩⟩, fun _ _ => .inl rfl⟩
    obtain ⟨hnum, ha⟩ := not_or.1 hno
    exact ⟨by omega, by simpa using ha,
      (congrArg Channel.counterpartyNextPoint (maybeBecomeNormal_books _) :)⟩
  | channelReestablish msg =>
    simp only [perform, Act.wp_bind, Act.wp_get, Act.wp_lift]
    exact ⟨fun _ _ => .inl rfl, fun _ _ => .inl rfl⟩
  | confirmFunding scid => exact (confirmFunding_books scid ch).next
  | sendShutdown script => exact (sendShutdown_books script ch).next
  | shutdown msg ours => exact (onShutdown_books msg ours ch).next
  | maybeSendClosingSigned feerate => exact (maybeSendClosingSigned_books feerate ch).next
  | closingSigned msg feerate => exact (onClosingSigned_books msg feerate ch).next
  | _ => exact hi.elim

theorem confirmFunding_point (scid : ShortChannelId) (ch : Channel) :
    Act.wp (confirmFunding scid) ch
      (fun o _ => ∀ m ∈ o, m.secondPerCommitmentPoint = ch.signer.perCommitmentPoint 1)
      fun _ _ => True := by
  simp only [confirmFunding, Act.wp_bind, Act.wp_get, Act.wp_lift, Act.wp_ite, Act.wp_set, Act.wp_pure]
  exact ⟨fun _ _ => ⟨fun _ => by simp, fun _ => by simp⟩, fun _ _ => trivial⟩

/-- Opening and closing send nothing of the dance. -/
theorem administrative_deals {i : Input} (hi : i.Administrative) (hc : i.Connected) (ch : Channel) :
    DealsBy C i (perform C i) i.toSend ch := by
  have hq : i.Quiet := by cases i <;> first | exact trivial | exact hi.elim
  have haside : (perform C i).wp ch (fun _ ch' => Aside C ch i ch') fun _ ch' => Aside C ch i ch' :=
    Act.wp_mono (Act.wp_and (Act.wp_and (perform_quiet (C := C) hq ch) (perform_dance hi ch))
      (administrative_next hi ch)) (fun _ _ h => ⟨h.1.1, h.1.2, h.2⟩) fun _ _ h => ⟨h.1.1, h.1.2, h.2⟩
  cases i with
  | confirmFunding scid =>
    refine Act.wp_mono (Act.wp_and haside (confirmFunding_point scid ch)) (fun o _ h => .aside hi h.1 ?_ ?_)
      fun _ _ h _ => h.1
    · cases o <;> rfl
    · intro m hm
      cases o with
      | none => cases hm
      | some m' =>
        obtain rfl : m = m' := by simpa [Input.toSend] using hm
        exact h.2 m rfl
  | channelReestablish => exact hc.elim
  | shutdown | maybeSendClosingSigned | closingSigned =>
    refine Act.wp_mono haside (fun o _ h => .aside hi h ?_ ?_) fun _ _ h _ => h
    · cases o <;> rfl
    · intro m hm
      cases o <;> simp [Input.toSend, ClosingSignedOutcome.toSend] at hm
  | _ =>
    first
    | exact hi.elim
    | exact Act.wp_mono haside (fun _ _ h => .aside hi h rfl (by simp [Input.toSend])) fun _ _ h _ => h

/-- Every call of a connected channel. -/
theorem perform_deals {i : Input} (hc : i.Connected) (ch : Channel) :
    DealsBy C i (perform C i) i.toSend ch := by
  by_cases hadm : i.Administrative
  · exact administrative_deals hadm hc ch
  cases i with
  | sendAddHtlc amount hash cltv onion source =>
    refine Act.wp_mono (sendAddHtlc_spec amount hash cltv onion source ch) ?_
      fun _ _ heq _ => heq ▸ .rfl
    intro _ _ h
    rcases h with ⟨ha, rfl, rfl⟩ | ⟨ha, hst, hv, rfl, rfl⟩
    · exact .parked _ rfl ha
    · exact .spoke rfl (.update rfl (.add ha hst hv))
  | sendFulfillHtlc id preimage =>
    show DealsBy C (.sendFulfillHtlc id preimage) (sendFulfillHtlc C id preimage) (fun m => (m.map Wire.Message.updateFulfillHtlc).toList) ch
    refine sendRemoval_deals rfl ?_ _ ?_ ch
    · exact fun _ => rfl
    · intro _ h
      exact (Fault.require_eq_ok.1 h :)
  | sendFailHtlc id reason =>
    show DealsBy C (.sendFailHtlc id reason) (sendFailHtlc id reason) (fun m => (m.map Wire.Message.updateFailHtlc).toList) ch
    refine sendRemoval_deals rfl ?_ _ ?_ ch
    · exact fun _ => rfl
    · exact fun _ _ => trivial
  | sendFailMalformedHtlc id sha code =>
    show DealsBy C (.sendFailMalformedHtlc id sha code) (sendFailMalformedHtlc id sha code) (fun m => (m.map Wire.Message.updateFailMalformedHtlc).toList) ch
    refine sendRemoval_deals rfl ?_ _ ?_ ch
    · exact fun _ => rfl
    · exact fun _ _ => trivial
  | sendUpdateFee feerate =>
    simp only [DealsBy, perform, sendUpdateFee, Act.wp_bind, Act.wp_get, Act.wp_lift, Act.wp_set,
      Act.wp_pure, Fault.require_eq_ok]
    refine ⟨fun _ hr => ⟨fun _ hst => ⟨fun _ ha => ⟨fun _ hf => ?_, fun _ _ _ => .rfl⟩,
      fun _ _ _ => .rfl⟩, fun _ _ _ => .rfl⟩, fun _ _ _ => .rfl⟩
    exact .spoke rfl (.update rfl (.fee (by simpa using ha) hst hr hf))
  | sendCommitmentSigned =>
    refine Act.wp_mono (sendCommitmentSigned_signs ch) ?_ fun _ _ heq _ => heq ▸ .rfl
    intro m _ h
    obtain ⟨point, b, hs, rfl⟩ := h
    exact .spoke rfl (.sign hs)
  | updateAddHtlc msg =>
    simp only [DealsBy, perform, onUpdateAddHtlc, Act.wp_bind, Act.wp_get, Act.wp_lift, Act.wp_set]
    exact ⟨fun _ hok => .heard rfl (.add hok), fun _ _ hi => by cases hi⟩
  | updateFulfillHtlc msg => exact onRemoval_deals rfl rfl _ ch
  | updateFailHtlc msg => exact onRemoval_deals rfl rfl _ ch
  | updateFailMalformedHtlc msg =>
    simp only [DealsBy, perform, onUpdateFailMalformedHtlc, Act.wp_bind, Act.wp_lift]
    exact ⟨fun _ _ => onRemoval_deals rfl rfl _ ch, fun _ _ hi => by cases hi⟩
  | updateFee msg =>
    simp only [DealsBy, perform, onUpdateFee, Act.wp_bind, Act.wp_get, Act.wp_lift, Act.wp_set,
      Fault.require_eq_ok]
    exact ⟨fun _ hr => ⟨fun _ _ => ⟨fun _ _ => .heard rfl (.fee hr), fun _ _ hi => by cases hi⟩,
      fun _ _ hi => by cases hi⟩, fun _ _ hi => by cases hi⟩
  | commitmentSigned msg =>
    refine Act.wp_mono (onCommitmentSigned_spec msg ch) ?_ fun _ _ _ hi => by cases hi
    intro m _ h
    obtain ⟨b, -, hb, -, -, rfl, rfl⟩ := h
    exact .accepted msg b hb
  | revokeAndAck msg =>
    refine Act.wp_mono (onRevokeAndAck_spec msg ch) ?_ fun _ _ _ hi => by cases hi
    intro o ch' h
    obtain ⟨pending, secrets, os, ch₁, ha, hp, hos, hcs, hmsgs, -⟩ := h
    have hsign := (Act.wp_ok (maybeSendCommitmentSigned_signs ch₁) hcs).talks
    refine .revoked msg pending secrets ha hp ?_
    show Talks C _ (o.messages ++ _) ch'
    rw [hmsgs]
    exact (hos.talks rfl).append hsign
  | disconnect | channelReestablish => exact hc.elim
  | _ => exact absurd trivial hadm

end Channel
