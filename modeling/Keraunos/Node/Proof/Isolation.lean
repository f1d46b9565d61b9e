import Keraunos.Node.Proof.Steps

/-!
# What a peer can do to the channels of others

A message from the node `K` concerns the channels of `K`: the others keep all but their pending
HTLCs, and none of them is closed (`Isolates`). `withChannel` sees to it. The handler of `error`
asks nobody whose channel it closes, and `open_channel` and `funding_created` enter a channel under
a key of the peer's choice; `Spares` says that a message does none of this to the channel of another
node.
-/

open Bitcoin

namespace Channel

/-- A channel without its pending updates: what passing HTLCs on does not touch. -/
def core (ch : Channel) : Channel :=
  { ch with
    htlcs := []
    nextHolderHtlcId := 0
    counterpartyDirty := false
    holdingCell := []
    pendingCounterpartyCommitment := none
    awaitingRaa := false
    signed := [] }

/-- The action touches only the pending updates. -/
abbrev KeepsCore {α : Type} (x : ChannelAct α) (ch : Channel) : Prop :=
  Act.wp x ch (fun _ ch' => ch'.core = ch.core) (fun _ ch' => ch'.core = ch.core)

section
variable {C : Crypto}

/-- A removal touches only the pending updates. -/
theorem sendRemoval_core {M : Type} (op : HoldingCellOp) (id : HtlcId) (r : HtlcResolution)
    (check : Htlc → ChannelResult Unit) (msg : ChannelId → M) (ch : Channel) :
    KeepsCore (sendRemoval op id r check msg) ch := by
  refine Act.wp_mono (sendRemoval_spec op id r check msg ch) ?_ ?_
  · rintro _ _ (⟨-, -, rfl⟩ | ⟨-, -, _, -, -, rfl⟩) <;> rfl
  · rintro _ _ rfl
    rfl

/-- Passing HTLCs on touches only the pending updates. -/
theorem relays_core {i : Input} (hi : Node.Relays i) (ch : Channel) : KeepsCore (perform C i) ch := by
  cases i with
  | sendAddHtlc amountMsat paymentHash cltvExpiry onion source =>
    refine Act.wp_mono (sendAddHtlc_spec amountMsat paymentHash cltvExpiry onion source ch) ?_ ?_
    · rintro _ _ (⟨-, -, rfl⟩ | ⟨-, -, -, -, rfl⟩) <;> rfl
    · rintro _ _ rfl
      rfl
  | sendFulfillHtlc id preimage =>
    show KeepsCore (sendFulfillHtlc C id preimage) ch
    exact sendRemoval_core _ _ _ _ _ ch
  | sendFailHtlc id reason =>
    show KeepsCore (sendFailHtlc id reason) ch
    exact sendRemoval_core _ _ _ _ _ ch
  | sendFailMalformedHtlc id sha code =>
    show KeepsCore (sendFailMalformedHtlc id sha code) ch
    exact sendRemoval_core _ _ _ _ _ ch
  | sendCommitmentSigned =>
    refine Act.wp_mono (sendCommitmentSigned_spec ch) ?_ ?_
    · rintro _ _ ⟨point, b, sig, sigs, -, -, -, -, -, -, -, rfl⟩
      rfl
    · rintro _ _ rfl
      rfl
  | _ => exact hi.elim

/-- The channel awaits `funding_created`, the peer's signature is good, and commitment 0 of the peer
can be signed. -/
structure Fundable (C : Crypto) (ch : Channel) (msg : Wire.FundingCreated) : Prop where
  awaits : ch.state = .acceptSent
  verifies : ch.FundingVerifies C msg
  signs : ∃ point b, ch.counterpartyCurrentPoint = some point ∧
    (ch.bound msg).buildCounterpartyCommitmentAt C 0 point = .ok b

theorem Fundable.counterparty {ch : Channel} {msg : Wire.FundingCreated} (h : Fundable C ch msg) :
    ∃ cp, ch.counterpartyPubkeys = some cp := by
  obtain ⟨b, hb, -⟩ := Fault.bind_eq_ok.1 h.verifies
  simp only [bound, buildHolderCommitmentAt, Channel.counterparty, Fault.bind_eq_ok,
    Fault.okOr_eq_ok] at hb
  exact ⟨_, hb.choose_spec.1⟩

/-- `on_funding_created` accepts exactly then. -/
theorem onFundingCreated_ok_iff (ch : Channel) (msg : Wire.FundingCreated) :
    (∃ reply ch', onFundingCreated C msg ch = .ok reply ch') ↔ Fundable C ch msg := by
  constructor
  · rintro ⟨reply, ch', hrun⟩
    have hspec : Act.wp (onFundingCreated C msg) ch (fun _ _ => Fundable C ch msg)
        (fun _ _ => True) := by
      simp only [onFundingCreated, storeInitialHolderCommitment, Act.wp_bind, Act.wp_get, Act.wp_lift,
        Act.wp_set, Act.wp_modify, Act.wp_pure, Fault.require_eq_ok]
      refine ⟨fun _ hst => ⟨fun b hb => ⟨fun _ hv => ?_, fun _ _ => trivial⟩, fun _ _ => trivial⟩,
        fun _ _ => trivial⟩
      refine Act.wp_mono (signInitialCounterpartyCommitment_spec _) ?_ fun _ _ _ => trivial
      rintro _ _ ⟨point, b', hp, hb', -⟩
      exact ⟨hst, Fault.bind_eq_ok.2 ⟨b, hb, hv⟩, point, b', hp, hb'⟩
    have hf := Act.wp_ok hspec hrun
    exact hf
  · intro h
    obtain ⟨cp, hcp⟩ := h.counterparty
    obtain ⟨point, b', hp, hb'⟩ := h.signs
    obtain ⟨b, hb, hv⟩ := Fault.bind_eq_ok.1 h.verifies
    have hspec : Act.wp (onFundingCreated C msg) ch (fun _ _ => True) (fun _ _ => False) := by
      simp only [onFundingCreated, storeInitialHolderCommitment, signInitialCounterpartyCommitment,
        Act.wp_bind, Act.wp_get, Act.wp_lift, Act.wp_set, Act.wp_modify, Act.wp_pure, Act.wp_expect]
      refine ⟨fun _ _ => ⟨fun b₁ hb₁ => ⟨fun _ _ => ⟨fun point₁ hp₁ => ⟨fun b₂ hb₂ => ⟨fun _ _ => trivial,
        fun e he => ?_⟩, fun e he => ?_⟩, fun hnone => ?_⟩, fun e he => ?_⟩, fun e he => ?_⟩, fun e he => ?_⟩
      · obtain ⟨sig, hsig⟩ := signCounterpartyCommitmentTx_ok (C := C) { ch.bound msg with
          currentHolderCommitment := some ⟨0, b₁.built, msg.signature, [], b₁.htlcs, b₁.keys,
            ch.feerateHolder⟩ } b₂.built hcp
        cases hsig.symm.trans he
      · obtain rfl := Option.some.inj (hp.symm.trans hp₁)
        cases hb'.symm.trans he
      · cases hp.symm.trans hnone
      · obtain rfl := Except.ok.inj (hb.symm.trans hb₁)
        cases hv.symm.trans he
      · cases hb.symm.trans he
      · rw [h.awaits] at he
        cases he
    obtain ⟨reply, ch', hrun, -⟩ := Act.wp_total hspec
    exact ⟨reply, ch', hrun⟩

end

end Channel

namespace Node

variable {E : Env}

/-! ## Isolation -/

/-- What was recorded between two states of a node. -/
def news (n n' : Node E) : List Happening := n'.history.drop n.history.length

/-- An output that is about no channel of another node than `K`: a transaction that is broadcast is
one of a channel of `K`. -/
def Concerns (K : PublicKey) (n n' : Node E) : Output E.Data → Prop
  | .broadcast tx => ∃ e, e.nodeId = K ∧ (.published e tx ∈ news n n' ∨
      .forceClosed e ∈ news n n' ∧ e.channel.signedHolderCommitmentTx E.C = .ok tx)
  | .event (.channelClosed id _ _) => ∀ e, n.channels.lookup id = some e → e.nodeId = K
  | _ => True

/-- The channels of other nodes than `K` stay where they are and keep all but their pending
updates. -/
def KeepsOthers (K : PublicKey) (n n' : Node E) : Prop :=
  ∀ id e, n.channels.lookup id = some e → e.nodeId ≠ K →
    ∃ e', n'.channels.lookup id = some e' ∧ e'.nodeId = e.nodeId ∧ e'.serial = e.serial ∧
      e'.channel.core = e.channel.core

/-- Between `n` and `n'` no channel of another node than `K` was closed or touched. -/
structure Isolates (K : PublicKey) (n n' : Node E) : Prop where
  history : n.history <+: n'.history
  closes : ∀ e, .forceClosed e ∈ news n n' → e.nodeId = K
  outputs : Emits (Concerns K n n') n n'
  channels : KeepsOthers K n n'

/-- What may be recorded while a message of `K` is handled. -/
def IsolationRule (K : PublicKey) (n : Node E) : Happening → Prop
  | .acted e i _ => e.nodeId = K ∨ Relays i
  | .forceClosed e | .published e _ => e.nodeId = K
  | .opened _ id | .rekeyed _ _ id => ∀ e, n.channels.lookup id = some e → e.nodeId = K
  | .polled => False
  | _ => True

section
variable {K : PublicKey} {n m m' : Node E}

theorem news_append {l : List Happening} (hp : n.history <+: m.history)
    (h : m'.history = m.history ++ l) : news n m' = news n m ++ l := by
  rw [news, news, h, List.drop_append_of_le_length hp.length_le]

theorem Isolates.rfl : Isolates K n n :=
  ⟨List.prefix_refl _, fun e he => by simp [news] at he, .of_eq (.refl _),
    fun _ e he _ => ⟨e, he, .refl _, .refl _, .refl _⟩⟩

theorem Concerns.mono {l : List Happening} (hp : n.history <+: m.history)
    (h : m'.history = m.history ++ l) {o : Output E.Data} (ho : Concerns K n m o) :
    Concerns K n m' o := by
  have hsub : ∀ x ∈ news n m, x ∈ news n m' := fun x hx => by
    rw [news_append hp h]
    exact List.mem_append_left _ hx
  cases o with
  | broadcast tx =>
    obtain ⟨e, hK, hrec | ⟨hrec, htx⟩⟩ := ho
    · exact ⟨e, hK, .inl (hsub _ hrec)⟩
    · exact ⟨e, hK, .inr ⟨hsub _ hrec, htx⟩⟩
  | event ev => cases ev <;> exact ho
  | _ => trivial

theorem Plain.concerns {o : Output E.Data} (ho : Plain o) : Concerns K n m o := by
  cases o with
  | broadcast tx => exact ho.elim
  | event ev => cases ev <;> first | exact ho.elim | trivial
  | _ => trivial

/-- One more step that isolates. -/
theorem Isolates.step {l : List Happening} (h : Isolates K n m) (hh : m'.history = m.history ++ l)
    (hclose : ∀ e, .forceClosed e ∈ l → e.nodeId = K) (ho : Emits (Concerns K n m') m m')
    (hc : KeepsOthers K m m') : Isolates K n m' where
  history := h.history.trans ⟨l, hh.symm⟩
  closes e he := by
    rw [news_append h.history hh] at he
    rcases List.mem_append.1 he with he | he
    · exact h.closes e he
    · exact hclose e he
  outputs := (h.outputs.mono fun _ => Concerns.mono h.history hh).trans ho
  channels id e he hne := by
    obtain ⟨e₁, he₁, hn₁, hs₁, hc₁⟩ := h.channels id e he hne
    obtain ⟨e₂, he₂, hn₂, hs₂, hc₂⟩ := hc id e₁ he₁ (hn₁ ▸ hne)
    exact ⟨e₂, he₂, hn₂.trans hn₁, hs₂.trans hs₁, hc₂.trans hc₁⟩

/-- The channel under this key is one of `K`, and was before. -/
theorem Isolates.ours {id : ChannelId} {e : ChannelEntry} (h : Isolates K n m)
    (he : m.channels.lookup id = some e) (hK : e.nodeId = K) :
    ∀ e₀, n.channels.lookup id = some e₀ → e₀.nodeId = K := by
  intro e₀ he₀
  by_contra hne
  obtain ⟨e₁, he₁, hn₁, -⟩ := h.channels id e₀ he₀ hne
  obtain rfl := Option.some.inj (he.symm.trans he₁)
  exact hne (hn₁.symm.trans hK)

theorem KeepsOthers.of_channels (h : m'.channels = m.channels) : KeepsOthers K m m' :=
  fun _ e he _ => ⟨e, h ▸ he, .refl _, .refl _, .refl _⟩

/-- The entry under `id` is replaced by one of the same core, or it is one of `K`. -/
theorem KeepsOthers.of_insert {id : ChannelId} {e : ChannelEntry} (e' : ChannelEntry)
    (he : m.channels.lookup id = some e) (hn : e'.nodeId = e.nodeId) (hs : e'.serial = e.serial)
    (hcore : e.nodeId ≠ K → e'.channel.core = e.channel.core)
    (hc : m'.channels = m.channels.insert id e') : KeepsOthers K m m' := by
  intro k x hx hne
  by_cases hk : k = id
  · subst hk
    obtain rfl := Option.some.inj (hx.symm.trans he)
    exact ⟨e', by rw [hc, AList.lookup_insert], hn, hs, hcore hne⟩
  · exact ⟨x, by rw [hc, AList.lookup_insert_ne hk]; exact hx, rfl, rfl, rfl⟩

/-- Under the rule every move isolates. -/
theorem Move.isolates (hm : Move (IsolationRule K) m m') (h : Isolates K n m) : Isolates K n m' := by
  have hcalm : ∀ l, m'.history = m.history ++ l → (∀ e, .forceClosed e ∉ l) → Calm m m' →
      KeepsOthers K m m' → Isolates K n m' := fun l hh hl hc hch =>
    h.step hh (fun e he => absurd he (hl e)) (hc.outputs.mono fun _ => Plain.concerns) hch
  cases hm with
  | idle hc hh hcm => exact hcalm [] (by simpa using hh) (fun _ => List.not_mem_nil) hcm (.of_channels hc)
  | link hc hh _ ho _ =>
    exact h.step (l := []) (by simpa using hh) (fun _ he => absurd he List.not_mem_nil) (ho.mono fun _ => Plain.concerns) (.of_channels hc)
  | edit id e e' he hch hn hs hc hh hcm =>
    exact hcalm [] (by simpa using hh) (fun _ => List.not_mem_nil) hcm
      (.of_insert e' he hn hs (fun _ => by rw [hch]) hc)
  | act id e i a ch he _ hrun hc hh hcm hP =>
    refine hcalm _ hh (by simp) hcm (.of_insert { e with channel := ch } he rfl rfl (fun hne => ?_) hc)
    have hcore := Act.wp_ok (Channel.relays_core (hP.resolve_left hne) e.channel) hrun
    exact hcore
  | refuse id e i err ch he hrun hc hh hcm hP =>
    refine hcalm _ hh (by simp) hcm (.of_insert { e with channel := ch } he rfl rfl (fun hne => ?_) hc)
    have hcore := Act.wp_error (Channel.relays_core (hP.resolve_left hne) e.channel) hrun
    exact hcore
  | spoke _ _ _ hc hh hcm => exact hcalm _ hh (by simp) hcm (.of_channels hc)
  | failedBack _ hc hh hcm => exact hcalm _ hh (by simp) hcm (.of_channels hc)
  | ordered _ hc hh hcm => exact hcalm _ hh (by simp) hcm (.of_channels hc)
  | forceClosed id e tx reason he htx hc hh ho _ _ hP =>
    refine h.step hh (fun x hx => ?_) (.two ho ?_ ?_) (.of_channels hc)
    · obtain rfl := Happening.forceClosed.inj (List.mem_singleton.1 hx)
      exact hP
    · refine ⟨e, hP, .inr ⟨?_, htx⟩⟩
      rw [news_append h.history hh]
      exact List.mem_append_right _ (List.mem_singleton_self _)
    · exact h.ours he hP
  | published id e e' tx he hn _ hc hh ho _ _ hP =>
    refine h.step hh (by simp) (ho.mono fun o ho => ?_) (.of_channels hc)
    rcases ho with ho | rfl | ⟨reason, txid, rfl⟩
    · exact ho.concerns
    · refine ⟨e, hP, .inl ?_⟩
      rw [news_append h.history hh]
      exact List.mem_append_right _ (List.mem_singleton_self _)
    · exact h.ours he (hn.trans hP)
  | opened id e _ _ _ hc hh hcm hP =>
    refine hcalm _ hh (by simp) hcm fun k x hx hne => ?_
    have hk : k ≠ id := by
      rintro rfl
      exact hne (hP x hx)
    exact ⟨x, by rw [hc, AList.lookup_insert_ne hk]; exact hx, rfl, rfl, rfl⟩
  | fund id e e' i a ch he hi _ _ _ _ hlook hh hcm hP hrekey =>
    refine hcalm _ hh (by simp) hcm fun k x hx hne => ?_
    have hid : k ≠ id := by
      rintro rfl
      obtain rfl := Option.some.inj (hx.symm.trans he)
      exact hne (hP.resolve_right fun hr => hr.not_funds hi)
    have hnew : k ≠ ch.channelId := by
      rintro rfl
      exact hne (hrekey x hx)
    exact ⟨x, by rw [hlook, if_neg hnew, if_neg hid]; exact hx, rfl, rfl, rfl⟩
  | polled _ _ _ _ _ hP => exact hP.elim

theorem Moves.isolates (hm : Moves (IsolationRule K) n m) : Isolates K n m :=
  hm.invariant (I := Isolates K n) (fun _ _ hm h => hm.isolates h) .rfl

end

/-! ## The messages that isolate -/

/-- The message does not reach a channel of another node than `K`: an `error` names none whose
commitment can be broadcast, an `open_channel` that is accepted takes no key of one, and neither
does a `funding_created` that is accepted. -/
def Spares (n : Node E) (K : PublicKey) (peer : PeerId) : Wire.Message → Prop
  | .error msg => msg.channelId ≠ zeroChannelId → ∀ e, n.channels.lookup msg.channelId = some e →
      (∃ tx, e.channel.signedHolderCommitmentTx E.C = .ok tx) → e.nodeId = K
  | .openChannel msg => n.config.acceptInbound = true →
      Channel.checkOpenChannel n.config.channel n.config.network msg = .ok () →
      ∀ e, n.channels.lookup msg.temporaryChannelId = some e → e.nodeId = K
  | .fundingCreated msg => ∀ e, n.channels.lookup msg.temporaryChannelId = some e →
      n.byNodeId.lookup e.nodeId = some peer → Channel.Fundable E.C e.channel msg →
      ∀ e', n.channels.lookup (channelIdFromFunding msg.fundingTxid msg.fundingOutputIndex) =
        some e' → e'.nodeId = K
  | _ => True

section
variable {K : PublicKey} {n : Node E} {peer : PeerId} {p : Peer E}

/-- The index leads from a channel to a connection of its node. -/
theorem Linked.owner (hl : Linked n) (hp : n.peers.lookup peer = some p) (hK : p.nodeId = some K)
    {k : PublicKey} (hk : n.byNodeId.lookup k = some peer) : k = K := by
  obtain ⟨q, hq, hqk⟩ := hl.index k peer hk
  obtain rfl := Option.some.inj (hp.symm.trans hq)
  exact Option.some.inj (hqk.symm.trans hK)

theorem Spares.allows {msg : Wire.Message} (h : Spares n K peer msg) (hl : Linked n)
    (hp : n.peers.lookup peer = some p) (hK : p.nodeId = some K) :
    Allows (IsolationRule K) n peer msg where
  requests id i _ :=
    ⟨fun e r _ hb _ => .inl (hl.owner hp hK hb), fun _ e _ ch tx _ hb _ _ _ _ => hl.owner hp hK hb⟩
  follows id i _ n' e e' _ hb hn _ :=
    ⟨fun _ _ => .inl (hn.trans (hl.owner hp hK hb)), fun _ => hn.trans (hl.owner hp hK hb)⟩
  errors m hm hne e tx he htx := by
    subst hm
    exact h hne e he ⟨tx, htx⟩
  opens m hm haccept _ hcheck n' hn' e he := by
    subst hm
    exact h haccept hcheck e (hn' ▸ he)
  rekeys m hm e reply ch he hb hrun e' he' := by
    subst hm
    exact h e he hb ((Channel.onFundingCreated_ok_iff _ _).1 ⟨reply, ch, hrun⟩) e' he'
  fails _ _ _ _ _ _ _ _ _ _ _ := trivial
  failsMalformed _ _ _ _ _ _ _ _ _ _ _ := trivial
  drops m _ n' e r he := by
    rw [hp, Option.bind_some, hK] at he
    exact .inl (Option.some.inj he).symm

theorem handleMessage_isolates {msg : Wire.Message} (h : Spares n K peer msg) (hl : Linked n)
    (hp : n.peers.lookup peer = some p) (hK : p.nodeId = some K) :
    Act.Ends (handleMessage peer msg) n (Isolates K n) :=
  (handleMessage_moves (fun _ _ _ _ hi => .inr hi) (fun _ _ _ => trivial)
    (h.allows hl hp hK)).mono fun _ hm => hm.isolates

/-! ## The messages that do not -/

/-- Sending fails or not, but it does not panic. -/
theorem sendToPeer_fails (peer : PeerId) (msg : Wire.Message) :
    Act.wp (sendToPeer peer msg) n (fun _ n' => Unchanged n n')
      (fun e n' => (∃ e', e = .err e') ∧ Unchanged n n') := by
  have hfault : Act.wp (sendToPeer peer msg) n (fun _ _ => True)
      (fun e _ => ∃ e', e = .err e') := by
    simp only [sendToPeer, Act.wp_bind, Act.wp_get, Act.wp_okOr, setPeer, Act.wp_modify]
    refine ⟨fun p _ => ?_, fun _ => ⟨_, rfl⟩⟩
    split
    · exact ⟨_, rfl⟩
    · trivial
  refine Act.wp_mono (Act.wp_and (sendToPeer_quiet peer msg) hfault) (fun _ _ h => h.1) ?_
  · rintro _ n' ⟨hq, e', rfl⟩
    exact ⟨⟨e', rfl⟩, hq e' rfl⟩

theorem sendFor_fails (entry : ChannelEntry) (msg : Wire.Message) :
    Act.wp (sendFor entry msg) n (fun _ n' => n'.channels = n.channels)
      (fun e n' => (∃ e', e = .err e') ∧ n'.channels = n.channels) := by
  simp only [sendFor, sendToNode, Act.wp_bind, Act.wp_get, Act.wp_okOr]
  refine ⟨fun peer _ => ?_, fun _ => ⟨⟨_, rfl⟩, trivial⟩⟩
  exact Act.wp_mono (sendToPeer_fails peer msg) (fun _ _ h => h.channels) fun _ _ h => ⟨h.1, h.2.channels⟩

/-- A call by the peer of the channel that succeeds. -/
theorem withChannel_ok {id : ChannelId} {i : Channel.Input} {e : ChannelEntry} {a : i.Outcome}
    {ch : Channel} (he : n.channels.lookup id = some e) (hb : n.byNodeId.lookup e.nodeId = some peer)
    (hrun : Channel.perform E.C i e.channel = .ok a ch) :
    Act.wp (withChannel peer id i) n (fun _ n' => n'.channels = n.channels.insert id { e with channel := ch })
      (fun _ _ => False) := by
  simp only [withChannel, entryOf, onChannel, Act.wp_bind, Act.wp_get, Act.wp_okOr, Act.wp_ite,
    Act.wp_attempt]
  refine ⟨fun e₁ he₁ => ?_, fun hnone => ?_⟩
  · obtain rfl := Option.some.inj (he.symm.trans he₁)
    refine ⟨fun hne => absurd hb hne, fun _ => ⟨fun e₂ he₂ => ?_, fun hnone => ?_⟩⟩
    · obtain rfl := Option.some.inj (he.symm.trans he₂)
      rw [hrun]
      rfl
    · cases he.symm.trans hnone
  · cases he.symm.trans hnone

/-- An entry of another node than `K` is replaced by one of `K`. -/
theorem not_isolates {id : ChannelId} {e : ChannelEntry} {n' : Node E} (e' : ChannelEntry)
    (he : n.channels.lookup id = some e) (hK : e.nodeId ≠ K)
    (he' : n'.channels.lookup id = some e') (hK' : e'.nodeId = K) : ¬ Isolates K n n' := by
  intro h
  obtain ⟨e₁, he₁, hn, -⟩ := h.channels id e he hK
  obtain rfl := Option.some.inj (he'.symm.trans he₁)
  exact hK (hn.symm.trans hK')

/-- A channel with a commitment can be closed. -/
theorem forceClose_ok {id : ChannelId} {e : ChannelEntry} {tx : Transaction} (reason : String)
    (he : n.channels.lookup id = some e) (htx : e.channel.signedHolderCommitmentTx E.C = .ok tx) :
    Act.wp (forceClose id reason) n (fun _ n' => n'.history = n.history ++ [.forceClosed e])
      (fun _ _ => False) := by
  simp only [forceClose, askChannel, entryOf, Act.wp_bind, Act.wp_get, Act.wp_okOr]
  refine ⟨fun e₁ he₁ => ?_, fun hnone => by cases he.symm.trans hnone⟩
  obtain rfl := Option.some.inj (he.symm.trans he₁)
  refine ⟨fun e₂ he₂ => ?_, fun hnone => by cases he.symm.trans hnone⟩
  obtain rfl := Option.some.inj (he.symm.trans he₂)
  rw [htx]
  exact rfl

/-- An `error` that names the channel of another node closes it. -/
theorem handleMessage_error_closes {msg : Wire.ErrorMsg} {e : ChannelEntry} {tx : Transaction}
    (hne : msg.channelId ≠ zeroChannelId) (he : n.channels.lookup msg.channelId = some e)
    (htx : e.channel.signedHolderCommitmentTx E.C = .ok tx) (hK : e.nodeId ≠ K) :
    ¬ Act.Ends (handleMessage peer (.error msg)) n (Isolates K n) := by
  have hc : msg.channelId ≠ zeroChannelId ∧ (n.channels.lookup msg.channelId).isSome :=
    ⟨hne, by rw [he]; rfl⟩
  refine Act.not_ends ((Act.wp_bind _ _).2 ((Act.wp_ite _ _ _).2 ⟨fun _ => ?_, fun h => absurd hc h⟩))
  refine Act.wp_mono (forceClose_ok _ he htx) (fun _ n' hn' h => hK (h.closes e ?_)) fun _ _ h => h.elim
  rw [news, hn', List.drop_left]
  exact List.mem_singleton_self _

/-- An `open_channel` that is accepted takes the key of its choice. -/
theorem handleMessage_open_replaces {msg : Wire.OpenChannel} {e : ChannelEntry}
    (hp : n.peers.lookup peer = some p) (hK : p.nodeId = some K)
    (haccept : n.config.acceptInbound = true)
    (hcheck : Channel.checkOpenChannel n.config.channel n.config.network msg = .ok ())
    (he : n.channels.lookup msg.temporaryChannelId = some e) (hne : e.nodeId ≠ K) :
    ¬ Act.Ends (handleMessage peer (.openChannel msg)) n (Isolates K n) := by
  obtain ⟨channel, accept, hnew⟩ : ∃ channel accept,
      Channel.newInbound E.C (E.deriveChannelSigner n.channelCounter) n.config.channel
        n.config.network msg = .ok (channel, accept) := by
    rw [Channel.newInbound, hcheck]
    exact ⟨_, _, rfl⟩
  refine Act.not_ends ((Act.wp_bind _ _).2 ?_)
  show Act.wp (onOpenChannel peer msg) n _ _
  simp only [onOpenChannel, nextSigner, Act.wp_bind, Act.wp_get, Act.wp_ite, Act.wp_okOr, haccept,
    Act.wp_set, Act.wp_pure, hp, hK, Option.bind_some, Bool.not_true]
  refine ⟨fun h => absurd h (by simp), fun _ => ⟨fun nodeId hid => ?_, fun hnone => by cases hnone⟩⟩
  obtain rfl := Option.some.inj hid
  rw [hnew]
  simp only [addChannel, setEntry, record, Act.wp_bind, Act.wp_get, Act.wp_modify]
  have hreplaced : ∀ n', n'.channels = n.channels.insert msg.temporaryChannelId
      { channel, nodeId := K, serial := n.history.length } → ¬ Isolates (E := E) K n n' := fun n' hn' =>
    not_isolates _ he hne (by rw [hn', AList.lookup_insert]) rfl
  exact Act.wp_mono (sendToPeer_fails peer _) (fun _ n' h => hreplaced n' h.channels)
    fun _ n' h => ⟨h.1, hreplaced n' h.2.channels⟩

/-- A `funding_created` that is accepted takes the key of its choice. -/
theorem handleMessage_funding_replaces {msg : Wire.FundingCreated} {e e' : ChannelEntry}
    (he : n.channels.lookup msg.temporaryChannelId = some e)
    (hb : n.byNodeId.lookup e.nodeId = some peer) (hK : e.nodeId = K)
    (hf : Channel.Fundable E.C e.channel msg)
    (he' : n.channels.lookup (channelIdFromFunding msg.fundingTxid msg.fundingOutputIndex) = some e')
    (hne : e'.nodeId ≠ K) :
    ¬ Act.Ends (handleMessage peer (.fundingCreated msg)) n (Isolates K n) := by
  obtain ⟨reply, ch, hrun⟩ := (Channel.onFundingCreated_ok_iff _ _).2 hf
  obtain ⟨-, hid, hout, cp, hcp⟩ := Act.wp_ok (Channel.onFundingCreated_bound msg e.channel) hrun
  have hscript : ch.fundingScriptPubkey E.C = .ok (newP2wsh E.C
      (Commitment.fundingRedeemscript ch.holderPubkeys.fundingPubkey cp.fundingPubkey)) := by
    simp [Channel.fundingScriptPubkey, Channel.counterparty, hcp, Fault.okOr]
  refine Act.not_ends ((Act.wp_bind _ _).2 ?_)
  show Act.wp (onFundingCreated peer msg) n _ _
  refine (Act.wp_bind _ _).2 (Act.wp_mono (withChannel_ok (i := .fundingCreated msg) he hb hrun)
    (fun reply n₁ h₁ => ?_) fun _ _ h => h.elim)
  have hlook : n₁.channels.lookup msg.temporaryChannelId = some { e with channel := ch } := by
    rw [h₁, AList.lookup_insert]
  simp only [removeEntry, setEntry, record, Act.wp_bind, Act.wp_get, Act.wp_expect, Act.wp_modify]
  refine ⟨fun e₁ he₁ => ?_, fun hnone => by cases hlook.symm.trans hnone⟩
  obtain rfl := Option.some.inj (hlook.symm.trans he₁)
  refine ⟨fun outpoint _ => ?_, fun hnone => by cases hout.symm.trans hnone⟩
  simp only [hscript, Act.wp_bind, Act.wp_modify, emit, event]
  have hreplaced : ∀ n', n'.channels = (n₁.channels.erase msg.temporaryChannelId).insert
      (channelIdFromFunding msg.fundingTxid msg.fundingOutputIndex) { e with channel := ch } →
      ¬ Isolates (E := E) K n n' := fun n' hn' =>
    not_isolates { e with channel := ch } he' hne (by rw [hn', AList.lookup_insert]) hK
  exact Act.wp_mono (sendFor_fails _ _) (fun _ n' h => hreplaced _ h)
    fun _ n' h => ⟨h.1, hreplaced n' h.2⟩

/-- A message isolates exactly if it spares the channels of others. -/
theorem isolates_iff (hl : Linked n) (hp : n.peers.lookup peer = some p) (hK : p.nodeId = some K)
    (msg : Wire.Message) :
    Act.Ends (handleMessage peer msg) n (Isolates K n) ↔ Spares n K peer msg := by
  refine ⟨fun h => ?_, fun h => handleMessage_isolates h hl hp hK⟩
  cases msg with
  | error msg =>
    intro hne e he htx
    obtain ⟨tx, htx⟩ := htx
    by_contra hKe
    exact handleMessage_error_closes hne he htx hKe h
  | openChannel msg =>
    intro haccept hcheck e he
    by_contra hKe
    exact handleMessage_open_replaces hp hK haccept hcheck he hKe h
  | fundingCreated msg =>
    intro e he hb hf e' he'
    by_contra hKe
    exact handleMessage_funding_replaces he hb (hl.owner hp hK hb) hf he' hKe h
  | _ => trivial

end

/-! ## The states in which messages are handled -/

/-- The states a node visits: those of runs, and those between the messages of one call. -/
inductive Visited (entropy : E.Entropy) (config : NodeConfig) : Node E → Prop
  | run {tr : Trace (Input E) NodeError Unit} {n : Node E} :
      Run step (Node.new E entropy config) tr n → Visited entropy config n
  | read {n n' : Node E} {peer : PeerId} {data : E.Data}
      {msgs : List (Except Wire.WireError Wire.Message)} : Visited entropy config n →
      readInput peer data n = .ok msgs n' → Visited entropy config n'
  | handled {n n' : Node E} {peer : PeerId} {m : Except Wire.WireError Wire.Message} :
      Visited entropy config n → handleDecoded peer m n = .ok () n' → Visited entropy config n'

/-- An invariant of the moves holds in every state a node visits. -/
theorem Visited.invariant {entropy : E.Entropy} {config : NodeConfig} {n : Node E}
    (h : Visited entropy config n) {I : Node E → Prop}
    (hnew : I (Node.new E entropy config))
    (hI : ∀ a b, Move (fun _ _ => True) a b → I a → I b) : I n := by
  have hmoves : ∀ {a b : Node E}, Moves (fun _ _ => True) a b → I a → I b := fun hm => hm.invariant hI
  induction h with
  | run hr =>
    refine Run.invariant (A := fun _ => True) hnew (fun m i _ hm => ?_) hr fun _ _ => trivial
    exact (step_moves (fun _ _ _ _ _ => trivial) (fun _ _ _ => trivial) (.top m i)).mono fun _ h =>
      hmoves h hm
  | @read _ _ peer data _ _ hrun ih =>
    have hm := Act.wp_ok (readInput_moves (P := fun _ _ => True) peer data) hrun
    exact hmoves hm ih
  | handled _ hrun ih =>
    have hm := Act.wp_ok (handleDecoded_moves (P := fun _ _ => True) (fun _ _ _ _ _ => trivial)
      (fun _ _ _ => trivial) fun _ _ => .top _ _ _) hrun
    exact hmoves hm ih

theorem Visited.linked {entropy : E.Entropy} {config : NodeConfig} {n : Node E}
    (h : Visited entropy config n) : Linked n :=
  h.invariant ⟨nofun, nofun, nofun⟩ fun _ _ hm => hm.linked

/-- A message received on a connection authenticated as `K` closes or touches no channel of another
node, exactly if it spares them. -/
theorem peer_isolation {entropy : E.Entropy} {config : NodeConfig} {n : Node E} {peer : PeerId}
    {p : Peer E} {K : PublicKey} (hn : Visited entropy config n)
    (hp : n.peers.lookup peer = some p) (hK : p.nodeId = some K) (msg : Wire.Message) :
    Act.Ends (handleMessage peer msg) n (Isolates K n) ↔ Spares n K peer msg :=
  isolates_iff hn.linked hp hK msg

section
open Demo

/-- The node has a channel with node 1, and node 3 connects. -/
def strangerArrives : List (Node.Input env) :=
  meets funds ++ [.connectOutbound (nodeKey 3)]

/-- A peer closes the channel it has. -/
theorem peer_isolation_own :
    ∃ (n : Node env) (p : Peer env), Visited (0 : Nat) Demo.config n ∧
      n.peers.lookup 1 = some p ∧ p.nodeId = some (nodeKey 1) ∧
      (∃ e ∈ n.channels.lookup fundedId, (e.channel.signedHolderCommitmentTx C).isOk) ∧
      Act.Ends (handleMessage 1 (.error ⟨fundedId, []⟩)) n (Isolates (nodeKey 1) n) := by
  obtain ⟨tr, n, hr, ⟨p, hp, hK⟩, e, he, hid, htx⟩ := Run.exists_of_exec (f := step) (s := node)
    strangerArrives
    (fun n : Node env => (∃ p ∈ n.peers.lookup (1 : PeerId), p.nodeId = some (nodeKey 1)) ∧
      ∃ e ∈ n.channels.lookup fundedId, e.nodeId = nodeKey 1 ∧
        (e.channel.signedHolderCommitmentTx C).isOk = true) (by decide +kernel)
  refine ⟨n, p, .run hr, hp, hK, ⟨e, he, htx⟩, (peer_isolation (.run hr) hp hK _).2 ?_⟩
  intro _ e' he' _
  obtain rfl := Option.some.inj (he.symm.trans he')
  exact hid

/-- A stranger closes the channel of another node. -/
theorem stranger_closes :
    ∃ (n : Node env) (p : Peer env) (msg : Wire.Message), Visited (0 : Nat) Demo.config n ∧
      n.peers.lookup 2 = some p ∧ p.nodeId = some (nodeKey 3) ∧
      ¬ Act.Ends (handleMessage 2 msg) n (Isolates (nodeKey 3) n) := by
  obtain ⟨tr, n, hr, ⟨p, hp, hK⟩, e, he, hid, htx⟩ := Run.exists_of_exec (f := step) (s := node)
    strangerArrives
    (fun n : Node env => (∃ p ∈ n.peers.lookup (2 : PeerId), p.nodeId = some (nodeKey 3)) ∧
      ∃ e ∈ n.channels.lookup fundedId, e.nodeId ≠ nodeKey 3 ∧
        (e.channel.signedHolderCommitmentTx C).isOk = true) (by decide +kernel)
  cases hc : e.channel.signedHolderCommitmentTx C with
  | error _ =>
    rw [hc] at htx
    cases htx
  | ok tx =>
    exact ⟨n, p, .error ⟨fundedId, []⟩, .run hr, hp, hK,
      handleMessage_error_closes (by decide +kernel) he hc hid⟩

end

end Node
