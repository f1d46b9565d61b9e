import Keraunos.Channel.Proof.Flush
import Keraunos.Node.Proof.History
import Keraunos.Node.Proof.Income
import Keraunos.Node.Proof.Steps

/-!
# What a failed payment leaves behind

`pay_invoice` changes the channel and records the payment before it sends. Where nothing is offered at
once, an error leaves the channels, the payments and the outputs as they were. Where an HTLC is
offered, the call fails exactly if the connection of the channel does not take its messages, and then
the HTLC and the payment stay (`payInvoice_traceless_iff`).
-/

open Bitcoin

namespace Channel

variable {C : Crypto} {ch ch' : Channel}

/-! ## The channel -/

/-- Once the funding is created the peer's keys and the funding outpoint are known. -/
def Established (ch : Channel) : Prop :=
  0 < ch.state.rank → (∃ cp, ch.counterpartyPubkeys = some cp) ∧ ∃ f, ch.fundingOutpoint = some f

theorem Fresh.established (h : Fresh C ch) : Established ch :=
  fun hpos => absurd h.initial.state hpos.ne'

theorem Move.established (hm : Move C ch ch') (h : Established ch) : Established ch' := by
  cases hm with
  | negotiate => exact fun hpos => ⟨⟨_, rfl⟩, (h hpos).2⟩
  | bind f => exact fun hpos => ⟨(h hpos).1, f, rfl⟩
  | signInitial point b st _ _ _ hb =>
    simp only [buildCounterpartyCommitmentAt, counterparty, Fault.bind_eq_ok, Fault.okOr_eq_ok] at hb
    obtain ⟨cp, hcp, _, -, f, hf, -⟩ := hb
    exact fun _ => ⟨⟨cp, hcp⟩, f, hf⟩
  | admin a ha =>
    intro hpos
    rcases ha with ha | ⟨hpos', -⟩
    · exact h (ha ▸ hpos)
    · exact h hpos'
  | _ => exact h

theorem perform_established (i : Input) (ch : Channel) (h : Established ch) :
    Act.Ends (perform C i) ch Established := by
  have hstepped : Act.Ends (perform C i) ch (Stepped C ch i) :=
    (Act.wp_map _ i.toSend).1 (step_stepped i ch)
  refine hstepped.mono fun _ hs => ?_
  cases hs with
  | moves _ hm => exact hm.invariant (fun _ _ hm h => hm.established h) h
  | refused => exact h
  | accepted | rolledBack => exact h

/-- An HTLC is offered at once, parked or refused. -/
theorem sendAddHtlc_offers (amount : Msat) (hash : PaymentHash) (cltv : Nat) (onion : List UInt8)
    (source : HtlcSource) (ch : Channel) :
    Act.wp (sendAddHtlc amount hash cltv onion source) ch
      (fun o ch' => ch.offersAtOnce amount cltv = false ∧ o = none ∨
        ch.offersAtOnce amount cltv = true ∧
          o = some ⟨ch.channelId, ch.nextHolderHtlcId, amount, hash, cltv, onion⟩ ∧
          ch' = ch.offer amount hash cltv onion source)
      (fun _ ch' => ch.offersAtOnce amount cltv = false ∧ ch' = ch) := by
  simp only [sendAddHtlc, Act.wp_bind, Act.wp_get, Act.wp_lift, Act.wp_ite, Act.wp_set, Act.wp_pure,
    Fault.require_eq_ok, Fault.require_eq_error, offersAtOnce]
  refine ⟨fun _ hstate => ⟨fun _ hopen => ⟨fun hraa => .inl ⟨by simp [hraa], trivial⟩,
    fun hraa => ⟨fun _ hvalid => .inr ⟨?_, trivial, rfl⟩, fun e he => ⟨?_, trivial⟩⟩⟩,
    fun e he => ⟨?_, trivial⟩⟩, fun e he => ⟨by simp [he.1], trivial⟩⟩
  · obtain ⟨hsent, hreceived⟩ := not_or.1 hopen
    simp [hstate, hsent, hreceived, hraa, hvalid, Except.isOk, Except.toBool]
  · simp [he, Except.isOk, Except.toBool]
  · obtain hsent | hreceived := not_not.1 he.1
    · simp [hsent]
    · simp [hreceived]

/-- What `flush_commitment` says. -/
def signMessages (C : Crypto) (ch : Channel) : List Wire.Message :=
  if ch.canSendCommitment then
    match sendCommitmentSigned C ch with
    | .ok cs _ => [.commitmentSigned cs]
    | .error .. => []
  else []

/-- What offering an HTLC says: the update, and the commitment that includes it. -/
def offerMessages (C : Crypto) (amount : Msat) (hash : PaymentHash) (cltv : Nat) (onion : List UInt8)
    (source : HtlcSource) (ch : Channel) : List Wire.Message :=
  if ch.offersAtOnce amount cltv then
    .updateAddHtlc ⟨ch.channelId, ch.nextHolderHtlcId, amount, hash, cltv, onion⟩ ::
      signMessages C (ch.offer amount hash cltv onion source)
  else []

end Channel

/-- The transport encrypts the messages, one after another. -/
def Env.takes (E : Env) : E.Transport → List Wire.Message → Bool
  | _, [] => true
  | t, msg :: msgs =>
    match E.encrypt t msg with
    | (t', .ok _) => E.takes t' msgs
    | (_, .error _) => false

namespace Node

variable {E : Env} {n n' : Node E}

/-! ## The condition -/

/-- The node is connected, and its connection takes the messages. -/
def reaches (n : Node E) (nodeId : PublicKey) (msgs : List Wire.Message) : Bool :=
  ((n.byNodeId.lookup nodeId).bind n.peers.lookup).any fun p => E.takes p.transport msgs

/-- The channel at the start of a route. -/
def firstChannel (n : Node E) (route : Route) : Option ChannelEntry :=
  (route.hops.head?.bind fun first => n.scidIndex.lookup first.shortChannelId).bind n.channels.lookup

/-- To whom a payment says what, when it is offered on the first channel of its route. -/
def routeOffer (n : Node E) (invoice : Bolt11Invoice) (route : Route) (packet : Onion.OnionPacket) :
    Option (PublicKey × List Wire.Message) :=
  (n.firstChannel route).map fun e =>
    (e.nodeId, e.channel.offerMessages E.C route.firstHopAmountMsat invoice.paymentHash
      route.firstHopCltv packet.serialize (.outbound (E.randomBytes n.entropy).1 n.history.length))

/-- The onion of a payment along a route. -/
def paymentOnion (n : Node E) (invoice : Bolt11Invoice) (amount : Msat) (route : Route) :
    Except (Fault Onion.OnionError) Onion.OnionPacket :=
  let sessionKey := (E.randomSecretKey n.entropy).1
  Onion.construct E.C sessionKey (E.sharedSecretsForPath sessionKey (route.hops.map (·.nodeId)))
    ((hopPayloads invoice.paymentSecret amount route.hops).map E.encodePayload)
    invoice.paymentHash.toList

/-- To whom the call says what, if it gets to offer the payment. -/
def paymentOffer (n : Node E) (invoice : Bolt11Invoice) (amountMsat : Option Msat) :
    Option (PublicKey × List Wire.Message) := do
  let amount ← amountMsat <|> invoice.amountMsat
  if n.payments.entries.any (·.2.paymentHash = invoice.paymentHash) then none
  else
    let route ← (n.routeFor invoice amount).toOption
    let packet ← (n.paymentOnion invoice amount route).toOption
    routeOffer { n with entropy := (E.randomSecretKey n.entropy).2 } invoice route packet

/-- What is said, if anything, is taken by the connection. -/
def Heard (n : Node E) (offer : Option (PublicKey × List Wire.Message)) : Prop :=
  ∀ x ∈ offer, x.2 = [] ∨ n.reaches x.1 x.2 = true

theorem heard_some {x : PublicKey × List Wire.Message} :
    n.Heard (some x) ↔ x.2 = [] ∨ n.reaches x.1 x.2 = true := by
  simp only [Heard, Option.mem_def, Option.some.injEq, forall_eq']

theorem heard_none : n.Heard none := fun _ => nofun

instance (offer : Option (PublicKey × List Wire.Message)) : Decidable (n.Heard offer) :=
  match offer with
  | none => .isTrue heard_none
  | some _ => decidable_of_iff' _ heard_some

/-- The channels, the payments and the outputs are as before. -/
structure Traceless (n n' : Node E) : Prop where
  channels : ∀ id, n'.channels.lookup id = n.channels.lookup id
  payments : ∀ id, n'.payments.lookup id = n.payments.lookup id
  outputs : n'.outputs = n.outputs

/-! ## Sending -/

/-- A message is sent exactly if the connection takes it. -/
theorem sendToPeer_reaches {nodeId : PublicKey} {peer : PeerId} (msg : Wire.Message)
    (hpeer : n.byNodeId.lookup nodeId = some peer) :
    Act.wp (sendToPeer peer msg) n
      (fun _ n' => n'.channels = n.channels ∧ n'.payments = n.payments ∧
        n'.reaches nodeId [] = true ∧
        ∀ msgs, n.reaches nodeId (msg :: msgs) = n'.reaches nodeId msgs)
      (fun f n' => f ≠ .panic ∧ n'.payments = n.payments ∧
        ∀ msgs, n.reaches nodeId (msg :: msgs) = false) := by
  simp only [sendToPeer, Act.wp_bind, Act.wp_get, Act.wp_okOr, setPeer, Act.wp_modify]
  refine ⟨fun p hp => ?_, fun hnone => ⟨fun h => (by cases h), trivial, fun msgs => ?_⟩⟩
  · have hbefore : ∀ msgs, n.reaches nodeId (msg :: msgs) = E.takes p.transport (msg :: msgs) := by
      intro msgs
      rw [reaches, hpeer, Option.bind_some, hp]
      rfl
    split
    · next e heq =>
      refine ⟨fun h => (by cases h), rfl, fun msgs => ?_⟩
      rw [hbefore, Env.takes, ← Prod.eta (E.encrypt p.transport msg), heq]
    · next bytes heq =>
      have hafter : ∀ os msgs, reaches { n with
          peers := n.peers.insert peer { p with transport := (E.encrypt p.transport msg).1 }
          outputs := os } nodeId msgs = E.takes (E.encrypt p.transport msg).1 msgs := by
        intro os msgs
        rw [reaches, hpeer, Option.bind_some, AList.lookup_insert]
        rfl
      refine ⟨rfl, rfl, hafter _ [], fun msgs => ?_⟩
      refine Eq.trans ?_ (hafter _ msgs).symm
      rw [hbefore, Env.takes, ← Prod.eta (E.encrypt p.transport msg), heq]
  · rw [reaches, hpeer, Option.bind_some, hnone]
    rfl

theorem sendFor_reaches (entry : ChannelEntry) (msg : Wire.Message) :
    Act.wp (sendFor entry msg) n
      (fun _ n' => n'.channels = n.channels ∧ n'.payments = n.payments ∧
        n'.reaches entry.nodeId [] = true ∧
        ∀ msgs, n.reaches entry.nodeId (msg :: msgs) = n'.reaches entry.nodeId msgs)
      (fun f n' => f ≠ .panic ∧ n'.payments = n.payments ∧
        ∀ msgs, n.reaches entry.nodeId (msg :: msgs) = false) := by
  simp only [sendFor, sendToNode, record, Act.wp_bind, Act.wp_get, Act.wp_okOr, Act.wp_modify]
  refine ⟨fun peer hpeer => sendToPeer_reaches msg hpeer, fun hnone => ⟨fun h => (by cases h), trivial, fun msgs => ?_⟩⟩
  rw [reaches, hnone]
  rfl

theorem onChannel_found {id : ChannelId} {e : ChannelEntry} (he : n.channels.lookup id = some e)
    {i : Channel.Input} {Q : i.Outcome → Node E → Prop} {R : Fault NodeError → Node E → Prop}
    (h : Act.wp (Channel.perform E.C i) e.channel
      (fun a ch => ∀ hs, Q a { n with
        channels := n.channels.insert id { e with channel := ch }, history := hs })
      (fun f ch => (f = .panic → R .panic n) ∧ ∀ err, f = .err err → ∀ hs,
        R (.err (.channel err)) { n with
          channels := n.channels.insert id { e with channel := ch }, history := hs })) :
    Act.wp (onChannel id i) n Q R := by
  simp only [onChannel, entryOf, Act.wp_bind, Act.wp_get, Act.wp_okOr, he]
  refine ⟨fun e' heq => ?_, fun h => by cases h⟩
  obtain rfl := Option.some.inj heq
  split
  · next a ch hrun => exact Act.wp_ok h hrun _
  · next err ch hrun => exact (Act.wp_error h hrun).2 err rfl _
  · next ch hrun => exact (Act.wp_error h hrun).1 rfl

/-- A commitment is signed and sent, exactly if the connection takes it. -/
theorem flushCommitment_reaches {id : ChannelId} {e : ChannelEntry}
    (he : n.channels.lookup id = some e) (hest : e.channel.Established)
    (hon : n.reaches e.nodeId [] = true) :
    Act.wp (flushCommitment id) n
      (fun _ _ => n.reaches e.nodeId (e.channel.signMessages E.C) = true)
      (fun f n' => n'.payments = n.payments ∧
        (f = .panic ↔ n.reaches e.nodeId (e.channel.signMessages E.C) = true)) := by
  simp only [flushCommitment, entryOf, Act.wp_bind, Act.wp_get, Act.wp_okOr, he, Act.wp_ite,
    Act.wp_pure]
  refine ⟨fun e' heq => ?_, fun h => by cases h⟩
  obtain rfl := Option.some.inj heq
  refine ⟨fun hcan => onChannel_found he ?_, fun hno => ?_⟩
  · have hstate : e.channel.state = .normal ∨ e.channel.state = .shuttingDown := by
      simpa using (Bool.and_eq_true_iff.1 hcan).2
    obtain ⟨⟨cp, hcp⟩, f, hf⟩ := hest (by rcases hstate with h | h <;> rw [h] <;> decide)
    have hpanics := Channel.sendCommitmentSigned_error (C := E.C) hcp hf hcan
    refine Act.wp_iff.2 ⟨fun cs ch hrun hs => ?_, fun f ch hrun => ?_⟩
    · have hrun : Channel.sendCommitmentSigned E.C e.channel = .ok cs ch := hrun
      rw [Channel.signMessages, if_pos hcan, hrun]
      refine Act.wp_mono (sendFor_reaches e (.commitmentSigned cs)) ?_ ?_
      · rintro _ n' ⟨-, -, hthere, hsent⟩
        exact (hsent []).trans hthere
      · rintro f n' ⟨hf, hpays, hlost⟩
        have hlost : n.reaches e.nodeId [.commitmentSigned cs] = false := hlost []
        exact ⟨hpays, fun h => absurd h hf, fun h => by cases hlost.symm.trans h⟩
    · have hrun : Channel.sendCommitmentSigned E.C e.channel = .error f ch := hrun
      have hf := Act.wp_error hpanics hrun
      obtain rfl : f = .panic := hf
      rw [Channel.signMessages, if_pos hcan, hrun]
      exact ⟨fun _ => ⟨rfl, fun _ => hon, fun _ => rfl⟩, fun _ h => by cases h⟩
  · have hsent : e.channel.signMessages E.C = [] := if_neg hno
    rwa [hsent]

/-- An update is sent and signed for, exactly if the connection takes both messages. -/
theorem sendUpdate_reaches {id : ChannelId} {e entry : ChannelEntry}
    (he : n.channels.lookup id = some e) (hest : e.channel.Established)
    (hid : entry.nodeId = e.nodeId) (msg : Wire.Message) :
    Act.wp (sendUpdate id entry (some msg)) n
      (fun _ _ => n.reaches e.nodeId (msg :: e.channel.signMessages E.C) = true)
      (fun f n' => n'.payments = n.payments ∧
        (f = .panic ↔ n.reaches e.nodeId (msg :: e.channel.signMessages E.C) = true)) := by
  refine (Act.wp_bind _ _).2 (Act.wp_mono (sendFor_reaches entry msg) ?_ ?_)
  · rintro _ n₁ ⟨hch, hpays, hthere, hsent⟩
    rw [hid] at hthere hsent
    rw [hsent]
    refine Act.wp_mono (flushCommitment_reaches (hch ▸ he) hest hthere) (fun _ _ h => h) ?_
    exact fun f n' h => ⟨h.1.trans hpays, h.2⟩
  · rintro f n' ⟨hf, hpays, hlost⟩
    rw [hid] at hlost
    rw [hlost]
    exact ⟨hpays, fun h => absurd h hf, nofun⟩

/-! ## The call -/

/-- The payment is recorded last, so it is there whatever follows. -/
theorem not_traceless {id : Bytes32} {p : PendingPayment}
    (hnew : ∀ x ∈ n.payments.entries, x.2.paymentHash ≠ p.paymentHash)
    (hpays : n'.payments.lookup id = some p) : ¬ Traceless n n' := by
  intro h
  have hold := (h.payments id).symm.trans hpays
  exact hnew _ (List.of_mem_dlookup hold) rfl

theorem traceless_of_same (hc : n'.channels = n.channels) (hp : n'.payments = n.payments)
    (ho : n'.outputs = n.outputs) : Traceless n n' :=
  ⟨fun _ => hc ▸ rfl, fun _ => hp ▸ rfl, ho⟩

/-- A call that offers nothing, or whose messages were taken, ends without a trace or panics; another
one fails and leaves a trace. -/
def EndsAs (n : Node E) (heard : Prop) (f : Fault NodeError) (n' : Node E) : Prop :=
  (f = .panic → heard) ∧ (f ≠ .panic → (Traceless n n' ↔ heard))

theorem EndsAs.early {heard : Prop} {f : Fault NodeError} (hh : heard) (ht : Traceless n n') :
    EndsAs n heard f n' :=
  ⟨fun _ => hh, fun _ => iff_of_true ht hh⟩

/-- The bytes drawn do not count. -/
theorem EndsAs.drawn {entropy : E.Entropy} {heard : Prop} {f : Fault NodeError}
    (h : EndsAs { n with entropy } heard f n') : EndsAs n heard f n' :=
  ⟨h.1, fun hf => Iff.trans ⟨fun t => ⟨t.channels, t.payments, t.outputs⟩,
    fun t => ⟨t.channels, t.payments, t.outputs⟩⟩ (h.2 hf)⟩

/-- What follows once the HTLC is offered and the payment recorded. -/
theorem sendUpdate_ends (paymentId : Bytes32) {id : ChannelId} {e : ChannelEntry} {ch : Channel}
    {p : PendingPayment} (hest : ch.Established)
    (hnew : ∀ x ∈ n.payments.entries, x.2.paymentHash ≠ p.paymentHash)
    (hch : n'.channels = n.channels.insert id { e with channel := ch })
    (hreaches : ∀ msgs, n'.reaches e.nodeId msgs = n.reaches e.nodeId msgs)
    (hpays : n'.payments.lookup paymentId = some p) (msg : Wire.Message) :
    Act.wp (sendUpdate id e (some msg)) n'
      (fun _ _ => n.reaches e.nodeId (msg :: ch.signMessages E.C) = true)
      (EndsAs n (n.reaches e.nodeId (msg :: ch.signMessages E.C) = true)) := by
  have he : n'.channels.lookup id = some { e with channel := ch } := by rw [hch, AList.lookup_insert]
  rw [← hreaches]
  refine Act.wp_mono (sendUpdate_reaches he hest rfl msg) (fun _ _ h => h) ?_
  rintro f n'' ⟨hsame, hpanic⟩
  have hleft : ¬ Traceless n n'' := not_traceless hnew (hsame ▸ hpays)
  exact ⟨hpanic.1, fun hf => iff_of_false hleft fun h => hf (hpanic.2 h)⟩

/-- Offer the HTLC of a payment on the channel `id`, record the payment, and send. -/
theorem offerOn_spec {id : ChannelId} {e : ChannelEntry} (he : n.channels.lookup id = some e)
    (hest : e.channel.Established) {p : PendingPayment}
    (hnew : ∀ x ∈ n.payments.entries, x.2.paymentHash ≠ p.paymentHash) (amount : Msat) (cltv : Nat)
    (onion : List UInt8) (paymentId : Bytes32) (tag : Nat) :
    Act.wp (do
        let add ← onChannel id (.sendAddHtlc amount p.paymentHash cltv onion (.outbound paymentId tag))
        modify fun n => { n with payments := n.payments.insert paymentId p }
        sendUpdate id e (add.map .updateAddHtlc)
        return paymentId) n
      (fun _ _ => n.Heard (some (e.nodeId,
        e.channel.offerMessages E.C amount p.paymentHash cltv onion (.outbound paymentId tag))))
      (EndsAs n (n.Heard (some (e.nodeId,
        e.channel.offerMessages E.C amount p.paymentHash cltv onion (.outbound paymentId tag))))) := by
  rw [heard_some, Act.wp_bind]
  refine onChannel_found he (Act.wp_mono (Channel.sendAddHtlc_offers ..) ?_ ?_)
  · rintro o ch (⟨hlater, rfl⟩ | ⟨hnow, rfl, rfl⟩) hs
    · exact .inl (if_neg (by rw [hlater]; decide))
    · rw [Channel.offerMessages, if_pos hnow]
      simp only [reduceCtorEq, false_or, Act.wp_bind, Act.wp_modify, Act.wp_pure]
      generalize hoffered : e.channel.offer amount p.paymentHash cltv onion (.outbound paymentId tag) = ch
      have hest : ch.Established := hoffered ▸ hest
      refine sendUpdate_ends paymentId hest hnew ?_ (fun _ => ?_) ?_ _
      · rfl
      · rfl
      · exact AList.lookup_insert n.payments
  · rintro f ch ⟨hlater, rfl⟩
    have hwaits : e.channel.offerMessages E.C amount p.paymentHash cltv onion
        (.outbound paymentId tag) = [] := if_neg (by rw [hlater]; decide)
    refine ⟨fun _ => .early (.inl hwaits) (traceless_of_same rfl rfl rfl), fun err _ hs =>
      .early (.inl hwaits) ⟨fun k => ?_, fun _ => rfl, rfl⟩⟩
    show (n.channels.insert id e).lookup k = _
    by_cases hk : k = id
    · rw [hk, AList.lookup_insert, he]
    · exact AList.lookup_insert_ne hk

theorem offerPayment_spec (hest : ∀ id e, n.channels.lookup id = some e → e.channel.Established)
    {invoice : Bolt11Invoice} (hnew : ∀ x ∈ n.payments.entries, x.2.paymentHash ≠ invoice.paymentHash)
    (route : Route) (sharedSecrets : List Bytes32) (packet : Onion.OnionPacket) :
    Act.wp (offerPayment invoice route sharedSecrets packet) n
      (fun _ _ => n.Heard (n.routeOffer invoice route packet))
      (EndsAs n (n.Heard (n.routeOffer invoice route packet))) := by
  have hnone : n.firstChannel route = none → n.Heard (n.routeOffer invoice route packet) := by
    intro h
    rw [routeOffer, h]
    exact heard_none
  have hsame : ∀ entropy, Traceless n { n with entropy } := fun _ => traceless_of_same rfl rfl rfl
  have hdraw : Act.wp randomBytes n (fun b n' => b = (E.randomBytes n.entropy).1 ∧
      n' = { n with entropy := (E.randomBytes n.entropy).2 }) fun _ _ => False := by
    simp only [randomBytes, Act.wp_bind, Act.wp_get, Act.wp_set, Act.wp_pure, and_self]
  refine (Act.wp_bind _ _).2 (Act.wp_mono hdraw ?_ fun _ _ h => h.elim)
  rintro _ _ ⟨rfl, rfl⟩
  refine (Act.wp_bind _ _).2 ((Act.wp_expect _).2 ⟨fun first hfirst => ?_, fun hfirst => ?_⟩)
  · refine (Act.wp_bind _ _).2 (Act.wp_get.2 ((Act.wp_bind _ _).2 ((Act.wp_okOr _ _).2
      ⟨fun id hid => ?_, fun hid => ?_⟩)))
    · have hfound : n.firstChannel route = n.channels.lookup id := by
        rw [firstChannel, hfirst, Option.bind_some, hid, Option.bind_some]
      rw [entryOf]
      refine (Act.wp_bind _ _).2 ((Act.wp_bind _ _).2 (Act.wp_get.2 ((Act.wp_okOr _ _).2
        ⟨fun e he => ?_, fun he => .early (hnone (hfound.trans he)) (hsame _)⟩)))
      have he : n.channels.lookup id = some e := he
      rw [routeOffer, hfound, he, Option.map_some]
      have hoffer := offerOn_spec (n := { n with entropy := (E.randomBytes n.entropy).2 }) he
        (hest id e he) (p := ⟨invoice.paymentHash, sharedSecrets⟩) hnew route.firstHopAmountMsat
        route.firstHopCltv packet.serialize (E.randomBytes n.entropy).1 n.history.length
      exact Act.wp_mono hoffer (fun _ _ h => h) fun _ _ h => h.drawn
    · refine .early (hnone ?_) (hsame _)
      rw [firstChannel, hfirst, Option.bind_some, hid]
      rfl
  · refine .early (hnone ?_) (hsame _)
    rw [firstChannel, hfirst]
    rfl

/-- How a call ends. -/
theorem payInvoice_spec (hest : ∀ id e, n.channels.lookup id = some e → e.channel.Established)
    (invoice : Bolt11Invoice) (amountMsat : Option Msat) :
    Act.wp (payInvoice invoice amountMsat) n
      (fun _ _ => n.Heard (n.paymentOffer invoice amountMsat))
      (EndsAs n (n.Heard (n.paymentOffer invoice amountMsat))) := by
  have hnone : n.paymentOffer invoice amountMsat = none →
      n.Heard (n.paymentOffer invoice amountMsat) := by
    intro h
    rw [h]
    exact heard_none
  have hrefl : Traceless n n := traceless_of_same rfl rfl rfl
  simp only [payInvoice, Act.wp_bind, Act.wp_okOr, Act.wp_get, Act.wp_ite, Act.wp_fail]
  refine ⟨fun amount hamount => ⟨fun hdup => .early (hnone ?_) hrefl, fun hdup => ?_⟩,
    fun hamount => .early (hnone ?_) hrefl⟩
  · rw [paymentOffer, hamount, Option.bind_eq_bind, Option.bind_some, if_pos hdup]
  · have hoffer : n.paymentOffer invoice amountMsat = (n.routeFor invoice amount).toOption.bind
        fun route => (n.paymentOnion invoice amount route).toOption.bind fun packet =>
          routeOffer { n with entropy := (E.randomSecretKey n.entropy).2 } invoice route packet := by
      rw [paymentOffer, hamount, Option.bind_eq_bind, Option.bind_some, if_neg hdup]
      rfl
    rw [hoffer] at hnone ⊢
    split
    · next hroute =>
      refine .early (hnone ?_) hrefl
      rw [hroute]
      rfl
    · next route hroute =>
      simp only [randomSecretKey, Act.wp_bind, Act.wp_get, Act.wp_set, Act.wp_pure]
      split
      · next hconstruct =>
        have hconstruct : n.paymentOnion invoice amount route = .error _ := hconstruct
        refine .early (hnone ?_) (traceless_of_same rfl rfl rfl)
        rw [hroute, Except.toOption, Option.bind_some, hconstruct]
        rfl
      · next packet hconstruct =>
        have hconstruct : n.paymentOnion invoice amount route = .ok packet := hconstruct
        rw [hroute, Except.toOption, Option.bind_some, hconstruct, Except.toOption, Option.bind_some]
        have hnew : ∀ x ∈ n.payments.entries, x.2.paymentHash ≠ invoice.paymentHash := by
          intro x hx heq
          exact hdup (List.any_eq_true.2 ⟨x, hx, decide_eq_true heq⟩)
        exact Act.wp_mono (offerPayment_spec (n := { n with
          entropy := (E.randomSecretKey n.entropy).2 }) hest hnew route _ packet) (fun _ _ h => h)
          fun _ _ h => h.drawn
  · rw [paymentOffer, hamount]
    rfl

/-- Every channel of a node that is past its funding is established. -/
theorem established_of_run {entropy : E.Entropy} {config : NodeConfig}
    {tr : Trace (Input E) NodeError Unit} (hr : Run step (Node.new E entropy config) tr n) :
    ∀ id e, n.channels.lookup id = some e → e.channel.Established := by
  refine hr.invariant (A := fun _ => True) (I := fun n : Node E =>
    ∀ id e, n.channels.lookup id = some e → e.channel.Established)
    (fun id e h => ?_)
    (fun m i _ h => ?_) fun _ _ => trivial
  · have h : AList.lookup id (∅ : Table ChannelId ChannelEntry) = some e := h
    rw [AList.lookup_empty] at h
    cases h
  have hmoves := step_moves (P := fun _ _ => True) (fun _ _ _ _ _ => trivial)
    (fun _ _ _ => trivial) (AllowsCall.top m i)
  exact hmoves.mono fun _ hm => Moves.invariant (fun _ _ hm h =>
    hm.channels (fun _ => Channel.Fresh.established) Channel.perform_established h) hm h

/-- A call that fails leaves nothing behind exactly if no HTLC is offered, or the connection of the
channel takes what is said. -/
theorem payInvoice_traceless_iff {entropy : E.Entropy} {config : NodeConfig}
    {tr : Trace (Input E) NodeError Unit} (hr : Run step (Node.new E entropy config) tr n)
    (invoice : Bolt11Invoice) (amountMsat : Option Msat) :
    (∀ e n', payInvoice invoice amountMsat n = .error (.err e) n' → Traceless n n') ↔
      n.Heard (n.paymentOffer invoice amountMsat) := by
  have hspec := payInvoice_spec (established_of_run hr) invoice amountMsat
  constructor
  · intro h
    cases hrun : payInvoice invoice amountMsat n with
    | ok id n' =>
      have hends := Act.wp_ok hspec hrun
      exact hends
    | error f n' =>
      have hends := Act.wp_error hspec hrun
      cases f with
      | panic => exact hends.1 rfl
      | err e => exact (hends.2 nofun).1 (h e n' hrun)
  · intro hheard e n' hrun
    exact ((Act.wp_error hspec hrun).2 nofun).2 hheard

end Node

/-! ## A payment with and without a connection -/

namespace Demo

/-- An invoice of node 1. -/
def invoice : Bolt11Invoice where
  network := .regtest
  amountMsat := some 1000
  timestamp := 0
  paymentHash := bytes 3
  paymentSecret := bytes 4
  description := .direct ""
  expirySecs := none
  minFinalCltvExpiryDelta := none
  features := []
  routeHints := []
  payee := nodeKey 1

/-- The peer goes away after the channel is usable. -/
def leaves : List (Node.Input env) := wideOpens ++ [.peerDisconnected 1]

end Demo

namespace Node

/-- While node 1 is connected, a payment that is offered at once leaves nothing behind if it fails. -/
theorem payInvoice_traceless_demo :
    ∃ tr n, Run step Demo.node tr n ∧
      (n.paymentOffer Demo.invoice none).any (fun x => x.2.length = 2) = true ∧
      ∀ e n', payInvoice Demo.invoice none n = .error (.err e) n' → Traceless n n' := by
  obtain ⟨tr, n, hr, hheard, hsent⟩ := Run.exists_of_exec (f := step) (s := Demo.node) Demo.wideOpens
    (fun n => n.Heard (n.paymentOffer Demo.invoice none) ∧
      (n.paymentOffer Demo.invoice none).any (fun x => x.2.length = 2) = true) (by decide +kernel)
  exact ⟨tr, n, hr, hsent, (payInvoice_traceless_iff hr Demo.invoice none).2 hheard⟩

/-- The node pays over a channel whose peer has gone: the call fails, the payment stays, and the next
commitment carries its HTLC. -/
theorem payment_left_behind :
    ∃ tr n n', Run step Demo.node tr n ∧
      payInvoice Demo.invoice none n = .error (.err .peerNotFound) n' ∧ ¬ Traceless n n' ∧
      (n'.channels.lookup Demo.fundedId).any (fun e => e.channel.canSendCommitment) = true := by
  obtain ⟨tr, n, hr, hnone, hfails⟩ := Run.exists_of_exec (f := step) (s := Demo.node) Demo.leaves
    (fun n => n.payments.entries = [] ∧
      Act.wp (payInvoice Demo.invoice none) n (fun _ _ => False) (fun f n' =>
        f = .err .peerNotFound ∧ n'.payments.entries ≠ [] ∧
        (n'.channels.lookup Demo.fundedId).any (fun e => e.channel.canSendCommitment) = true))
    (by decide +kernel)
  cases hrun : payInvoice Demo.invoice none n with
  | ok _ _ => exact (Act.wp_ok hfails hrun).elim
  | error f n' =>
    obtain ⟨rfl, hpays, hcan⟩ := Act.wp_error hfails hrun
    refine ⟨tr, n, n', hr, hrun, fun h => ?_, hcan⟩
    obtain ⟨⟨id, p⟩, hmem⟩ := List.exists_mem_of_ne_nil _ hpays
    have hlookup := AList.mem_lookup_iff.2 hmem
    rw [h.payments id, AList.mem_lookup_iff, hnone] at hlookup
    cases hlookup

end Node
