import Keraunos.Node.Channels

/-!
# Payments (`node/mod.rs`)

Invoices, paying, and the life of an HTLC in the node: settlement and failure of outgoing HTLCs,
and claim, forward or failure of incoming ones.

The source of an offered HTLC is tagged with the length of the history, so that no two offers have
the same source.
-/

open Bitcoin

namespace Node

variable {E : Env}

/-! ## BOLT 4 failure codes -/

def update : Nat := 0x1000
def perm : Nat := 0x4000
def badonion : Nat := 0x8000
def failTemporaryChannelFailure : Nat := update ||| 7
def failUnknownNextPeer : Nat := perm ||| 10
def failFeeInsufficient : Nat := update ||| 12
def failIncorrectCltvExpiry : Nat := update ||| 13
def failIncorrectOrUnknownPayment : Nat := perm ||| 15
def failFinalIncorrectCltv : Nat := 18
def failFinalIncorrectAmount : Nat := 19
def failInvalidOnionHmac : Nat := badonion ||| perm ||| 5

/-- `[u64 htlc_msat][u32 height]`. -/
def incorrectPaymentData (amount : Msat) (height : Nat) : List UInt8 :=
  Bytes.beBytes 8 amount ++ Bytes.beBytes 4 height

/-! ## Settlement -/

/-- Claim a payment we announced as claimable. -/
def claimPayment (hash : PaymentHash) : NodeAct E Unit := do
  let n ← get
  let (id, htlcId, amount) ← Act.okOr (n.claimable.lookup hash) .channelNotFound
  set { n with claimable := n.claimable.erase hash }
  let invoice ← Act.okOr (n.invoices.lookup hash) .channelNotFound
  let entry ← entryOf id
  let msg ← onChannel id (.sendFulfillHtlc htlcId invoice.preimage)
  sendUpdate id entry (msg.map .updateFulfillHtlc)
  event (.paymentClaimed hash amount)

def onHtlcFulfilled (source : HtlcSource) (preimage : PaymentPreimage) : NodeAct E Unit := do
  match source with
  | .outbound paymentId _ => do
    let n ← get
    match n.payments.lookup paymentId with
    | none => return
    | some p => do
      set { n with payments := n.payments.erase paymentId }
      event (.paymentSent paymentId p.paymentHash preimage)
  | .forwarded inboundChannel inboundHtlc _ => do
    let entry ← entryOf inboundChannel
    let msg ← onChannel inboundChannel (.sendFulfillHtlc inboundHtlc preimage)
    sendUpdate inboundChannel entry (msg.map .updateFulfillHtlc)

/-- What the origin of a payment reads from the error onion: the code and the erring hop. -/
def readFailure (p : PendingPayment) (reason : Option (List UInt8)) (malformedCode : Option Nat) :
    Option Nat × Option Nat :=
  match reason.bind (Onion.Failure.decrypt E.C p.sharedSecrets) with
  | some (hop, msg) => (Onion.Failure.parseCode msg, some hop)
  | none => (malformedCode, none)

/-- The failure relayed to the previous hop. -/
def relayedFailure (ss : Bytes32) (reason : Option (List UInt8)) (malformedCode : Option Nat) :
    List UInt8 :=
  match reason, malformedCode with
  | some r, _ => Onion.Failure.wrap E.C ss r
  | none, some code => Onion.Failure.build E.C ss (Onion.Failure.message code [])
  | none, none =>
    Onion.Failure.build E.C ss (Onion.Failure.message failTemporaryChannelFailure [])

/-- Report the failure of an outgoing HTLC to where it came from. -/
def onHtlcFailed (source : HtlcSource) (reason : Option (List UInt8))
    (malformedCode : Option Nat) : NodeAct E Unit := do
  match source with
  | .outbound paymentId _ => do
    let n ← get
    match n.payments.lookup paymentId with
    | none => return
    | some p => do
      set { n with payments := n.payments.erase paymentId }
      record (.failedBack source)
      let (failureCode, erringHop) := readFailure (E := E) p reason malformedCode
      event (.paymentFailed paymentId p.paymentHash failureCode erringHop)
  | .forwarded inboundChannel inboundHtlc _ => do
    let n ← get
    match n.inboundOnionSecrets.lookup (inboundChannel, inboundHtlc) with
    | none => return
    | some ss => do
      let packet := relayedFailure (E := E) ss reason malformedCode
      let entry ← entryOf inboundChannel
      let msg ← onChannel inboundChannel (.sendFailHtlc inboundHtlc packet)
      record (.failedBack source)
      sendUpdate inboundChannel entry (msg.map .updateFailHtlc)

/-- A parked HTLC was dropped. -/
def onHtlcFailedLocally (source : HtlcSource) : NodeAct E Unit := onHtlcFailed source none none

/-! ## Receiving -/

/-- Fail an inbound HTLC, with an error onion of our own. -/
def failInbound (id : ChannelId) (htlcId : HtlcId) (code : Nat) (data : List UInt8) :
    NodeAct E Unit := do
  let n ← get
  match n.inboundOnionSecrets.lookup (id, htlcId) with
  | none => return
  | some ss => do
    let reason := Onion.Failure.build E.C ss (Onion.Failure.message code data)
    let entry ← entryOf id
    let msg ← onChannel id (.sendFailHtlc htlcId reason)
    sendUpdate id entry (msg.map .updateFailHtlc)

/-- Without a shared secret there is no error onion to build: report it as malformed. -/
def failInboundMalformed (id : ChannelId) (htlcId : HtlcId) (onionBytes : List UInt8) :
    NodeAct E Unit := do
  let sha := E.C.sha256 onionBytes
  let entry ← entryOf id
  let msg ← onChannel id (.sendFailMalformedHtlc htlcId sha failInvalidOnionHmac)
  sendUpdate id entry (msg.map .updateFailMalformedHtlc)

/-- The final-hop checks; a failure code with its data when one fails. -/
def checkFinalHtlc (n : Node E) (htlc : CommittedInboundHtlc) (payload : Onion.HopPayload) :
    Option (Nat × List UInt8) :=
  let failData := incorrectPaymentData htlc.amountMsat n.bestHeight
  match n.invoices.lookup htlc.paymentHash, payload.paymentData with
  | none, _ | some _, none => some (failIncorrectOrUnknownPayment, failData)
  | some invoice, some pd =>
    if pd.paymentSecret ≠ invoice.paymentSecret then
      some (failIncorrectOrUnknownPayment, failData)
    else if payload.amtToForward > htlc.amountMsat then
      some (failFinalIncorrectAmount, Bytes.beBytes 8 htlc.amountMsat)
    -- Accept [amount, 2 * amount].
    else if invoice.amountMsat.any fun required =>
        htlc.amountMsat < required || htlc.amountMsat > required * 2 % 2 ^ 64 then
      some (failIncorrectOrUnknownPayment, failData)
    else if payload.outgoingCltvValue > htlc.cltvExpiry then
      some (failFinalIncorrectCltv, Bytes.beBytes 4 htlc.cltvExpiry)
    else if htlc.cltvExpiry < (n.bestHeight + invoice.minFinalCltv) % 2 ^ 32 then
      some (failIncorrectOrUnknownPayment, failData)
    else none

def receiveFinalHtlc (id : ChannelId) (htlc : CommittedInboundHtlc) (payload : Onion.HopPayload) :
    NodeAct E Unit := do
  let n ← get
  match n.checkFinalHtlc htlc payload with
  | some (code, data) => failInbound id htlc.id code data
  | none => do
    set { n with claimable := n.claimable.insert htlc.paymentHash (id, htlc.id, htlc.amountMsat) }
    event (.paymentClaimable htlc.paymentHash htlc.amountMsat)
    if n.config.autoClaim then claimPayment htlc.paymentHash

/-- The fee for forwarding an amount, in `u64` arithmetic. -/
def forwardingFee (p : ForwardingPolicy) (amtToForward : Msat) : Msat :=
  (p.feeBaseMsat + amtToForward * p.feeProportionalMillionths % 2 ^ 64 / 1000000) % 2 ^ 64

/-- The fee and expiry policy; a failure code when it is not met. -/
def checkForward (p : ForwardingPolicy) (htlc : CommittedInboundHtlc)
    (payload : Onion.HopPayload) : Option Nat :=
  if htlc.amountMsat < (payload.amtToForward + forwardingFee p payload.amtToForward) % 2 ^ 64 then
    some failFeeInsufficient
  else if htlc.cltvExpiry < (payload.outgoingCltvValue + p.cltvExpiryDelta) % 2 ^ 32 then
    some failIncorrectCltvExpiry
  else none

/-- Offer the outgoing HTLC on the channel `outId`. -/
def offerForward (inId outId : ChannelId) (htlc : CommittedInboundHtlc)
    (payload : Onion.HopPayload) (next : Onion.OnionPacket) : NodeAct E Unit := do
  let n ← get
  let fee := forwardingFee n.config.forwarding payload.amtToForward
  let entry ← entryOf outId
  match ← Act.attempt (onChannel outId (.sendAddHtlc payload.amtToForward htlc.paymentHash
      payload.outgoingCltvValue next.serialize (.forwarded inId htlc.id n.history.length))) with
  | .ok (some add) => do
    modify fun n => { n with forwardFees := n.forwardFees.insert (outId, add.id) (inId, fee) }
    sendFor entry (.updateAddHtlc add)
    flushCommitment outId
    event (.forwarded inId outId fee)
  | .ok none => return
  | .error (.channel (.ignore _)) => failInbound inId htlc.id failTemporaryChannelFailure []
  | .error e => Act.fail e

def forwardHtlc (inId : ChannelId) (htlc : CommittedInboundHtlc) (payload : Onion.HopPayload)
    (next : Onion.OnionPacket) : NodeAct E Unit := do
  let n ← get
  match payload.shortChannelId.bind n.scidIndex.lookup with
  | none => failInbound inId htlc.id failUnknownNextPeer []
  | some outId =>
    match checkForward n.config.forwarding htlc payload with
    | some code => failInbound inId htlc.id code []
    | none => do
      let entry ← entryOf outId
      if !entry.channel.isUsable then failInbound inId htlc.id failTemporaryChannelFailure []
      else offerForward inId outId htlc payload next

/-- An inbound HTLC is irrevocably committed: peel its onion and claim or forward it. -/
def processCommittedHtlc (id : ChannelId) (htlc : CommittedInboundHtlc) : NodeAct E Unit := do
  match E.parseOnion htlc.onion with
  | none => failInboundMalformed id htlc.id htlc.onion
  | some packet => do
    let ss := E.ecdh packet.ephemeralKey
    match Onion.peelWithSecret E.C ss packet htlc.paymentHash.toList with
    | .error (.err _) => failInboundMalformed id htlc.id htlc.onion
    | .error .panic => Act.panic
    | .ok peeled => do
      modify fun n =>
        { n with inboundOnionSecrets := n.inboundOnionSecrets.insert (id, htlc.id) ss }
      match peeled with
      | .final payload =>
        match E.decodePayload payload with
        | none => do
          let n ← get
          failInbound id htlc.id failIncorrectOrUnknownPayment
            (incorrectPaymentData htlc.amountMsat n.bestHeight)
        | some payload => receiveFinalHtlc id htlc payload
      | .forward payload next =>
        match E.decodePayload payload with
        | none => failInbound id htlc.id failIncorrectOrUnknownPayment []
        | some payload => forwardHtlc id htlc payload next

/-! ## Invoices and paying -/

/-- Register an invoice: its encoding and payment hash. -/
def createInvoice (amountMsat : Option Msat) (description : String) (expirySecs : Nat) :
    NodeAct E (String × PaymentHash) := do
  let preimage ← randomBytes
  let paymentSecret ← randomBytes
  let hash := paymentHash E.C preimage
  let n ← get
  set { n with invoices := n.invoices.insert hash ⟨preimage, paymentSecret, amountMsat, 18⟩ }
  return (E.encodeInvoice
    { network := n.config.network
      amountMsat
      timestamp := n.now
      paymentHash := hash
      paymentSecret
      description := .direct description
      expirySecs := some expirySecs
      minFinalCltvExpiryDelta := some 18
      features := InvoiceBuilder.defaultFeatures
      routeHints := [] }, hash)

/-- Our usable channels as first hops. -/
def firstHops (n : Node E) : List FirstHop :=
  (n.channelsInOrder.filterMap n.channels.lookup).filterMap fun e =>
    if e.channel.isUsable then
      e.channel.shortChannelId.map fun scid => ⟨e.nodeId, scid, e.channel.availableToSendMsat⟩
    else none

/-- The payloads of the hops: where to forward, and the payment data for the last. -/
def hopPayloads (paymentSecret : PaymentSecret) (amount : Msat) : List RouteHop → List Onion.HopPayload
  | [] => []
  | [hop] => [.finalHop hop.amountMsat hop.cltvExpiry paymentSecret amount]
  | _ :: next :: rest =>
    .forward next.amountMsat next.cltvExpiry next.shortChannelId ::
      hopPayloads paymentSecret amount (next :: rest)

/-- The route for an invoice. -/
def routeFor (n : Node E) (invoice : Bolt11Invoice) (amount : Msat) : Except RouteError Route :=
  E.findRoute n.graph
    { payer := E.nodeId
      payee := invoice.payee
      amountMsat := amount
      finalCltvExpiry := (n.bestHeight + invoice.minFinalCltvOrDefault +
        n.config.finalCltvMargin) % 2 ^ 32
      firstHops := n.firstHops
      routeHints := invoice.routeHints
      maxHops := 20 }

/-- Offer the HTLC of a payment on the first channel of its route. -/
def offerPayment (invoice : Bolt11Invoice) (route : Route) (sharedSecrets : List Bytes32)
    (packet : Onion.OnionPacket) : NodeAct E Bytes32 := do
  let paymentId ← randomBytes
  let first ← Act.expect route.hops.head?
  let n ← get
  let id ← Act.okOr (n.scidIndex.lookup first.shortChannelId) .noUsableChannel
  let entry ← entryOf id
  let add ← onChannel id (.sendAddHtlc route.firstHopAmountMsat invoice.paymentHash
    route.firstHopCltv packet.serialize (.outbound paymentId n.history.length))
  modify fun n =>
    { n with payments := n.payments.insert paymentId ⟨invoice.paymentHash, sharedSecrets⟩ }
  sendUpdate id entry (add.map .updateAddHtlc)
  return paymentId

/-- Pay an invoice; `amountMsat` overrides its amount. -/
def payInvoice (invoice : Bolt11Invoice) (amountMsat : Option Msat) : NodeAct E Bytes32 := do
  let amount ← Act.okOr (amountMsat <|> invoice.amountMsat) (.invoiceMissingField "amount")
  let n ← get
  if n.payments.entries.any (·.2.paymentHash = invoice.paymentHash) then
    Act.fail .duplicatePayment
  else
    match n.routeFor invoice amount with
    | .error e => Act.fail (.route e)
    | .ok route => do
      let payloads := (hopPayloads invoice.paymentSecret amount route.hops).map E.encodePayload
      let sessionKey ← randomSecretKey
      let sharedSecrets := E.sharedSecretsForPath sessionKey (route.hops.map (·.nodeId))
      match Onion.construct E.C sessionKey sharedSecrets payloads invoice.paymentHash.toList with
      | .error _ => Act.panic
      | .ok packet => offerPayment invoice route sharedSecrets packet

end Node
