import Keraunos.Node.State

/-!
# The node's channels (`node/mod.rs`)

Opening, funding, closing and announcing channels. `withChannel` runs the peer's messages: a
protocol violation is answered with `error` and a force close.
-/

open Bitcoin

namespace Node

variable {E : Env}

/-! ## Commitments -/

/-- Send `commitment_signed` on a channel if there are changes. -/
def flushCommitment (id : ChannelId) : NodeAct E Unit := do
  let entry ← entryOf id
  if entry.channel.canSendCommitment then do
    let cs ← onChannel id .sendCommitmentSigned
    sendFor entry (.commitmentSigned cs)

/-- Send an update of the channel and sign for it; one that was parked is not sent. -/
def sendUpdate (id : ChannelId) (entry : ChannelEntry) (msg : Option Wire.Message) :
    NodeAct E Unit := do
  match msg with
  | some msg => do
    sendFor entry msg
    flushCommitment id
  | none => return

/-- Unilaterally close: broadcast our commitment transaction. -/
def forceClose (id : ChannelId) (reason : String) : NodeAct E Unit := do
  let entry ← entryOf id
  let tx ← askChannel id (·.signedHolderCommitmentTx E.C)
  emit (.broadcast tx)
  record (.forceClosed entry)
  event (.channelClosed id reason (some (tx.txid E.C)))

/-- A protocol violation: send `error`, force-close, and surface the failure. -/
def failChannel {α : Type} (peer : PeerId) (id : ChannelId) (text : String) : NodeAct E α := do
  ignoreErrors (sendToPeer peer (.error ⟨id, textBytes text⟩))
  ignoreErrors (forceClose id text)
  Act.fail (.channel (.close text))

/-- Run a channel operation for a peer. -/
def withChannel (peer : PeerId) (id : ChannelId) (i : Channel.Input) : NodeAct E i.Outcome := do
  let entry ← entryOf id
  let n ← get
  if n.byNodeId.lookup entry.nodeId ≠ some peer then Act.fail .channelNotFound
  else do
    match ← Act.attempt (onChannel id i) with
    | .ok v => return v
    | .error (.channel (.close text)) => failChannel peer id text
    | .error e => Act.fail e

/-! ## Closing -/

def finishCooperativeClose (id : ChannelId) (entry : ChannelEntry) (tx : Transaction) :
    NodeAct E Unit := do
  publish entry tx
  event (.channelClosed id "cooperative close" (some (tx.txid E.C)))

/-- Kick the closing negotiation if the channel just became quiescent. -/
def tryStartClosing (id : ChannelId) : NodeAct E Unit := do
  let n ← get
  match n.channels.lookup id with
  | none => return
  | some entry => do
    match ← onChannel id (.maybeSendClosingSigned n.config.closeFeerate) with
    | some msg => sendFor entry (.closingSigned msg)
    | none => return

/-- Begin cooperative close. -/
def closeChannel (id : ChannelId) : NodeAct E Unit := do
  let n ← get
  let entry ← entryOf id
  let msg ← onChannel id (.sendShutdown n.config.closeScript)
  sendFor entry (.shutdown msg)
  tryStartClosing id

def onClosingSigned (peer : PeerId) (msg : Wire.ClosingSigned) : NodeAct E Unit := do
  let n ← get
  let entry ← entryOf msg.channelId
  match ← withChannel peer msg.channelId (.closingSigned msg n.config.closeFeerate) with
  | .reply reply maybeTx => do
    sendToPeer peer (.closingSigned reply)
    record (.spoke entry.serial (.closingSigned reply))
    match maybeTx with
    | some tx => finishCooperativeClose msg.channelId entry tx
    | none => return
  | .done tx => finishCooperativeClose msg.channelId entry tx

/-! ## Gossip -/

def dummySig : Signature := E.C.signEcdsa ⟨Vector.replicate 32 1⟩ (Vector.replicate 32 0)

/-- The unsigned `channel_announcement` of one of our channels, and whether we are node 1. -/
def buildOurAnnouncement (n : Node E) (id : ChannelId) :
    Option (Wire.ChannelAnnouncement × Bool) := do
  let entry ← n.channels.lookup id
  let scid ← entry.channel.shortChannelId
  let theirs ← entry.channel.counterpartyPubkeys
  let ours := entry.channel.holderPubkeys
  let weAreFirst : Bool := E.nodeId.serialize < entry.nodeId.serialize
  let dummy := dummySig (E := E)
  let nodes := if weAreFirst then (E.nodeId, entry.nodeId) else (entry.nodeId, E.nodeId)
  let keys := if weAreFirst then (ours.fundingPubkey, theirs.fundingPubkey)
    else (theirs.fundingPubkey, ours.fundingPubkey)
  return (⟨dummy, dummy, dummy, dummy, [], n.config.network.chainHash, scid, nodes.1, nodes.2,
    keys.1, keys.2⟩, weAreFirst)

/-- Our directional policy, signed. -/
def buildOurChannelUpdate (n : Node E) (id : ChannelId) (weAreFirst : Bool) :
    Except NodeError Wire.ChannelUpdate := do
  let entry ← (n.channels.lookup id).elim (.error .channelNotFound) .ok
  let scid ← entry.channel.shortChannelId.elim (.error .channelNotFound) .ok
  let update : Wire.ChannelUpdate :=
    { signature := dummySig (E := E)
      chainHash := n.config.network.chainHash
      shortChannelId := scid
      timestamp := n.now % 2 ^ 32
      messageFlags := 1
      channelFlags := if weAreFirst then 0 else 1
      cltvExpiryDelta := n.config.forwarding.cltvExpiryDelta
      htlcMinimumMsat := 1
      feeBaseMsat := n.config.forwarding.feeBaseMsat
      feeProportionalMillionths := n.config.forwarding.feeProportionalMillionths
      htlcMaximumMsat := entry.channel.fundingAmountSat * 1000 }
  return { update with signature := E.signGossip (E.C.sha256d (E.updatePayload update)) }

/-- The two halves of the signatures, ours first if we are node 1. -/
def assembleAnnouncement (unsigned : Wire.ChannelAnnouncement) (weAreFirst : Bool)
    (ours theirs : Signature × Signature) : Wire.ChannelAnnouncement :=
  let sigs := if weAreFirst then (ours, theirs) else (theirs, ours)
  { unsigned with
    nodeSignature1 := sigs.1.1
    bitcoinSignature1 := sigs.1.2
    nodeSignature2 := sigs.2.1
    bitcoinSignature2 := sigs.2.2 }

/-- Enter our own announcement into the graph and spread it with our policy. -/
def publishAnnouncement (id : ChannelId) (full : Wire.ChannelAnnouncement) (capacity : Nat)
    (weAreFirst : Bool) : NodeAct E Unit := do
  let n ← get
  match E.applyChannelAnnouncement n.graph full (some capacity) with
  | .error _ => return
  | .ok graph => do
    set { n with graph }
    broadcastToReadyPeers (.channelAnnouncement full)
    let n ← get
    match buildOurChannelUpdate n id weAreFirst with
    | .error e => Act.fail e
    | .ok update => do
      match E.applyChannelUpdate n.graph update with
      | .ok graph => set { n with graph }
      | .error _ => pure ()
      broadcastToReadyPeers (.channelUpdate update)

/-- Our node and funding signatures of an announcement. -/
def announcementSigs (entry : ChannelEntry) (unsigned : Wire.ChannelAnnouncement) :
    Signature × Signature :=
  let hash := E.C.sha256d (E.announcementPayload unsigned)
  (E.signGossip hash, entry.channel.signer.signAnnouncementWithFundingKey hash)

/-- Send `announcement_signatures`, once. -/
def sendAnnouncementSigs (id : ChannelId) (entry : ChannelEntry)
    (unsigned : Wire.ChannelAnnouncement) : NodeAct E Unit :=
  if entry.sentAnnouncementSigs then return
  else do
    setEntry id { entry with sentAnnouncementSigs := true }
    let ours := announcementSigs (E := E) entry unsigned
    sendToNode entry.nodeId
      (.announcementSignatures ⟨id, unsigned.shortChannelId, ours.1, ours.2⟩)

/-- Finish the announcement when we have both halves, once. -/
def finishAnnouncement (id : ChannelId) (unsigned : Wire.ChannelAnnouncement)
    (weAreFirst : Bool) : NodeAct E Unit := do
  let entry ← entryOf id
  if entry.announced then return
  else
    match entry.theirAnnouncementSigs with
    | none => return
    | some theirs => do
      setEntry id { entry with announced := true }
      publishAnnouncement id
        (assembleAnnouncement unsigned weAreFirst (announcementSigs (E := E) entry unsigned)
          (theirs.nodeSignature, theirs.bitcoinSignature))
        entry.channel.fundingAmountSat weAreFirst

/-- Announce a channel that is ready and confirmed. -/
def maybeAnnounceChannel (id : ChannelId) : NodeAct E Unit := do
  let n ← get
  match n.channels.lookup id with
  | none => return
  | some entry =>
    if !entry.channel.announce || !entry.channel.isUsable then return
    else
      match n.buildOurAnnouncement id with
      | none => return
      | some (unsigned, weAreFirst) => do
        sendAnnouncementSigs id entry unsigned
        finishAnnouncement id unsigned weAreFirst

def afterChannelReadyChange (id : ChannelId) : NodeAct E Unit := do
  let n ← get
  match n.channels.lookup id with
  | none => return
  | some entry =>
    if entry.channel.isUsable then do
      event (.channelReady id entry.nodeId)
      maybeAnnounceChannel id

def onAnnouncementSignatures (peer : PeerId) (msg : Wire.AnnouncementSignatures) :
    NodeAct E Unit := do
  let n ← get
  let entry ← entryOf msg.channelId
  if ((n.peers.lookup peer).bind (·.nodeId)) ≠ some entry.nodeId then Act.fail .channelNotFound
  else do
    setEntry msg.channelId { entry with theirAnnouncementSigs := some msg }
    maybeAnnounceChannel msg.channelId

/-! ## Opening -/

/-- Take the next signer. -/
def nextSigner : NodeAct E ChannelSigner := do
  let n ← get
  set { n with channelCounter := n.channelCounter + 1 }
  return E.deriveChannelSigner n.channelCounter

/-- Open a channel to a connected peer; the temporary channel id. -/
def openChannel (nodeId : PublicKey) (capacitySat : Nat) (pushMsat : Msat) :
    NodeAct E ChannelId := do
  let n ← get
  let peer ← Act.okOr (n.byNodeId.lookup nodeId) .peerNotFound
  if !(n.peers.lookup peer).any peerReady then Act.fail .peerNotReady
  else do
    let signer ← nextSigner
    let tempId ← randomBytes
    match Channel.newOutbound signer n.config.channel n.config.network tempId capacitySat pushMsat
        n.config.commitmentFeerate with
    | .error (.err e) => Act.fail (.channel e)
    | .error .panic => Act.panic
    | .ok (channel, openMsg) => do
      addChannel tempId channel nodeId
      sendToPeer peer (.openChannel openMsg)
      return tempId

def onOpenChannel (peer : PeerId) (msg : Wire.OpenChannel) : NodeAct E Unit := do
  let n ← get
  if !n.config.acceptInbound then sendWarning peer "not accepting channels"
  else do
    let nodeId ← Act.okOr ((n.peers.lookup peer).bind (·.nodeId)) .peerNotReady
    let signer ← nextSigner
    match Channel.newInbound E.C signer n.config.channel n.config.network msg with
    | .ok (channel, accept) => do
      addChannel msg.temporaryChannelId channel nodeId
      sendToPeer peer (.acceptChannel accept)
    | .error (.err e) =>
      sendToPeer peer (.error ⟨msg.temporaryChannelId, textBytes e.display⟩)
    | .error .panic => Act.panic

def onAcceptChannel (peer : PeerId) (msg : Wire.AcceptChannel) : NodeAct E Unit := do
  let id := msg.temporaryChannelId
  withChannel peer id (.acceptChannel msg)
  let script ← askChannel id (·.fundingScriptPubkey E.C)
  let entry ← entryOf id
  event (.fundingRequired id script entry.channel.fundingAmountSat)

def removeEntry (id : ChannelId) : NodeAct E Unit :=
  modify fun n => { n with channels := n.channels.erase id }

/-- Move an entry from one key to another. -/
def rekey (id newId : ChannelId) (entry : ChannelEntry) : NodeAct E Unit := do
  removeEntry id
  setEntry newId entry
  record (.rekeyed entry.serial id newId)

/-- The funding output of a transaction: its index, when the value is right. -/
def fundingVout (tx : Transaction) (script : Script) (valueSat : Nat) : Except NodeError Nat :=
  match tx.output.findIdx? (·.scriptPubkey = script) with
  | none => .error (.invalidFundingTx "no output pays the funding script")
  | some vout =>
    if (tx.output[vout]?).map (·.value) = some valueSat then .ok (vout % 2 ^ 16)
    else .error (.invalidFundingTx "funding output value mismatch")

/-- Provide the funding transaction of a channel; the final channel id. -/
def provideFundingTransaction (id : ChannelId) (tx : Transaction) : NodeAct E ChannelId := do
  let script ← askChannel id (·.fundingScriptPubkey E.C)
  let entry ← entryOf id
  match fundingVout tx script entry.channel.fundingAmountSat with
  | .error e => Act.fail e
  | .ok vout => do
    let txid := tx.txid E.C
    let msg ← onChannel id (.createFunding txid vout)
    let entry ← entryOf id
    let newId := entry.channel.channelId
    rekey id newId { entry with fundingTx := some tx }
    sendFor entry (.fundingCreated msg)
    event (.channelPending newId txid)
    return newId

def onFundingCreated (peer : PeerId) (msg : Wire.FundingCreated) : NodeAct E Unit := do
  let tempId := msg.temporaryChannelId
  let reply ← withChannel peer tempId (.fundingCreated msg)
  let newId := channelIdFromFunding msg.fundingTxid msg.fundingOutputIndex
  let n ← get
  let entry ← Act.expect (n.channels.lookup tempId)
  removeEntry tempId
  let outpoint ← Act.expect entry.channel.fundingOutpoint
  match entry.channel.fundingScriptPubkey E.C with
  | .error (.err e) => Act.fail (.channel e)
  | .error .panic => Act.panic
  | .ok script => do
    setEntry newId entry
    record (.rekeyed entry.serial tempId newId)
    sendFor entry (.fundingSigned reply)
    emit (.watchFunding newId outpoint script)
    event (.channelPending newId msg.fundingTxid)

def onFundingSigned (peer : PeerId) (msg : Wire.FundingSigned) : NodeAct E Unit := do
  let id := msg.channelId
  withChannel peer id (.fundingSigned msg)
  let entry ← entryOf id
  let tx ← Act.okOr entry.fundingTx (.invalidFundingTx "funding tx not held")
  setEntry id { entry with fundingTx := none }
  let outpoint ← Act.expect entry.channel.fundingOutpoint
  let script ← askChannel id (·.fundingScriptPubkey E.C)
  emit (.watchFunding id outpoint script)
  publish entry tx

/-- The funding transaction of the channel reached its depth. -/
def fundingConfirmed (id : ChannelId) (scid : ShortChannelId) : NodeAct E Unit := do
  let entry ← entryOf id
  let msg ← onChannel id (.confirmFunding scid)
  modify fun n => { n with scidIndex := n.scidIndex.insert scid id }
  match msg with
  | some msg => sendFor entry (.channelReady msg)
  | none => pure ()
  afterChannelReadyChange id

end Node
