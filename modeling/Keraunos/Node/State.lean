import Keraunos.Channel.Machine
import Keraunos.Invoice.Bolt11
import Keraunos.Noise.Cipher
import Keraunos.Onion.Packet
import Keraunos.Onion.Payload
import Mathlib.Data.List.AList

/-!
# The node (`node/mod.rs`, `node/peer.rs`)

The state of a node and its elementary actions: outputs, messages to peers, operations on one
channel. Maps are association lists; where the code iterates over a map, the order is a parameter.

`Env` collects what the node is built on: the primitives, the encrypted transport with the message
codec, the keys, the randomness, the network graph with the router, and the codecs of onions and
invoices. It is a parameter of everything about nodes.

`Node.history` is a history variable, and so is `ChannelEntry.serial`. No function reads them.
-/

open Bitcoin

/-- A map. -/
abbrev Table (κ ν : Type) : Type := AList fun _ : κ => ν

abbrev PeerId : Type := Nat

inductive GossipError where
  | badSignature
  | unknownChannel
  | wrongChain
  | ignored
  deriving DecidableEq, Repr

inductive RouteError where
  | noPath
  | limitExceeded
  deriving DecidableEq, Repr

inductive NodeError where
  | peerNotFound
  | peerNotReady
  | channelNotFound
  | noUsableChannel
  | noise (e : NoiseError)
  | channel (e : ChannelError)
  | route (e : RouteError)
  /-- `InvoiceError::MissingField`, the only invoice error the node raises. -/
  | invoiceMissingField (field : String)
  | invalidFundingTx (msg : String)
  | duplicatePayment
  deriving DecidableEq, Repr

/-- `Display` of a channel error. -/
def ChannelError.display : ChannelError → String
  | .close s => "channel failure: " ++ s
  | .ignore s => "ignored: " ++ s
  | .invalidState s => "invalid state: " ++ s

/-! ## Routes -/

/-- A channel of ours, usable as a first hop. -/
structure FirstHop where
  peer : PublicKey
  shortChannelId : ShortChannelId
  availableMsat : Msat
  deriving DecidableEq, Repr

structure RouteParams where
  payer : PublicKey
  payee : PublicKey
  amountMsat : Msat
  finalCltvExpiry : Nat
  firstHops : List FirstHop
  routeHints : List (List RouteHintHop)
  maxHops : Nat

structure RouteHop where
  nodeId : PublicKey
  shortChannelId : ShortChannelId
  amountMsat : Msat
  cltvExpiry : Nat
  deriving DecidableEq, Repr

structure Route where
  hops : List RouteHop
  firstHopAmountMsat : Msat
  firstHopCltv : Nat
  deriving DecidableEq, Repr

/-! ## The environment -/

/-- What a transport makes of bytes from the socket. -/
structure PeerInput (Data Transport : Type) where
  transport : Transport
  /-- The identity the handshake revealed. -/
  nodeId : Option PublicKey
  /-- Handshake bytes to write back, and the decrypted messages, decoded. -/
  result : Except (Fault NoiseError) (List Data × List (Except Wire.WireError Wire.Message))

structure Env where
  C : Crypto
  /-- Bytes on a socket. -/
  Data : Type
  /-- `PeerTransport` with the handshake buffer. -/
  Transport : Type
  newOutbound : PublicKey → SecretKey → Transport × Data
  newInbound : SecretKey → Transport
  isTransport : Transport → Bool
  input : Transport → Data → PeerInput Data Transport
  encrypt : Transport → Wire.Message → Transport × Except NoiseError Data
  /-- The transport was made for a node, its handshake has revealed one, or it is dead. -/
  identified : Transport → Bool
  identified_outbound : ∀ remote ephemeral, identified (newOutbound remote ephemeral).1
  identified_revealed : ∀ t data, (input t data).nodeId.isSome → identified (input t data).transport
  identified_input : ∀ t data, identified t → identified (input t data).transport
  identified_encrypt : ∀ t msg, identified t → identified (encrypt t msg).1
  /-- An identity is revealed once. -/
  input_identified : ∀ t data, identified t → (input t data).nodeId = none
  nodeId : PublicKey
  deriveChannelSigner : Nat → ChannelSigner
  ecdh : PublicKey → Bytes32
  signGossip : Bytes32 → Signature
  /-- The state of the entropy source. -/
  Entropy : Type
  randomBytes : Entropy → Bytes32 × Entropy
  /-- The next random bytes that are a secret key. -/
  randomSecretKey : Entropy → SecretKey × Entropy
  Graph : Type
  newGraph : Network → Graph
  applyChannelAnnouncement : Graph → Wire.ChannelAnnouncement → Option Nat →
    Except GossipError Graph
  applyChannelUpdate : Graph → Wire.ChannelUpdate → Except GossipError Graph
  applyNodeAnnouncement : Graph → Wire.NodeAnnouncement → Except GossipError Graph
  findRoute : Graph → RouteParams → Except RouteError Route
  parseOnion : List UInt8 → Option Onion.OnionPacket
  encodePayload : Onion.HopPayload → List UInt8
  decodePayload : List UInt8 → Option Onion.HopPayload
  sharedSecretsForPath : SecretKey → List PublicKey → List Bytes32
  encodeInvoice : InvoiceBuilder → String
  /-- The signed part of a gossip message. -/
  announcementPayload : Wire.ChannelAnnouncement → List UInt8
  updatePayload : Wire.ChannelUpdate → List UInt8
  /-- `String::from_utf8_lossy`. -/
  lossyText : List UInt8 → String
  /-- The order in which the peers and the channels are visited. -/
  peerOrder : List PeerId → List PeerId
  channelOrder : List ChannelId → List ChannelId
  peerOrder_perm : ∀ ids, (peerOrder ids).Perm ids
  channelOrder_perm : ∀ ids, (channelOrder ids).Perm ids

/-! ## State -/

inductive NodeEvent where
  | peerConnected (peer : PeerId) (nodeId : PublicKey)
  | peerDisconnected (peer : PeerId)
  | fundingRequired (channelId : ChannelId) (script : Script) (valueSat : Nat)
  | channelPending (channelId : ChannelId) (fundingTxid : Txid)
  | channelReady (channelId : ChannelId) (nodeId : PublicKey)
  | paymentClaimable (paymentHash : PaymentHash) (amountMsat : Msat)
  | paymentClaimed (paymentHash : PaymentHash) (amountMsat : Msat)
  | paymentSent (paymentId : Bytes32) (paymentHash : PaymentHash) (preimage : PaymentPreimage)
  | paymentFailed (paymentId : Bytes32) (paymentHash : PaymentHash) (failureCode : Option Nat)
      (erringHop : Option Nat)
  | forwarded (inboundChannel outboundChannel : ChannelId) (feeMsat : Msat)
  | channelClosed (channelId : ChannelId) (reason : String) (closingTxid : Option Txid)
  | dataLossDetected (channelId : ChannelId)
  deriving DecidableEq

/-- Effects for the embedder. -/
inductive Output (Data : Type) where
  | wire (peer : PeerId) (bytes : Data)
  | broadcast (tx : Transaction)
  | watchFunding (channelId : ChannelId) (outpoint : OutPoint) (script : Script)
  | event (e : NodeEvent)

structure ForwardingPolicy where
  feeBaseMsat : Nat := 1000
  feeProportionalMillionths : Nat := 100
  cltvExpiryDelta : Nat := 40
  deriving DecidableEq, Repr

structure NodeConfig where
  network : Network
  channel : ChannelConfig := {}
  forwarding : ForwardingPolicy := {}
  closeScript : Script
  commitmentFeerate : FeeRatePerKw := 253
  closeFeerate : FeeRatePerKw := 253
  autoClaim : Bool := true
  finalCltvMargin : Nat := 6
  acceptInbound : Bool := true

structure Peer (E : Env) where
  transport : E.Transport
  nodeId : Option PublicKey
  initSent : Bool := false
  initReceived : Bool := false
  features : Features := []
  lastPingSentAt : Nat := 0
  awaitingPong : Bool := false

structure ChannelEntry where
  channel : Channel
  nodeId : PublicKey
  /-- Funding tx held until `funding_signed` arrives (opener only). -/
  fundingTx : Option Transaction := none
  announced : Bool := false
  theirAnnouncementSigs : Option Wire.AnnouncementSignatures := none
  sentAnnouncementSigs : Bool := false
  /-- History: which of the node's channels this is; the length of the history when it was added. -/
  serial : Nat

structure PendingPayment where
  paymentHash : PaymentHash
  sharedSecrets : List Bytes32
  deriving DecidableEq

structure InvoiceEntry where
  preimage : PaymentPreimage
  paymentSecret : PaymentSecret
  amountMsat : Option Msat
  minFinalCltv : Nat
  deriving DecidableEq

/-- What a node did, in plain terms. -/
inductive Happening where
  /-- A channel was entered under the key `id`. -/
  | opened (serial : Nat) (id : ChannelId)
  /-- The channel was moved from the key `id` to `newId`. -/
  | rekeyed (serial : Nat) (id newId : ChannelId)
  /-- A method of the channel was called; the entry is the one before the call. -/
  | acted (entry : ChannelEntry) (input : Channel.Input)
      (result : Except ChannelError input.Outcome)
  /-- A message of the channel was handed to the transport of its peer. -/
  | spoke (serial : Nat) (msg : Wire.Message)
  /-- Our commitment of the channel was broadcast. -/
  | forceClosed (entry : ChannelEntry)
  /-- The funding or the closing transaction of the channel was broadcast. -/
  | published (entry : ChannelEntry) (tx : Transaction)
  /-- The failure of an outgoing HTLC was reported to where it came from. -/
  | failedBack (source : HtlcSource)
  /-- The embedder ordered the channel closed. -/
  | ordered (id : ChannelId)
  /-- The embedder took an output. -/
  | polled

structure Node (E : Env) where
  config : NodeConfig
  entropy : E.Entropy
  peers : Table PeerId (Peer E) := ∅
  byNodeId : Table PublicKey PeerId := ∅
  nextPeer : Nat := 1
  channels : Table ChannelId ChannelEntry := ∅
  scidIndex : Table ShortChannelId ChannelId := ∅
  channelCounter : Nat := 0
  graph : E.Graph
  payments : Table Bytes32 PendingPayment := ∅
  invoices : Table PaymentHash InvoiceEntry := ∅
  claimable : Table PaymentHash (ChannelId × HtlcId × Msat) := ∅
  inboundOnionSecrets : Table (ChannelId × HtlcId) Bytes32 := ∅
  forwardFees : Table (ChannelId × HtlcId) (ChannelId × Msat) := ∅
  outputs : List (Output E.Data) := []
  bestHeight : Nat := 0
  now : Nat := 0
  /-- History: what happened, in order. -/
  history : List Happening := []

/-- `Node::new`. -/
def Node.new (E : Env) (entropy : E.Entropy) (config : NodeConfig) : Node E :=
  { config, entropy, graph := E.newGraph config.network }

/-- An action on a node. -/
abbrev NodeAct (E : Env) (α : Type) : Type := Act NodeError (Node E) α

namespace Node

variable {E : Env}

/-! ## Elementary actions -/

def emit (o : Output E.Data) : NodeAct E Unit :=
  modify fun n => { n with outputs := n.outputs ++ [o] }

def event (e : NodeEvent) : NodeAct E Unit := emit (.event e)

/-- Keep a record; the code has no such state. -/
def record (h : Happening) : NodeAct E Unit :=
  modify fun n => { n with history := n.history ++ [h] }

def randomBytes : NodeAct E Bytes32 := do
  let n ← get
  set { n with entropy := (E.randomBytes n.entropy).2 }
  return (E.randomBytes n.entropy).1

def randomSecretKey : NodeAct E SecretKey := do
  let n ← get
  set { n with entropy := (E.randomSecretKey n.entropy).2 }
  return (E.randomSecretKey n.entropy).1

/-- `is_ready`. -/
def peerReady (p : Peer E) : Bool :=
  E.isTransport p.transport && p.initSent && p.initReceived

def setPeer (id : PeerId) (p : Peer E) : NodeAct E Unit :=
  modify fun n => { n with peers := n.peers.insert id p }

def sendToPeer (peer : PeerId) (msg : Wire.Message) : NodeAct E Unit := do
  let n ← get
  let p ← Act.okOr (n.peers.lookup peer) .peerNotFound
  let (transport, bytes) := E.encrypt p.transport msg
  setPeer peer { p with transport }
  match bytes with
  | .error e => Act.fail (.noise e)
  | .ok bytes => emit (.wire peer bytes)

def sendToNode (nodeId : PublicKey) (msg : Wire.Message) : NodeAct E Unit := do
  let n ← get
  let peer ← Act.okOr (n.byNodeId.lookup nodeId) .peerNotFound
  sendToPeer peer msg

/-- `let _ = x`. -/
def ignoreErrors {α : Type} (x : NodeAct E α) : NodeAct E Unit := do
  let _ ← Act.attempt x
  return

def textBytes (text : String) : List UInt8 := text.toUTF8.toList

def zeroChannelId : ChannelId := Vector.replicate 32 0

/-- Every transaction that is broadcast comes with a record of whose it is. -/
def publish (entry : ChannelEntry) (tx : Transaction) : NodeAct E Unit := do
  emit (.broadcast tx)
  record (.published entry tx)

def sendWarning (peer : PeerId) (text : String) : NodeAct E Unit :=
  ignoreErrors (sendToPeer peer (.warning ⟨zeroChannelId, textBytes text⟩))

/-- The peers in the order they are visited. -/
def peersInOrder (n : Node E) : List PeerId := E.peerOrder n.peers.keys

def channelsInOrder (n : Node E) : List ChannelId := E.channelOrder n.channels.keys

def broadcastToReadyPeers (msg : Wire.Message) : NodeAct E Unit := do
  let n ← get
  let ready := n.peersInOrder.filter fun id => (n.peers.lookup id).any peerReady
  ready.forM fun id => ignoreErrors (sendToPeer id msg)

/-! ## One channel -/

def entryOf (id : ChannelId) : NodeAct E ChannelEntry := do
  let n ← get
  Act.okOr (n.channels.lookup id) .channelNotFound

def setEntry (id : ChannelId) (entry : ChannelEntry) : NodeAct E Unit :=
  modify fun n => { n with channels := n.channels.insert id entry }

/-- Enter a new channel. -/
def addChannel (id : ChannelId) (channel : Channel) (nodeId : PublicKey) : NodeAct E Unit := do
  let n ← get
  setEntry id { channel, nodeId, serial := n.history.length }
  record (.opened n.history.length id)

/-- Call a method of the channel `id`. -/
def onChannel (id : ChannelId) (i : Channel.Input) : NodeAct E i.Outcome := do
  let entry ← entryOf id
  match Channel.perform E.C i entry.channel with
  | .ok a channel => do
    setEntry id { entry with channel }
    record (.acted entry i (.ok a))
    return a
  | .error (.err e) channel => do
    setEntry id { entry with channel }
    record (.acted entry i (.error e))
    Act.fail (.channel e)
  | .error .panic _ => Act.panic

/-- A method of the channel `id` that changes nothing. -/
def askChannel {α : Type} (id : ChannelId) (f : Channel → ChannelResult α) : NodeAct E α := do
  let entry ← entryOf id
  match f entry.channel with
  | .ok a => return a
  | .error (.err e) => Act.fail (.channel e)
  | .error .panic => Act.panic

/-- Send a message of the channel `entry` to its peer. -/
def sendFor (entry : ChannelEntry) (msg : Wire.Message) : NodeAct E Unit := do
  sendToNode entry.nodeId msg
  record (.spoke entry.serial msg)

end Node
