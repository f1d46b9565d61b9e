import Keraunos.Noise.Handshake

/-!
# A connection (`node/peer.rs`)

The transport of one connection, from the first byte of the handshake on: `Peer.input` takes the
bytes as the socket cuts them.
-/

namespace Noise

inductive PeerTransport where
  | outboundHandshake (init : Initiator)
  | inboundHandshake (resp : Responder)
  | ready (transport : Transport)
  /-- What a failed handshake leaves. -/
  | poisoned
  deriving DecidableEq

/-- The transport part of `Peer`. -/
structure Peer where
  transport : PeerTransport
  /-- Bytes accumulated during the handshake. -/
  handshakeBuf : List UInt8 := []
  nodeId : Option PublicKey
  deriving DecidableEq

/-- Bytes to write back, and the decrypted messages. -/
abbrev PeerInput : Type := List (List UInt8) × List (List UInt8)

abbrev PeerAct (α : Type) : Type := Act NoiseError Peer α

namespace Peer

def newOutbound (initiator : Initiator) (remote : PublicKey) : Peer where
  transport := .outboundHandshake initiator
  nodeId := some remote

def newInbound (responder : Responder) : Peer where
  transport := .inboundHandshake responder
  nodeId := none

def isTransport (p : Peer) : Bool :=
  match p.transport with
  | .ready _ => true
  | _ => false

section
variable (P : Primitives)

/-- The messages of a transport in place; what it has become stays, also when it fails. -/
def inputReady (t : Transport) (data : List UInt8) : PeerAct (List (List UInt8)) := fun p =>
  match Transport.allMessages P (t.readInput data) with
  | .ok msgs t' => .ok msgs { p with transport := .ready t' }
  | .error e t' => .error e { p with transport := .ready t' }

/-- The dialling side waits for act 2, and answers with act 3. -/
def inputOutbound (init : Initiator) (data : List UInt8) : PeerAct PeerInput := do
  modify fun p => { p with handshakeBuf := p.handshakeBuf ++ data }
  let buf := (← get).handshakeBuf
  if buf.length < actTwoLen then return ([], [])
  else
    modify fun p => { p with handshakeBuf := [], transport := .poisoned }
    let (init, act3) ← Act.lift ((init.actTwo P (buf.take actTwoLen)).mapError .err)
    let transport ← Act.lift ((init.intoTransport P).mapError .err)
    let messages ← inputReady P (transport.readInput (buf.drop actTwoLen)) []
    return ([act3], messages)

/-- The accepting side waits for act 3. -/
def inputActThree (resp : Responder) (toSend : List (List UInt8)) : PeerAct PeerInput := do
  let buf := (← get).handshakeBuf
  if buf.length < actThreeLen then return (toSend, [])
  else
    modify fun p => { p with handshakeBuf := [], transport := .poisoned }
    let (remoteId, transport) ← Act.lift ((resp.actThree P (buf.take actThreeLen)).mapError .err)
    modify fun p => { p with nodeId := some remoteId }
    let messages ← inputReady P (transport.readInput (buf.drop actThreeLen)) []
    return (toSend, messages)

/-- The accepting side: act 1, which it answers with act 2, then act 3. -/
def inputInbound (resp : Responder) (data : List UInt8) : PeerAct PeerInput := do
  modify fun p => { p with handshakeBuf := p.handshakeBuf ++ data }
  if resp.actedOne then inputActThree P resp []
  else
    let buf := (← get).handshakeBuf
    if buf.length < actOneLen then return ([], [])
    else
      modify fun p => { p with handshakeBuf := buf.drop actOneLen, transport := .poisoned }
      let (resp, act2) ← Act.lift ((resp.actOne P (buf.take actOneLen)).mapError .err)
      modify fun p => { p with transport := .inboundHandshake resp }
      inputActThree P resp [act2]

/-- Feed raw socket bytes. -/
def input (data : List UInt8) : PeerAct PeerInput := do
  match (← get).transport with
  | .outboundHandshake init => inputOutbound P init data
  | .inboundHandshake resp => inputInbound P resp data
  | .ready t => do
    let messages ← inputReady P t data
    return ([], messages)
  | .poisoned => Act.panic

def encrypt (plaintext : List UInt8) : PeerAct (List UInt8) := fun p =>
  match p.transport with
  | .ready t =>
    match Transport.encryptMessage P plaintext t with
    | .ok bytes t' => .ok bytes { p with transport := .ready t' }
    | .error e t' => .error e { p with transport := .ready t' }
  | _ => .error (.err .wrongState) p

end

end Peer

end Noise
