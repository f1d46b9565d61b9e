import Keraunos.Wire.Ser

/-!
# Sphinx onion packets (`onion/mod.rs`)

Construction of a payment onion and peeling of one layer, and the encrypted error return.
-/

namespace Onion

open Bytes Wire

def payloadsLen : Nat := 1300

def zero32 : Bytes32 := Vector.replicate 32 0

inductive OnionError where
  | invalidVersion
  | invalidPubkey
  | invalidHmac
  | badLength
  | badPayload
  deriving DecidableEq, Repr

structure OnionPacket where
  version : Nat
  ephemeralKey : PublicKey
  payloads : List UInt8
  hmac : Bytes32
  length_payloads : payloads.length = payloadsLen
  deriving DecidableEq

def OnionPacket.serialize (p : OnionPacket) : List UInt8 :=
  beBytes 1 p.version ++ p.ephemeralKey.serialize ++ p.payloads ++ p.hmac.toList

/-! ## Keys -/

/-- The key types `b"rho"`, `b"mu"`, `b"pad"`, `b"um"` and `b"ammag"`. -/
def rhoType : List UInt8 := [0x72, 0x68, 0x6f]
def muType : List UInt8 := [0x6d, 0x75]
def padType : List UInt8 := [0x70, 0x61, 0x64]
def umType : List UInt8 := [0x75, 0x6d]
def ammagType : List UInt8 := [0x61, 0x6d, 0x6d, 0x61, 0x67]

section
variable (C : Crypto)

def generateKey (keyType : List UInt8) (secret : Bytes32) : Bytes32 :=
  C.hmacSha256 keyType secret.toList

def rho (ss : Bytes32) : Bytes32 := generateKey C rhoType ss
def mu (ss : Bytes32) : Bytes32 := generateKey C muType ss

/-- The MAC over the payloads and the associated data. -/
def mac (ss : Bytes32) (payloads assocData : List UInt8) : Bytes32 :=
  C.hmacSha256 (mu C ss).toList (payloads ++ assocData)

/-- The blinding factor `SHA256(ephemeral_key || shared_secret)`. -/
def blinding (ephemeral : PublicKey) (ss : Bytes32) : Bytes32 :=
  C.sha256 (ephemeral.serialize ++ ss.toList)

end

def shiftSize (payloadLen : Nat) : Nat := BigSize.len payloadLen + payloadLen + 32

/-! ## Construction -/

/-- A hop: its shared secret and its payload. -/
abbrev Hop : Type := Bytes32 × List UInt8

def Hop.shift (h : Hop) : Nat := shiftSize h.2.length

def totalShift (hops : List Hop) : Nat := (hops.map Hop.shift).sum

section
variable (C : Crypto)

/-- One round of the filler loop: `covered` bytes are garbage so far. -/
def fillerStep (st : List UInt8 × Nat) (h : Hop) : List UInt8 × Nat :=
  let stream := C.keystream (rho C h.1) (payloadsLen + h.shift)
  (xorInto st.1 (stream.drop (payloadsLen - st.2)), st.2 + h.shift)

/-- The stream garbage covering all but the final hop's payload region. -/
def filler (hops : List Hop) : List UInt8 :=
  (hops.dropLast.foldl (fillerStep C) (List.replicate (totalShift hops.dropLast) 0, 0)).1

/-- `bigsize(len) || payload || hmac`. -/
def frame (payload : List UInt8) (nextHmac : Bytes32) : List UInt8 :=
  BigSize.write payload.length ++ payload ++ nextHmac.toList

/-- One round of the wrapping loop; `tail` overwrites the end of the last hop's layer. -/
def wrapHop (assocData tail : List UInt8) (h : Hop) (inner : List UInt8 × Bytes32) :
    List UInt8 × Bytes32 :=
  let fr := frame h.2 inner.2
  let mix := fr ++ inner.1.take (payloadsLen - fr.length)
  let mix := xorInto mix (C.keystream (rho C h.1) payloadsLen)
  let mix := if 0 < tail.length then mix.take (payloadsLen - tail.length) ++ tail else mix
  (mix, mac C h.1 mix assocData)

/-- The wrapping loop, from the last hop to the first. -/
def wrapAll (assocData pad fill : List UInt8) : List Hop → List UInt8 × Bytes32
  | [] => (pad, zero32)
  | h :: rest =>
    wrapHop C assocData (if rest.isEmpty then fill else []) h (wrapAll assocData pad fill rest)

/-- `construct`: panics on unequal lists, an empty route or payloads over the capacity. -/
def construct (sessionKey : SecretKey) (sharedSecrets : List Bytes32) (payloads : List (List UInt8))
    (assocData : List UInt8) : Except (Fault OnionError) OnionPacket :=
  let hops := sharedSecrets.zip payloads
  if sharedSecrets.length = payloads.length ∧ payloads ≠ [] ∧ totalShift hops ≤ payloadsLen then
    let pad := C.keystream (generateKey C padType sessionKey.bytes) payloadsLen
    let mix := wrapAll C assocData pad (filler C hops) hops
    if h : mix.1.length = payloadsLen then
      .ok ⟨0, C.publicKey sessionKey, mix.1, mix.2, h⟩
    else .error .panic
  else .error .panic

end

/-! ## Peeling -/

/-- The outcome of peeling one layer. -/
inductive Peeled where
  | forward (payload : List UInt8) (next : OnionPacket)
  | final (payload : List UInt8)
  deriving DecidableEq

/-- The hop payload, the next HMAC and the unread rest of a decrypted buffer. -/
def readFrame : Reader (List UInt8 × List UInt8) := do
  let payloadLen ← BigSize.read
  if 2 ≤ payloadLen ∧ payloadLen ≤ payloadsLen - 32 then
    let payload ← Reader.take payloadLen
    let nextHmac ← Reader.take 32
    return (payload, nextHmac)
  else throw (.badFormat "payload length")

section
variable (C : Crypto)

/-- The ephemeral key for the next hop. -/
def nextEphemeral (ephemeral : PublicKey) (ss : Bytes32) : Except (Fault OnionError) PublicKey :=
  if C.validScalar (blinding C ephemeral ss) then
    match C.mulTweak ephemeral (blinding C ephemeral ss) with
    | some k => .ok k
    | none => .error (.err .invalidPubkey)
  else .error .panic

/-- `payloads || 1300 zeros`, decrypted. -/
def decryptBuf (ss : Bytes32) (payloads : List UInt8) : List UInt8 :=
  xorInto (payloads ++ List.replicate payloadsLen 0) (C.keystream (rho C ss) (payloadsLen * 2))

/-- `peel_with_secret`. -/
def peelWithSecret (ss : Bytes32) (packet : OnionPacket) (assocData : List UInt8) :
    Except (Fault OnionError) Peeled :=
  if packet.version ≠ 0 then .error (.err .invalidVersion)
  else if mac C ss packet.payloads assocData ≠ packet.hmac then .error (.err .invalidHmac)
  else
    let buf := decryptBuf C ss packet.payloads
    match readFrame.run buf with
    | .error _ => .error (.err .badPayload)
    | .ok ((payload, hmac), rest) =>
      let consumed := payloadsLen * 2 - rest.length
      if h : hmac.length = 32 then
        let nextHmac : Bytes32 := ⟨hmac.toArray, by simpa using h⟩
        if nextHmac = zero32 then .ok (.final payload)
        else
          match nextEphemeral C packet.ephemeralKey ss with
          | .error e => .error e
          | .ok ephemeralKey =>
            let next := (buf.drop consumed).take payloadsLen
            if h : next.length = payloadsLen then
              .ok (.forward payload ⟨0, ephemeralKey, next, nextHmac, h⟩)
            else .error .panic
      else .error .panic

end

/-! ## The error return -/

namespace Failure

section
variable (C : Crypto)

/-- XOR the packet with this hop's `ammag` stream. -/
def wrap (ss : Bytes32) (packet : List UInt8) : List UInt8 :=
  xorInto packet (C.keystream (generateKey C ammagType ss) packet.length)

/-- The erring node's return packet. -/
def build (ss : Bytes32) (failuremsg : List UInt8) : List UInt8 :=
  let target := if failuremsg.length ≤ 256 then 256 else 1024
  let padLen := target - failuremsg.length
  let body := beBytes 2 failuremsg.length ++ failuremsg ++ beBytes 2 padLen ++
    List.replicate padLen 0
  wrap C ss ((C.hmacSha256 (generateKey C umType ss).toList body).toList ++ body)

/-- The origin unwraps layer by layer until a MAC verifies; `i` counts the hops. -/
def decryptFrom (i : Nat) : List Bytes32 → List UInt8 → Option (Nat × List UInt8)
  | [], _ => none
  | ss :: rest, data =>
    let data := wrap C ss data
    if data.length < 34 then none
    else
      let body := data.drop 32
      if (C.hmacSha256 (generateKey C umType ss).toList body).toList = data.take 32 then
        let failureLen := beVal (body.take 2)
        if 2 + failureLen > body.length then none
        else some (i, (body.drop 2).take failureLen)
      else decryptFrom (i + 1) rest data

def decrypt (sharedSecrets : List Bytes32) (packet : List UInt8) : Option (Nat × List UInt8) :=
  decryptFrom C 0 sharedSecrets packet

end

/-- The failure message bytes of a code with data appended. -/
def message (code : Nat) (data : List UInt8) : List UInt8 := beBytes 2 code ++ data

/-- The code of a decrypted failure message. -/
def parseCode (failuremsg : List UInt8) : Option Nat :=
  if failuremsg.length < 2 then none else some (beVal (failuremsg.take 2))

end Failure

end Onion
