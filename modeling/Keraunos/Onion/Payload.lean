import Keraunos.Wire.Msgs
import Keraunos.Wire.Tlv

/-!
# Hop payloads (`onion/payload.rs`)

The payload of a hop is a TLV stream: the amount (2), the expiry (4), the next channel (6), the
payment data (8) and the metadata (16).
-/

namespace Onion

open Bytes Wire

structure PaymentData where
  paymentSecret : PaymentSecret
  totalMsat : Msat
  deriving DecidableEq, Repr

/-- Intermediate hops carry the next channel, the final hop the payment data. -/
structure HopPayload where
  amtToForward : Msat
  outgoingCltvValue : Nat
  shortChannelId : Option ShortChannelId := none
  paymentData : Option PaymentData := none
  paymentMetadata : Option (List UInt8) := none
  deriving DecidableEq, Repr

namespace HopPayload

def forward (amt : Msat) (cltv : Nat) (scid : ShortChannelId) : HopPayload :=
  { amtToForward := amt, outgoingCltvValue := cltv, shortChannelId := some scid }

def finalHop (amt : Msat) (cltv : Nat) (paymentSecret : PaymentSecret) (totalMsat : Msat) :
    HopPayload :=
  { amtToForward := amt, outgoingCltvValue := cltv, paymentData := some ⟨paymentSecret, totalMsat⟩ }

def encode (p : HopPayload) : List UInt8 :=
  Tlv.writeRecord 2 (Tlv.writeTu64 p.amtToForward) ++
    Tlv.writeRecord 4 (Tlv.writeTu32 p.outgoingCltvValue) ++
    Tlv.writeOption 6 (p.shortChannelId.map (beBytes 8)) ++
    Tlv.writeOption 8 (p.paymentData.map fun pd =>
      pd.paymentSecret.toList ++ Tlv.writeTu64 pd.totalMsat) ++
    Tlv.writeOption 16 p.paymentMetadata

/-- What the loop over the records has found so far. -/
structure Found where
  amt : Option Msat := none
  cltv : Option Nat := none
  scid : Option ShortChannelId := none
  paymentData : Option PaymentData := none
  paymentMetadata : Option (List UInt8) := none

def readShortChannelId (value : List UInt8) : Except WireError ShortChannelId :=
  if value.length ≠ 8 then .error (.badFormat "short_channel_id length") else .ok (beVal value)

def readPaymentData (value : List UInt8) : Except WireError PaymentData :=
  if h : value.length < 32 then .error (.badFormat "payment_data too short")
  else do
    let secret : PaymentSecret := ⟨(value.take 32).toArray, Bytes32.size_take h⟩
    return ⟨secret, ← Tlv.readTu64 (value.drop 32)⟩

/-- The arm of the `match` on the type. -/
def readRecord (found : Found) (r : TlvRecord) : Except WireError Found :=
  if r.typ = 2 then do return { found with amt := some (← Tlv.readTu64 r.value) }
  else if r.typ = 4 then do return { found with cltv := some (← Tlv.readTu32 r.value) }
  else if r.typ = 6 then do return { found with scid := some (← readShortChannelId r.value) }
  else if r.typ = 8 then do return { found with paymentData := some (← readPaymentData r.value) }
  else if r.typ = 16 then .ok { found with paymentMetadata := some r.value }
  else .ok found

def decode (payload : List UInt8) : Except WireError HopPayload := do
  let records ← Tlv.parseStream payload
  Tlv.checkUnknownEven records [2, 4, 6, 8, 16]
  let found ← records.foldlM readRecord {}
  let some amtToForward := found.amt | throw (.badFormat "missing amt_to_forward")
  let some outgoingCltvValue := found.cltv | throw (.badFormat "missing outgoing_cltv")
  return { amtToForward, outgoingCltvValue
           shortChannelId := found.scid
           paymentData := found.paymentData
           paymentMetadata := found.paymentMetadata }

end HopPayload

end Onion
