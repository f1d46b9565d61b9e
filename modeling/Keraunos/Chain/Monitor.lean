import Keraunos.Channel.Open

/-!
# The chain monitor (`chain/monitor.rs`)

The snapshot of a channel that the monitor keeps, and its classification of a transaction that
spends the funding output.
-/

open Bitcoin Commitment

/-- What the monitor knows about the counterparty's current commitment. -/
structure CounterpartyCommitmentData where
  number : Nat
  txid : Txid
  perCommitmentPoint : PublicKey
  htlcs : List (HtlcOutputInCommitment × Option Nat)
  deriving DecidableEq

/-- Known preimages by payment hash (a `HashMap`: one entry a key; the list is its iteration
order). -/
structure PreimageMap where
  entries : List (PaymentHash × PaymentPreimage)
  nodup : (entries.map Prod.fst).Nodup
  deriving DecidableEq

namespace PreimageMap

def empty : PreimageMap := ⟨[], List.nodup_nil⟩

def get (m : PreimageMap) (hash : PaymentHash) : Option PaymentPreimage :=
  (m.entries.find? fun e => e.1 = hash).map Prod.snd

def values (m : PreimageMap) : List PaymentPreimage := m.entries.map Prod.snd

/-- Replace the value of the key, or add the key. -/
def insert (m : PreimageMap) (hash : PaymentHash) (preimage : PaymentPreimage) : PreimageMap :=
  if h : hash ∈ m.entries.map Prod.fst then
    { entries := m.entries.map fun e => if e.1 = hash then (hash, preimage) else e
      nodup := by
        have hkeys : (m.entries.map fun e => if e.1 = hash then (hash, preimage) else e).map
            Prod.fst = m.entries.map Prod.fst := by
          rw [List.map_map]
          apply List.map_congr_left
          intro e _
          simp only [Function.comp_apply]
          split
          · next he => exact he.symm
          · rfl
        rw [hkeys]
        exact m.nodup }
  else
    { entries := m.entries ++ [(hash, preimage)]
      nodup := by
        rw [List.map_append, List.nodup_append]
        refine ⟨m.nodup, by simp, ?_⟩
        intro a ha b hb hab
        obtain rfl : b = hash := by simpa using hb
        exact h (hab ▸ ha) }

end PreimageMap

/-- Classification of a confirmed funding-output spend. -/
inductive FundingSpend where
  | cooperativeClose
  | holderCommitment
  | counterpartyCurrent
  | counterpartyRevoked (commitmentNumber : Nat)
  | unknownCommitment
  deriving DecidableEq, Repr

structure ChannelMonitor where
  fundingOutpoint : OutPoint
  capacitySat : Nat
  obscureFactor : Nat
  holderPubkeys : ChannelPublicKeys
  counterpartyPubkeys : ChannelPublicKeys
  holderSelectedDelay : Nat
  counterpartySelectedDelay : Nat
  counterpartySecrets : Shachain.SecretStore
  counterpartyCurrent : Option CounterpartyCommitmentData
  holderCommitment : Option HolderCommitment
  holderCommitmentFeerate : FeeRatePerKw
  /-- Learned while forwarding or receiving: claimable on-chain. -/
  preimages : PreimageMap
  deriving DecidableEq

namespace ChannelMonitor

/-- Snapshot the enforcement state out of a live channel. -/
def fromChannel (channel : Channel) : Option ChannelMonitor := do
  let counterparty ← channel.counterpartyPubkeys
  let fundingOutpoint ← channel.fundingOutpoint
  return {
    fundingOutpoint
    capacitySat := channel.fundingAmountSat
    obscureFactor := channel.obscureFactor
    holderPubkeys := channel.holderPubkeys
    counterpartyPubkeys := counterparty
    holderSelectedDelay := channel.params.holderSelectedDelay
    counterpartySelectedDelay := channel.params.counterpartySelectedDelay
    counterpartySecrets := channel.counterpartySecrets
    counterpartyCurrent := channel.currentCounterpartyCommitment.map fun c =>
      ⟨c.number, c.txid, c.perCommitmentPoint, c.htlcs⟩
    holderCommitment := channel.currentHolderCommitment
    holderCommitmentFeerate := channel.feerateHolder
    preimages := .empty }

def addPreimage (C : Crypto) (m : ChannelMonitor) (preimage : PaymentPreimage) : ChannelMonitor :=
  { m with preimages := m.preimages.insert (paymentHash C preimage) preimage }

/-- The commitment number a transaction carries, for an input that spends the funding output. -/
def commitmentNumber (m : ChannelMonitor) (tx : Transaction) (input : TxIn) : Nat :=
  (((input.sequence &&& 0xffffff) <<< 24) ||| (tx.lockTime &&& 0xffffff)) ^^^ m.obscureFactor

/-- Does this transaction spend our funding output, and if so, what is it? -/
def classify (C : Crypto) (m : ChannelMonitor) (tx : Transaction) : Option FundingSpend := do
  let input ← tx.input.find? fun i => i.previousOutput = m.fundingOutpoint
  let txid := tx.txid C
  if m.holderCommitment.map (·.built.txid) = some txid then return .holderCommitment
  else if m.counterpartyCurrent.map (·.txid) = some txid then return .counterpartyCurrent
  else if ¬ (tx.lockTime >>> 24 = 0x20 ∧ input.sequence >>> 24 = 0x80 ∧ tx.version = 2) then
    return .cooperativeClose
  else
    let number := m.commitmentNumber tx input
    if (m.counterpartySecrets.secretFor C.sha256Bytes32
        (Shachain.indexForCommitment number)).isSome then
      return .counterpartyRevoked number
    else return .unknownCommitment

end ChannelMonitor
