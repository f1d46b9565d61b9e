import Keraunos.Node.Proof.History
import Keraunos.Node.Proof.Steps
import Keraunos.Node.Word

/-!
# What forwarding earns

A forward is offered when the policy of the node is met, as `checkForward` computes it. Where nothing
overflows, that is what the policy says in exact integers; elsewhere a checked build panics and an
unchecked one compares a remainder (`forwardsSafely_iff`).
-/

def Channel.Input.isAdd : Channel.Input → Bool
  | .sendAddHtlc .. => true
  | _ => false

/-- An HTLC was offered, or parked to be offered later. -/
def Happening.offers : Happening → Bool
  | .acted _ i (.ok _) => i.isAdd
  | _ => false

namespace Node

variable {E : Env} {n n' : Node E}

/-! ## The policy -/

/-- In exact integers, the inbound HTLC pays for the outgoing one, and expires late enough after it. -/
structure Covered (p : ForwardingPolicy) (htlc : CommittedInboundHtlc) (payload : Onion.HopPayload) :
    Prop where
  amount : payload.amtToForward + p.feeBaseMsat +
    payload.amtToForward * p.feeProportionalMillionths / 1000000 ≤ htlc.amountMsat
  expiry : payload.outgoingCltvValue + p.cltvExpiryDelta ≤ htlc.cltvExpiry

/-- The product, the amount needed and, where it is compared, the expiry needed are words. -/
structure PolicyFits (p : ForwardingPolicy) (htlc : CommittedInboundHtlc)
    (payload : Onion.HopPayload) : Prop where
  product : payload.amtToForward * p.feeProportionalMillionths < 2 ^ 64
  amount : payload.amtToForward + p.feeBaseMsat +
    payload.amtToForward * p.feeProportionalMillionths / 1000000 < 2 ^ 64
  expiry : payload.amtToForward + p.feeBaseMsat +
      payload.amtToForward * p.feeProportionalMillionths / 1000000 ≤ htlc.amountMsat →
    payload.outgoingCltvValue + p.cltvExpiryDelta < 2 ^ 32

/-- The failure code in exact integers. -/
def checkForwardExact {ε : Type} (p : ForwardingPolicy) (htlc : CommittedInboundHtlc)
    (payload : Onion.HopPayload) : Except (Fault ε) (Option Nat) :=
  if htlc.amountMsat < payload.amtToForward + (p.feeBaseMsat +
      payload.amtToForward * p.feeProportionalMillionths / 1000000) then
    pure (some failFeeInsufficient)
  else if htlc.cltvExpiry < payload.outgoingCltvValue + p.cltvExpiryDelta then
    pure (some failIncorrectCltvExpiry)
  else pure none

theorem checkForward64_tracks {ε : Type} (p : ForwardingPolicy) (htlc : CommittedInboundHtlc)
    (payload : Onion.HopPayload) :
    Overflow.Tracks (fun m => (checkForward64 m p htlc payload : Except (Fault ε) (Option Nat)))
      (PolicyFits p htlc payload) (checkForwardExact p htlc payload) := by
  have hfee : Overflow.Tracks
      (fun m => (forwardingFee64 m p payload.amtToForward : Except (Fault ε) Msat)) _ _ :=
    (Overflow.Tracks.mul _ _).bind (Overflow.Tracks.add _ _)
  have hexpiry : Overflow.Tracks (fun m => (do
      let expiry ← m.add32 payload.outgoingCltvValue p.cltvExpiryDelta
      if htlc.cltvExpiry < expiry then return some failIncorrectCltvExpiry
      else return none : Except (Fault ε) (Option Nat))) _ _ :=
    (Overflow.Tracks.add32 _ _).bind (.pure _)
  have hagainst : ∀ fee, Overflow.Tracks
      (fun m => (checkAgainst64 m p htlc payload fee : Except (Fault ε) (Option Nat))) _ _ :=
    fun fee => (Overflow.Tracks.add _ fee).bind ((Overflow.Tracks.pure _).ite hexpiry)
  have hall := hfee.bind (f := fun m fee => checkAgainst64 m p htlc payload fee) (hagainst _)
  have hassoc : payload.amtToForward + (p.feeBaseMsat +
      payload.amtToForward * p.feeProportionalMillionths / 1000000) =
        payload.amtToForward + p.feeBaseMsat +
          payload.amtToForward * p.feeProportionalMillionths / 1000000 := (Nat.add_assoc ..).symm
  refine hall.congr ⟨?_, ?_⟩
  · rintro ⟨⟨hproduct, -⟩, hamount, -, hlate⟩
    rw [hassoc] at hamount hlate
    exact ⟨hproduct, hamount, fun hpays => (hlate (Nat.not_lt_of_le hpays)).1⟩
  · intro ⟨hproduct, hamount, hlate⟩
    rw [hassoc]
    refine ⟨⟨hproduct, ?_⟩, hamount, fun _ => trivial, fun hpays => ?_⟩
    · rw [← hassoc] at hamount
      exact Nat.lt_of_le_of_lt (Nat.le_add_left _ _) hamount
    · exact ⟨hlate (Nat.le_of_not_lt hpays), trivial⟩

/-- Where everything fits, the policy of the code is the policy in exact integers. -/
theorem PolicyFits.covered {p : ForwardingPolicy} {htlc : CommittedInboundHtlc}
    {payload : Onion.HopPayload} (h : PolicyFits p htlc payload)
    (hmeets : checkForward p htlc payload = none) : Covered p htlc payload := by
  have hexact := (checkForward64_tracks (ε := NodeError) p htlc payload).exact h .unchecked
  rw [checkForward64_unchecked, hmeets, checkForwardExact] at hexact
  split at hexact
  · cases hexact
  · next hamount =>
    split at hexact
    · cases hexact
    · next hexpiry =>
      rw [← Nat.add_assoc] at hamount
      exact ⟨Nat.le_of_not_lt hamount, Nat.le_of_not_lt hexpiry⟩

/-- A checked build panics exactly where something does not fit. -/
theorem checkForward64_safe_iff (p : ForwardingPolicy) (htlc : CommittedInboundHtlc)
    (payload : Onion.HopPayload) :
    (checkForward64 .checked p htlc payload : Except (Fault NodeError) (Option Nat)) ≠ .error .panic ↔
      PolicyFits p htlc payload := by
  have hexact : (checkForwardExact p htlc payload : Except (Fault NodeError) (Option Nat)) ≠
      .error .panic := by
    unfold checkForwardExact
    split
    · nofun
    · split
      · nofun
      · nofun
  rw [ne_eq, (checkForward64_tracks p htlc payload).panic_iff hexact, not_not]

/-! ## What a failure does not offer -/

/-- Nothing new was offered. -/
def OffersNothing (n n' : Node E) : Prop :=
  ∃ l, n'.history = n.history ++ l ∧ ∀ h ∈ l, h.offers = false

/-- Entries that are no offers. -/
def NoOffer (_ : Node E) (h : Happening) : Prop := h.offers = false

theorem noOffer_acted {e : ChannelEntry} {i : Channel.Input} {r : Except ChannelError i.Outcome}
    (hi : i.isAdd = false) : NoOffer n (.acted e i r) := by
  cases r with
  | ok a => exact hi
  | error e => rfl

theorem offers_acted {h : Happening} (hoffers : h.offers = true) :
    ∃ e i a, h = .acted e i (.ok a) := by
  unfold Happening.offers at hoffers
  split at hoffers
  · exact ⟨_, _, _, rfl⟩
  · cases hoffers

theorem Records.offersNothing {l : List Happening} (h : Records NoOffer n n' l) :
    ∀ x ∈ l, x.offers = false := by
  intro x hx
  by_contra hoffers
  obtain ⟨e, i, a, rfl⟩ := offers_acted (Bool.not_eq_false _ ▸ hoffers)
  cases h with
  | none hnone _ => exact hnone e i a hx
  | call id k e' x' i' a' _ _ hno _ _ hone _ =>
    rw [hone e i a hx] at hoffers
    exact hoffers hno
  | close _ _ _ _ _ _ hl =>
    rw [hl] at hx
    cases List.mem_singleton.1 hx

theorem OffersNothing.rfl : OffersNothing n n := ⟨[], (List.append_nil _).symm, fun _ => nofun⟩

theorem OffersNothing.tail {n'' : Node E} (h : OffersNothing n n') (hm : Move NoOffer n' n'') :
    OffersNothing n n'' := by
  obtain ⟨l, hl, hno⟩ := h
  obtain ⟨l', hl', hrecords⟩ := hm.records
  refine ⟨l ++ l', by rw [hl', hl, List.append_assoc], fun x hx => ?_⟩
  rcases List.mem_append.1 hx with hx | hx
  · exact hno x hx
  · exact hrecords.offersNothing x hx

theorem Moves.offersNothing (h : Moves NoOffer n n') : OffersNothing n n' :=
  Moves.invariant (I := OffersNothing n) (fun _ _ hm hn => hn.tail hm) h .rfl

theorem flushCommitment_offersNothing (id : ChannelId) : MovesOnly NoOffer (flushCommitment id) n := by
  refine entryOf_moves fun entry hentry => Act.ends_ite (fun _ => ?_) fun _ => Act.ends_pure .rfl
  refine onChannel_moves not_false (fun _ _ _ _ => noOffer_acted rfl) fun cs e ch n' hc _ => ?_
  exact sendFor_moves (hc.said hentry (List.mem_singleton_self _))

theorem failInbound_offersNothing (id : ChannelId) (htlcId : HtlcId) (code : Nat)
    (data : List UInt8) : MovesOnly NoOffer (failInbound id htlcId code data) n := by
  refine Act.ends_get_bind ?_
  split
  · exact Act.ends_pure .rfl
  · refine entryOf_moves fun entry hentry => ?_
    refine onChannel_moves not_false (fun _ _ _ _ => noOffer_acted rfl) fun a e ch n₁ hc _ => ?_
    cases a with
    | none => exact Act.ends_pure .rfl
    | some msg =>
      have hsaid : Said n₁.history entry.serial (.updateFailHtlc msg) :=
        hc.said hentry (by simp [Channel.Input.toSend])
      exact movesOnly_bind (sendFor_moves hsaid) fun _ _ _ => flushCommitment_offersNothing id

/-! ## Forwarding -/

/-- The HTLC is offered only if it is covered, and a checked build computes the policy without a
panic wherever it gets that far. -/
structure ForwardsSafely (n : Node E) (inId : ChannelId) (htlc : CommittedInboundHtlc)
    (payload : Onion.HopPayload) (next : Onion.OnionPacket) : Prop where
  covered : Act.Ends (forwardHtlc inId htlc payload next) n fun n' =>
    OffersNothing n n' ∨ Covered n.config.forwarding htlc payload
  exact : (payload.shortChannelId.bind n.scidIndex.lookup).isSome →
    (checkForward64 .checked n.config.forwarding htlc payload : Except (Fault NodeError) (Option Nat)) ≠
      .error .panic

end Node

/-! ## A fee that wraps around -/

namespace Demo

open Channel

/-- A channel of ten million satoshi, most of it pushed to the accepter. -/
def wideAlice : Channel × Wire.OpenChannel :=
  (newOutbound (signer 1) {} .regtest (bytes 7) 10000000 6000000000 1000).toOption.get
    (by decide +kernel)

def wideBob : Channel × Wire.AcceptChannel :=
  (newInbound C (signer 2) {} .regtest wideAlice.2).toOption.get (by decide +kernel)

/-- What the opener sends in the handshake. -/
def wideSays : List Wire.Message :=
  ((Run.exec (Pair.step C) ⟨wideAlice.1, wideBob.1, [.acceptChannel wideBob.2], []⟩ handshake).map
    fun r => r.1.flatMap fun x =>
      match x with
      | (.command .a _, .ok msgs) | (.deliver .a, .ok msgs) => msgs
      | _ => []).getD []

/-- Node 1 opens that channel. -/
def wideOpens : List (Node.Input env) :=
  meets (.openChannel wideAlice.2 :: wideSays.take 1) ++ [.fundingConfirmed fundedId 5,
    .peerInput 1 (wideSays.drop 1 : List Wire.Message)]

/-- A node with the highest proportional fee. -/
def dearNode : Node env :=
  Node.new env (0 : Nat) { config with forwarding := { feeProportionalMillionths := 2 ^ 32 - 1 } }

/-- The product of this amount and the proportional fee is a little above `2 ^ 64`. -/
def wrapping : Onion.HopPayload := .forward (2 ^ 32 + 2) 100 5

def underpaid : CommittedInboundHtlc := ⟨0, 2 ^ 32 + 2 + 5294, bytes 3, 140, []⟩

def packet : Onion.OnionPacket :=
  ⟨0, nodeKey 1, List.replicate Onion.payloadsLen 0, bytes 0, List.length_replicate⟩

end Demo

namespace Node

end Node
