import Keraunos.Channel.Pair
import Keraunos.Channel.Proof.Moves

/-!
# The spendable estimate

`available_to_send_msat` keeps back the fee of a commitment with every HTLC in memory and one more,
`validate_outbound_add` the fee of the counterparty's commitment and two more. An opener is refused
part of what it was told it could spend when every HTLC in memory is in that commitment, and only then
(`spendable_iff`).
-/

open Commitment

namespace Channel

/-- An amount within the estimate that meets every condition of an HTLC but the balance. -/
structure Spendable (ch : Channel) (amountMsat : Msat) (cltvExpiry : Nat) : Prop where
  state : ch.state = .normal
  running : ¬ (ch.shutdownSent ∨ ch.shutdownReceived)
  idle : ch.awaitingRaa = false
  pos : 0 < amountMsat
  available : amountMsat ≤ ch.availableToSendMsat
  minimum : ch.params.counterpartyHtlcMinimumMsat ≤ amountMsat
  expiry : cltvExpiry < 500000000
  count : (ch.live true).length % 2 ^ 16 < ch.params.counterpartyMaxAcceptedHtlcs
  inFlight : ((ch.live true).map (·.amountMsat)).sum + amountMsat ≤
    ch.params.counterpartyMaxHtlcValueInFlightMsat

instance (ch : Channel) (amountMsat : Msat) (cltvExpiry : Nat) :
    Decidable (Spendable ch amountMsat cltvExpiry) :=
  decidable_of_iff (ch.state = .normal ∧ ¬ (ch.shutdownSent ∨ ch.shutdownReceived) ∧
      ch.awaitingRaa = false ∧ 0 < amountMsat ∧ amountMsat ≤ ch.availableToSendMsat ∧
      ch.params.counterpartyHtlcMinimumMsat ≤ amountMsat ∧ cltvExpiry < 500000000 ∧
      (ch.live true).length % 2 ^ 16 < ch.params.counterpartyMaxAcceptedHtlcs ∧
      ((ch.live true).map (·.amountMsat)).sum + amountMsat ≤
        ch.params.counterpartyMaxHtlcValueInFlightMsat)
    ⟨fun ⟨a, b, c, d, e, f, g, h, i⟩ => ⟨a, b, c, d, e, f, g, h, i⟩,
      fun ⟨a, b, c, d, e, f, g, h, i⟩ => ⟨a, b, c, d, e, f, g, h, i⟩⟩

/-- Nobody, or not we, pays for the HTLC the estimate forgets; or the amount leaves room for it. -/
inductive Headroom (ch : Channel) (amountMsat : Msat) : Prop
  | accepter : ch.role = .accepter → Headroom ch amountMsat
  | excluded (h : Htlc) : h ∈ ch.htlcs → h.phaseCounterparty.included = false → Headroom ch amountMsat
  | room : amountMsat + (commitmentFee ch.feerateCounterparty (ch.htlcs.length + 2) -
      commitmentFee ch.feerateCounterparty (ch.htlcs.length + 1)) ≤ ch.availableToSendMsat →
      Headroom ch amountMsat

/-- The fee that `validate_outbound_add` keeps back. -/
def keptBack (ch : Channel) : Msat :=
  if ch.role = .opener then commitmentFee ch.feerateCounterparty (ch.includedCount false + 2) else 0

theorem commitmentFee_mono (feerate : FeeRatePerKw) {n n' : Nat} (h : n ≤ n') :
    commitmentFee feerate n ≤ commitmentFee feerate n' := by
  unfold commitmentFee Msat.fromSat FeeRatePerKw.feeForWeight
  gcongr

theorem includedCount_le (ch : Channel) (side : Bool) : ch.includedCount side ≤ ch.htlcs.length :=
  List.length_filter_le _ _

theorem includedCount_lt_iff (ch : Channel) :
    ch.includedCount false < ch.htlcs.length ↔
      ∃ h ∈ ch.htlcs, h.phaseCounterparty.included = false := by
  unfold includedCount
  rw [List.length_filter_lt_length_iff_exists]
  simp [Htlc.phase]

theorem availableToSend_opener {ch : Channel} (h : ch.role = .opener) :
    ch.availableToSendMsat = (ch.balancesFor false).1 -
      Msat.fromSat ch.params.counterpartySelectedReserveSat -
      commitmentFee ch.feerateCounterparty (ch.htlcs.length + 1) := by
  unfold availableToSendMsat
  rw [if_pos h]
  rfl

/-- The estimate is enough for the check exactly with headroom. -/
theorem affordable_iff {ch : Channel} {amountMsat : Msat} (hpos : 0 < amountMsat)
    (havail : amountMsat ≤ ch.availableToSendMsat) :
    amountMsat + Msat.fromSat ch.params.counterpartySelectedReserveSat + ch.keptBack ≤
        (ch.balancesFor false).1 ↔ Headroom ch amountMsat := by
  cases hrole : ch.role with
  | accepter =>
    refine iff_of_true ?_ (.accepter hrole)
    have hkept : ch.keptBack = 0 := by simp [keptBack, hrole]
    have hest : ch.availableToSendMsat = (ch.balancesFor false).1 -
        Msat.fromSat ch.params.counterpartySelectedReserveSat := by simp [availableToSendMsat, hrole]
    rw [hest] at havail
    have hsum : ∀ a b r : Nat, 0 < a → a ≤ b - r → a + r + 0 ≤ b := by omega
    rw [hkept]
    exact hsum _ _ _ hpos havail
  | opener =>
    have hkept : ch.keptBack = commitmentFee ch.feerateCounterparty (ch.includedCount false + 2) :=
      if_pos hrole
    have hmono : commitmentFee ch.feerateCounterparty (ch.htlcs.length + 1) ≤
        commitmentFee ch.feerateCounterparty (ch.htlcs.length + 2) :=
      commitmentFee_mono _ (Nat.le_succ _)
    have hest := availableToSend_opener hrole
    rw [hkept]
    constructor
    · intro h
      by_cases hlt : ch.includedCount false < ch.htlcs.length
      · obtain ⟨x, hx, hout⟩ := (includedCount_lt_iff ch).1 hlt
        exact .excluded x hx hout
      · have heq : ch.includedCount false = ch.htlcs.length :=
          Nat.le_antisymm (includedCount_le ch false) (Nat.not_lt.1 hlt)
        rw [heq] at h
        have hsum : ∀ a b r f g : Nat, f ≤ g → a + r + g ≤ b → a + (g - f) ≤ b - r - f := by omega
        refine .room ?_
        rw [hest]
        exact hsum _ _ _ _ _ hmono h
    · intro h
      rw [hest] at havail
      have hsum : ∀ a b r f k : Nat, 0 < a → k ≤ f → a ≤ b - r - f → a + r + k ≤ b := by omega
      cases h with
      | accepter hacc => exact absurd (hrole.symm.trans hacc) (by decide)
      | excluded x hx hout =>
        have hlt := (includedCount_lt_iff ch).2 ⟨x, hx, hout⟩
        exact hsum _ _ _ _ _ hpos (commitmentFee_mono _ (by omega)) havail
      | room hroom =>
        rw [hest] at hroom
        have hle : commitmentFee ch.feerateCounterparty (ch.includedCount false + 2) ≤
            commitmentFee ch.feerateCounterparty (ch.htlcs.length + 2) :=
          commitmentFee_mono _ (Nat.add_le_add_right (includedCount_le ch false) 2)
        have hsum : ∀ a b r f g k : Nat, 0 < a → f ≤ g → k ≤ g → a + (g - f) ≤ b - r - f →
            a + r + k ≤ b := by omega
        exact hsum _ _ _ _ _ _ hpos hmono hle hroom

/-- `send_add_htlc` takes the HTLC. -/
def Accepts (ch : Channel) (amountMsat : Msat) (cltvExpiry : Nat) : Prop :=
  ∀ paymentHash onion source, (sendAddHtlc amountMsat paymentHash cltvExpiry onion source).wp ch
    (fun m _ => m.isSome) fun _ _ => False

/-- Only the balance is left to check. -/
theorem Spendable.validate_eq_ok {ch : Channel} {amountMsat : Msat} {cltvExpiry : Nat}
    (h : Spendable ch amountMsat cltvExpiry) :
    ch.validateOutboundAdd amountMsat cltvExpiry = .ok () ↔
      amountMsat + Msat.fromSat ch.params.counterpartySelectedReserveSat + ch.keptBack ≤
        (ch.balancesFor false).1 := by
  simp only [validateOutboundAdd, Fault.bind_eq_ok, Fault.require_eq_ok]
  constructor
  · rintro ⟨_, _, _, _, _, _, _, _, _, _, hle⟩
    exact hle
  · intro hle
    exact ⟨(), Nat.ne_of_gt h.pos, (), h.minimum, (), h.expiry, (), h.count, (), h.inFlight, hle⟩

theorem accepts_iff {ch : Channel} {amountMsat : Msat} {cltvExpiry : Nat}
    (h : Spendable ch amountMsat cltvExpiry) :
    Accepts ch amountMsat cltvExpiry ↔ ch.validateOutboundAdd amountMsat cltvExpiry = .ok () := by
  have hrunning : ch.shutdownSent = false ∧ ch.shutdownReceived = false := by simpa using h.running
  have hwp : ∀ paymentHash onion source,
      ((sendAddHtlc amountMsat paymentHash cltvExpiry onion source).wp ch (fun m _ => m.isSome)
        fun _ _ => False) ↔ ch.validateOutboundAdd amountMsat cltvExpiry = .ok () := by
    intro paymentHash onion source
    cases hvalid : ch.validateOutboundAdd amountMsat cltvExpiry with
    | ok u => simp [sendAddHtlc, h.state, hrunning, h.idle, hvalid]
    | error e => simp [sendAddHtlc, h.state, h.idle, hvalid]
  constructor
  · intro hacc
    exact (hwp (Vector.replicate 32 0) [] (.outbound (Vector.replicate 32 0))).1 (hacc _ _ _)
  · intro hvalid paymentHash onion source
    exact (hwp paymentHash onion source).2 hvalid

/-- What the estimate promises is accepted with headroom, and only then. -/
theorem spendable_iff {ch : Channel} {amountMsat : Msat} {cltvExpiry : Nat}
    (h : Spendable ch amountMsat cltvExpiry) :
    Accepts ch amountMsat cltvExpiry ↔ Headroom ch amountMsat :=
  (accepts_iff h).trans (h.validate_eq_ok.trans (affordable_iff h.pos h.available))

/-- An opener that leaves room. -/
theorem spendable_with_room :
    ∃ tr ch, Run (step Demo.C) Demo.alice.1 tr ch ∧ Spendable ch 5000000 100 ∧
      Accepts ch 5000000 100 := by
  obtain ⟨tr, ch, hr, ⟨hspend, hroom⟩, -⟩ := Demo.exists_chan Demo.handshake .a
    (fun ch => Spendable ch 5000000 100 ∧
      5000000 + (commitmentFee ch.feerateCounterparty (ch.htlcs.length + 2) -
        commitmentFee ch.feerateCounterparty (ch.htlcs.length + 1)) ≤ ch.availableToSendMsat)
    (by decide +kernel)
  exact ⟨tr, ch, hr, hspend, (spendable_iff hspend).2 (.room hroom)⟩

/-- An opener that spends all it was told it could. -/
theorem spendable_refused :
    ∃ tr ch, Run (step Demo.C) Demo.alice.1 tr ch ∧ Spendable ch ch.availableToSendMsat 100 ∧
      ¬ Accepts ch ch.availableToSendMsat 100 := by
  obtain ⟨tr, ch, hr, ⟨hspend, hrefused⟩, -⟩ := Demo.exists_chan Demo.handshake .a
    (fun ch => Spendable ch ch.availableToSendMsat 100 ∧
      ch.validateOutboundAdd ch.availableToSendMsat 100 =
        .error (.err (.ignore "insufficient balance for HTLC"))) (by decide +kernel)
  refine ⟨tr, ch, hr, hspend, fun hacc => ?_⟩
  rw [(accepts_iff hspend).1 hacc] at hrefused
  cases hrefused

end Channel
