import Keraunos.Channel.Proof.Balance
import Keraunos.Channel.Proof.Word

/-!
# The in-flight limit

Both constructors divide the funding by a million before they multiply, so the limit they announce and
enforce misses the part of the funding below a whole million of satoshi. It is the configured share of
the channel for the other amounts only (`in_flight_limit_iff`). There the limit of a whole channel
refuses nothing that the balances can pay for.
-/

open Bitcoin Commitment Overflow

namespace Channel

/-! ## The announced limit -/

/-- The configured share of the channel, in msat. -/
def inFlightShare (config : ChannelConfig) (funding : Nat) : Msat :=
  funding * 1000 * config.maxHtlcValueInFlightPpm / 1000000

/-- The funding has no part below a million of satoshi that would count, and the limit is a word. -/
structure RoundFunding (config : ChannelConfig) (funding : Nat) : Prop where
  rest : funding % 1000000 * config.maxHtlcValueInFlightPpm < 1000
  fits : funding / 1000000 * config.maxHtlcValueInFlightPpm * 1000 < 2 ^ 64

theorem inFlightShare_eq (config : ChannelConfig) (funding : Nat) :
    inFlightShare config funding = maxInFlightFor config funding +
      funding % 1000000 * config.maxHtlcValueInFlightPpm / 1000 := by
  unfold inFlightShare maxInFlightFor
  generalize config.maxHtlcValueInFlightPpm = p
  have hsplit : funding * 1000 * p =
      1000000 * (funding / 1000000 * p * 1000) + funding % 1000000 * p * 1000 := by
    conv_lhs => rw [← Nat.div_add_mod funding 1000000]
    ring
  rw [hsplit, Nat.mul_add_div (by decide)]
  congr 1
  exact Nat.mul_div_mul_right _ 1000 (by decide : 0 < 1000)

/-- The limit is the share exactly where nothing is lost below a million of satoshi. -/
theorem maxInFlightFor_eq_iff (config : ChannelConfig) (funding : Nat) :
    maxInFlightFor config funding = inFlightShare config funding ↔
      funding % 1000000 * config.maxHtlcValueInFlightPpm < 1000 := by
  rw [inFlightShare_eq]
  generalize funding % 1000000 * config.maxHtlcValueInFlightPpm = n
  have hiff : ∀ k : Nat, k = k + n / 1000 ↔ n < 1000 := by omega
  exact hiff _

/-- A limit that wrapped around is below the share. -/
theorem roundFunding_of_eq {m : Overflow} {config : ChannelConfig} {funding : Nat}
    (h : maxInFlightFor64 m config funding = .ok (inFlightShare config funding)) :
    RoundFunding config funding := by
  have hlt : inFlightShare config funding < 2 ^ 64 := by
    obtain ⟨_, -, hmul⟩ := Fault.bind_eq_ok.1 h
    exact word_lt hmul
  have hfits : maxInFlightFor config funding < 2 ^ 64 := by
    refine Nat.lt_of_le_of_lt ?_ hlt
    rw [inFlightShare_eq]
    exact Nat.le_add_right _ _
  rw [(maxInFlightFor64_tracks config funding).exact hfits] at h
  exact ⟨(maxInFlightFor_eq_iff config funding).1 (Except.ok.inj h), hfits⟩

theorem RoundFunding.limit {config : ChannelConfig} {funding : Nat} (h : RoundFunding config funding)
    (m : Overflow) : maxInFlightFor64 m config funding = .ok (inFlightShare config funding) := by
  rw [(maxInFlightFor64_tracks config funding).exact h.fits,
    (maxInFlightFor_eq_iff config funding).2 h.rest]

/-- Both constructors announce the share as their limit, and keep it to enforce it. -/
structure LimitExact (C : Crypto) (signer : ChannelSigner) (config : ChannelConfig)
    (funding : Nat) : Prop where
  outbound : ∀ m network tid push feerate out,
    newOutbound64 m signer config network tid funding push feerate = .ok out →
      out.2.maxHtlcValueInFlightMsat = inFlightShare config funding ∧
      out.1.params.holderMaxHtlcValueInFlightMsat = inFlightShare config funding
  inbound : ∀ m network msg out, msg.fundingSatoshis = funding →
    newInbound64 m C signer config network msg = .ok out →
      out.2.maxHtlcValueInFlightMsat = inFlightShare config funding ∧
      out.1.params.holderMaxHtlcValueInFlightMsat = inFlightShare config funding

/-- The terms of a channel that `new_outbound` returns. -/
theorem newOutbound64_limit {m : Overflow} {signer : ChannelSigner} {config : ChannelConfig}
    {network : Network} {tid : ChannelId} {funding : Nat} {push : Msat} {feerate : FeeRatePerKw}
    {out : Channel × Wire.OpenChannel}
    (h : newOutbound64 m signer config network tid funding push feerate = .ok out) :
    maxInFlightFor64 m config funding = .ok out.2.maxHtlcValueInFlightMsat ∧
      out.1.params.holderMaxHtlcValueInFlightMsat = out.2.maxHtlcValueInFlightMsat := by
  obtain ⟨_, -, h⟩ := Fault.bind_eq_ok.1 h
  obtain ⟨_, -, h⟩ := Fault.bind_eq_ok.1 h
  obtain ⟨_, -, h⟩ := Fault.bind_eq_ok.1 h
  obtain ⟨limit, hlimit, h⟩ := Fault.bind_eq_ok.1 h
  obtain ⟨_, -, h⟩ := Fault.bind_eq_ok.1 h
  cases h
  exact ⟨hlimit, rfl⟩

/-- The terms of a channel that `new_inbound` returns. -/
theorem newInbound64_limit {m : Overflow} {C : Crypto} {signer : ChannelSigner}
    {config : ChannelConfig} {network : Network} {msg : Wire.OpenChannel}
    {out : Channel × Wire.AcceptChannel}
    (h : newInbound64 m C signer config network msg = .ok out) :
    maxInFlightFor64 m config msg.fundingSatoshis = .ok out.2.maxHtlcValueInFlightMsat ∧
      out.1.params.holderMaxHtlcValueInFlightMsat = out.2.maxHtlcValueInFlightMsat := by
  obtain ⟨_, -, h⟩ := Fault.bind_eq_ok.1 h
  obtain ⟨_, -, h⟩ := Fault.bind_eq_ok.1 h
  obtain ⟨_, -, h⟩ := Fault.bind_eq_ok.1 h
  obtain ⟨_, -, h⟩ := Fault.bind_eq_ok.1 h
  obtain ⟨_, -, h⟩ := Fault.bind_eq_ok.1 h
  obtain ⟨_, -, h⟩ := Fault.bind_eq_ok.1 h
  obtain ⟨limit, hlimit, h⟩ := Fault.bind_eq_ok.1 h
  obtain ⟨_, -, h⟩ := Fault.bind_eq_ok.1 h
  cases h
  exact ⟨hlimit, rfl⟩

/-- An unchecked build opens a channel of any funding without a push. -/
theorem newOutbound64_unchecked (signer : ChannelSigner) (config : ChannelConfig) (network : Network)
    (tid : ChannelId) (funding : Nat) (feerate : FeeRatePerKw) :
    ∃ out, newOutbound64 .unchecked signer config network tid funding 0 feerate = .ok out := by
  obtain ⟨total, htotal⟩ := unchecked_word (ε := ChannelError) (funding * 1000)
  obtain ⟨product, hproduct⟩ := unchecked_word (ε := ChannelError) (funding * config.reservePpm)
  obtain ⟨share, hshare⟩ := unchecked_word (ε := ChannelError)
    (funding / 1000000 * config.maxHtlcValueInFlightPpm)
  obtain ⟨limit, hlimit⟩ := unchecked_word (ε := ChannelError) (share * 1000)
  have hreserve : reserveFor64 .unchecked config funding =
      .ok (max (product / 1000000) config.dustLimitSat) := Fault.bind_eq_ok.2 ⟨product, hproduct, rfl⟩
  have hmax : maxInFlightFor64 .unchecked config funding = .ok limit :=
    Fault.bind_eq_ok.2 ⟨share, hshare, hlimit⟩
  refine ⟨outboundChannel signer config network tid funding 0 feerate
    ⟨max (product / 1000000) config.dustLimitSat, limit, total⟩, ?_⟩
  refine Fault.bind_eq_ok.2 ⟨total, htotal, ?_⟩
  refine Fault.bind_eq_ok.2 ⟨(), Fault.require_eq_ok.2 (Nat.zero_le total), ?_⟩
  refine Fault.bind_eq_ok.2 ⟨_, hreserve, Fault.bind_eq_ok.2 ⟨limit, hmax, ?_⟩⟩
  exact Fault.bind_eq_ok.2 ⟨total, if_pos (Nat.zero_le total), rfl⟩

theorem limitExact_iff (C : Crypto) (signer : ChannelSigner) (config : ChannelConfig) (funding : Nat) :
    LimitExact C signer config funding ↔ RoundFunding config funding := by
  constructor
  · intro h
    obtain ⟨out, hout⟩ := newOutbound64_unchecked signer config .regtest (Vector.replicate 32 0) funding 0
    have hlimit := (newOutbound64_limit hout).1
    rw [(h.outbound _ _ _ _ _ out hout).1] at hlimit
    exact roundFunding_of_eq hlimit
  · intro h
    constructor
    · intro m network tid push feerate out hout
      obtain ⟨hlimit, hparams⟩ := newOutbound64_limit hout
      rw [h.limit m] at hlimit
      rw [hparams, ← Except.ok.inj hlimit]
      exact ⟨rfl, rfl⟩
    · intro m network msg out hmsg hout
      obtain ⟨hlimit, hparams⟩ := newInbound64_limit hout
      rw [hmsg, h.limit m] at hlimit
      rw [hparams, ← Except.ok.inj hlimit]
      exact ⟨rfl, rfl⟩

/-! ## The limit of a whole channel -/

/-- What the opening fixes for good. -/
def ownTerms (ch : Channel) : Nat × Msat :=
  (ch.fundingAmountSat, ch.params.holderMaxHtlcValueInFlightMsat)

theorem Move.ownTerms {C : Crypto} {ch ch' : Channel} (h : Move C ch ch') :
    ch'.ownTerms = ch.ownTerms := by
  cases h <;> rfl

theorem Stepped.ownTerms {C : Crypto} {ch ch' : Channel} {i : Input} (h : Stepped C ch i ch') :
    ch'.ownTerms = ch.ownTerms := by
  cases h with
  | moves _ hm =>
    exact hm.invariant (I := fun c => c.ownTerms = ch.ownTerms)
      (fun _ _ hm hc => hm.ownTerms.trans hc) rfl
  | refused | accepted | rolledBack => rfl

theorem ownTerms_of_run {C : Crypto} {ch₀ ch : Channel}
    {tr : Trace Input ChannelError (List Wire.Message)} (hr : Run (step C) ch₀ tr ch) :
    ch.ownTerms = ch₀.ownTerms := by
  refine Run.invariant (I := fun c => c.ownTerms = ch₀.ownTerms) (A := fun _ => True) rfl ?_ hr
    fun _ _ => trivial
  intro c i _ hc
  exact (step_stepped i c).mono fun _ hs => hs.ownTerms.trans hc

/-- An unresolved HTLC is in the commitment of its recipient. -/
theorem Shape.included_of_live {L : Ledger} {ch : Channel} (hS : Shape L ch) {x : Htlc}
    (hx : x ∈ ch.htlcs) (hres : x.resolution.isNone = true) :
    (x.phase (!x.outbound)).included = true := by
  rw [hS.htlcs] at hx
  obtain ⟨e, he, -, rfl⟩ := Ledger.mem_htlcs.1 hx
  have hrem : e.removal = none := by simpa [Ledger.toHtlc] using hres
  rw [phase_toHtlc, Ledger.included_iff hS.wf he]
  refine ⟨?_, by simp [hrem]⟩
  have hcut : L.cut (!e.outbound) e.outbound = (L.log e.outbound).length := by
    simp [Ledger.cut]
  change e.addAt < L.cut (!e.outbound) e.outbound
  rw [hcut]
  exact (hS.wf.entry e he).added

/-- The unresolved HTLCs of a side are paid for by the recipient's commitment. -/
theorem Shape.live_sum_le {L : Ledger} {ch : Channel} (hS : Shape L ch) (m : Bool) :
    ((ch.live m).map (·.amountMsat)).sum ≤ ch.includedMsat (!m) := by
  have hsub : (ch.live m).Sublist (ch.htlcs.filter fun h => (h.phase (!m)).included) := by
    have heq : ch.live m = (ch.htlcs.filter fun h => (h.phase (!m)).included).filter
        fun h => h.outbound = m ∧ h.resolution.isNone := by
      rw [List.filter_filter]
      refine List.filter_congr fun x hx => ?_
      by_cases hlive : x.outbound = m ∧ x.resolution.isNone
      · have hinc := hS.included_of_live hx hlive.2
        rw [hlive.1] at hinc
        simp [hlive, hinc]
      · simp only [hlive, decide_false, Bool.false_and]
    rw [heq]
    exact List.filter_sublist
  exact (hsub.map (·.amountMsat)).sum_le_sum fun _ _ => Nat.zero_le _

/-- What the sender of an HTLC has on the recipient's commitment, with what it has in flight, is at most
the channel. -/
theorem live_sum_add_le {ch : Channel} (h : Accounted ch) (m : Bool) :
    ((ch.live m).map (·.amountMsat)).sum + ch.balance (!m) m ≤ ch.fundingAmountSat * 1000 := by
  obtain ⟨init, L, hS, hF⟩ := id h
  have hlive := hS.live_sum_le m
  have htotal := h.conserves.total (!m)
  have hsum : ∀ s a b i t : Nat, s ≤ i → a + b + i = t → s + a ≤ t ∧ s + b ≤ t := by omega
  unfold balance
  cases m
  · exact (hsum _ _ _ _ _ hlive htotal).2
  · exact (hsum _ _ _ _ _ hlive htotal).1

/-- No HTLC that the balances can pay for is refused for the limits of a whole channel, ours or the
peer's. -/
structure NeverOverLimit (ch : Channel) : Prop where
  inbound : ∀ msg : Wire.UpdateAddHtlc, msg.amountMsat ≤ (ch.balancesFor true).2 →
    ch.checkUpdateAddHtlc msg ≠ .error (.err (.close "our max_htlc_value_in_flight exceeded"))
  outbound : ch.params.counterpartyMaxHtlcValueInFlightMsat = ch.fundingAmountSat * 1000 →
    ∀ amount cltvExpiry, amount ≤ (ch.balancesFor false).1 →
    ch.validateOutboundAdd amount cltvExpiry ≠
      .error (.err (.ignore "counterparty max_htlc_value_in_flight exceeded"))

theorem Accounted.neverOverLimit {ch : Channel} (h : Accounted ch)
    (hlimit : ch.params.holderMaxHtlcValueInFlightMsat = ch.fundingAmountSat * 1000) :
    NeverOverLimit ch := by
  constructor
  · intro msg hmsg hrefused
    have hle := live_sum_add_le h false
    simp only [balance, Bool.not_false, Bool.false_eq_true, if_false] at hle
    have hflight : ((ch.live false).map (·.amountMsat)).sum + msg.amountMsat ≤
        ch.params.holderMaxHtlcValueInFlightMsat := by
      rw [hlimit]
      exact Nat.le_trans (Nat.add_le_add_left hmsg _) hle
    have htext : ∀ s : String, "our max_htlc_value_in_flight exceeded" ≠ "non-sequential htlc id " ++ s := by
      intro s hs
      have hhead := congrArg (fun s => s.toList.head?) hs
      simp at hhead
    simp [checkUpdateAddHtlc, hflight, String.append_assoc, htext] at hrefused
  · intro hpeer amount cltvExpiry hamount hrefused
    have hle := live_sum_add_le h true
    simp only [balance, Bool.not_true, if_true] at hle
    have hflight : ((ch.live true).map (·.amountMsat)).sum + amount ≤
        ch.params.counterpartyMaxHtlcValueInFlightMsat := by
      rw [hpeer]
      exact Nat.le_trans (Nat.add_le_add_left hamount _) hle
    simp [validateOutboundAdd, hflight] at hrefused

/-- With a limit of the whole channel, the channels of this configuration and funding never refuse an
HTLC that the balances can pay for, while the connection lasts. -/
def ServesBalances (C : Crypto) (config : ChannelConfig) (funding : Nat) : Prop :=
  config.maxHtlcValueInFlightPpm = 1000000 → ∀ ch₀ tr ch, Fresh C ch₀ → ch₀.config = config →
    ch₀.fundingAmountSat = funding → Run (step C) ch₀ tr ch → (∀ x ∈ tr, x.1 ≠ .disconnect) →
    NeverOverLimit ch

theorem Fresh.limit {C : Crypto} {ch : Channel} (h : Fresh C ch) :
    ch.params.holderMaxHtlcValueInFlightMsat = maxInFlightFor ch.config ch.fundingAmountSat := by
  cases h with
  | outbound h =>
    unfold newOutbound at h
    split at h
    · cases h
    · cases h
      rfl
  | inbound h =>
    obtain ⟨_, -, h⟩ := Fault.bind_eq_ok.1 h
    cases h
    rfl

theorem RoundFunding.servesBalances {C : Crypto} {config : ChannelConfig} {funding : Nat}
    (h : RoundFunding config funding) : ServesBalances C config funding := by
  intro hppm ch₀ tr ch h₀ hconfig hfunding hr hd
  obtain ⟨hsame, hlimit⟩ := Prod.mk.inj (ownTerms_of_run hr)
  refine (accounted_of_run h₀ hr hd).neverOverLimit ?_
  have hshare : inFlightShare config funding = funding * 1000 := by
    unfold inFlightShare
    rw [hppm]
    exact Nat.mul_div_cancel _ (by decide)
  rw [hlimit, h₀.limit, hconfig, hsame, hfunding, (maxInFlightFor_eq_iff config funding).2 h.rest,
    hshare]

/-- The limit means what it says for funding in whole millions of satoshi, up to what rounds away. -/
theorem in_flight_limit_iff (C : Crypto) (signer : ChannelSigner) (config : ChannelConfig)
    (funding : Nat) :
    LimitExact C signer config funding ∧ ServesBalances C config funding ↔
      RoundFunding config funding := by
  rw [limitExact_iff]
  exact and_iff_left_of_imp RoundFunding.servesBalances

/-- A channel of a million and a half announces a limit of a million. -/
theorem in_flight_limit_misses : ¬ LimitExact Demo.C (Demo.signer 1) {} 1500000 := by
  rw [limitExact_iff]
  intro h
  exact absurd h.rest (by decide)

end Channel
