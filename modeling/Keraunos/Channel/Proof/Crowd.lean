import Keraunos.Channel.Proof.Admission
import Keraunos.Channel.Proof.Balance
import Mathlib.Data.List.Count

/-!
# How many HTLCs a commitment can have

The checks on an add count the HTLCs that are not resolved. A commitment can have more: a removal
reaches the recipient's commitment last. While the connection lasts, those are the HTLCs that were
locked on both sides when the offerer last acknowledged, so they were unresolved together, and no
commitment has more than three times the limit (`few_htlcs`).
-/

open Bitcoin Commitment

/-- What holds of an element by one of two reasons is counted by them. -/
theorem List.countP_le_add {α : Type*} {p q r : α → Bool} {l : List α}
    (h : ∀ x ∈ l, p x = true → q x = true ∨ r x = true) : l.countP p ≤ l.countP q + l.countP r := by
  induction l with
  | nil => simp
  | cons x l ih =>
    have hrest := ih fun y hy => h y (List.mem_cons_of_mem _ hy)
    have hx := h x List.mem_cons_self
    simp only [List.countP_cons]
    cases hp : p x <;> cases hq : q x <;> cases hr : r x <;> simp_all <;> omega

namespace Ledger

variable {L : Ledger} {n : Nat}

/-- How many HTLCs of side `m` are not resolved. -/
def unresolved (L : Ledger) (m : Bool) : Nat :=
  L.entries.countP fun e => e.outbound = m ∧ e.removal = none

/-- How many HTLCs of side `m` are locked on both commitments, and were not resolved when that side
last acknowledged. -/
def lodged (L : Ledger) (m : Bool) : Nat :=
  L.entries.countP fun e =>
    e.outbound = m ∧ e.addAt < L.settled m ∧ e.removal.all (L.acked (!m) ≤ ·.1)

/-- No side has more than `n` of either kind. -/
structure Capped (n : Nat) (L : Ledger) : Prop where
  unresolved : ∀ m, L.unresolved m ≤ n
  lodged : ∀ m, L.lodged m ≤ n

/-- Where every removal is acknowledged, the lodged HTLCs are among the unresolved ones. -/
theorem lodged_le_unresolved (h : Wf L) {L' : Ledger} {m : Bool} (hes : L'.entries = L.entries)
    (hack : L'.acked (!m) = (L.log !m).length) : L'.lodged m ≤ L.unresolved m := by
  unfold lodged unresolved
  rw [hes]
  refine List.countP_mono_left fun e he hp => ?_
  simp only [decide_eq_true_eq] at hp ⊢
  obtain ⟨ho, -, hall⟩ := hp
  refine ⟨ho, ?_⟩
  cases hrem : e.removal with
  | none => rfl
  | some x =>
    have hlog := ((h.entry e he).removed x.1 x.2 hrem).1
    rw [hrem, Option.all_some, hack, decide_eq_true_eq] at hall
    rw [ho] at hlog
    omega

/-- The counters of side `m` alone decide what is lodged. -/
theorem lodged_congr {L' : Ledger} {m : Bool} (hes : L'.entries = L.entries)
    (hset : L'.settled m = L.settled m) (hack : L'.acked (!m) = L.acked !m) :
    L'.lodged m = L.lodged m := by
  unfold lodged
  rw [hes, hset, hack]

namespace Capped

theorem empty : Capped n {} := ⟨fun _ => Nat.zero_le _, fun _ => Nat.zero_le _⟩

/-- A new HTLC is not locked. -/
theorem add (h : Capped n L) (hwf : Wf L) {m : Bool} (hroom : L.unresolved m < n) (id : HtlcId)
    (amountMsat : Msat) (paymentHash : PaymentHash) (cltvExpiry : Nat) (onion : List UInt8)
    (source : Option HtlcSource) :
    Capped n (L.add m id amountMsat paymentHash cltvExpiry onion source) where
  unresolved k := by
    have hk := h.unresolved k
    unfold Ledger.unresolved at hroom hk ⊢
    show (L.entries ++ [_]).countP _ ≤ n
    rw [List.countP_append]
    by_cases hmk : m = k
    · subst hmk
      simp only [List.countP_singleton]
      split <;> omega
    · simpa [List.countP_singleton, hmk] using hk
  lodged k := by
    have hk := h.lodged k
    have hout : ¬ (L.log m).length < L.settled m :=
      Nat.not_lt.2 (Nat.le_trans (hwf.settled_le m) (hwf.acked_le m))
    unfold Ledger.lodged at hk ⊢
    show (L.entries ++ [_]).countP _ ≤ n
    rw [List.countP_append]
    refine Nat.le_trans (Nat.le_of_eq ?_) hk
    refine Nat.add_eq_left.2 (List.countP_eq_zero.2 fun e he => ?_)
    obtain rfl := List.mem_singleton.1 he
    simp only [decide_eq_true_eq]
    rintro ⟨rfl, hlt, -⟩
    exact hout hlt

/-- A removal stays counted until it is acknowledged. -/
theorem remove (h : Capped n L) {m : Bool} {id : HtlcId} (r : HtlcResolution)
    (hfree : ∀ e ∈ L.entries, e.key = (!m, id) → e.removal = none) :
    Capped n (L.remove m id r) where
  unresolved k := by
    refine Nat.le_trans ?_ (h.unresolved k)
    show (L.entries.map _).countP _ ≤ _
    rw [List.countP_map]
    refine List.countP_mono_left fun e _ hp => ?_
    by_cases hk : e.key = (!m, id)
    · simp [hk] at hp
    · simpa [hk] using hp
  lodged k := by
    refine Nat.le_trans ?_ (h.lodged k)
    show (L.entries.map _).countP (fun e : Entry => e.outbound = k ∧ e.addAt < L.settled k ∧
      e.removal.all (L.acked (!k) ≤ ·.1)) ≤ _
    rw [List.countP_map]
    refine List.countP_mono_left fun e he hp => ?_
    by_cases hk : e.key = (!m, id)
    · have hp' : e.outbound = k ∧ e.addAt < L.settled k ∧ L.acked (!k) ≤ (L.log m).length := by
        simpa [hk] using hp
      simp [hp'.1, hp'.2.1, hfree e he hk]
    · simpa [hk] using hp

theorem sign (h : Capped n L) : Capped n L.sign := ⟨h.unresolved, h.lodged⟩

theorem revoke (h : Capped n L) (hwf : Wf L) : Capped n L.revoke where
  unresolved := h.unresolved
  lodged k := by
    cases k with
    | false =>
      exact Nat.le_trans (lodged_le_unresolved hwf rfl (by simp [Ledger.revoke])) (h.unresolved false)
    | true =>
      refine Nat.le_trans (Nat.le_of_eq (lodged_congr rfl ?_ ?_)) (h.lodged true) <;>
        simp [Ledger.revoke]

theorem accept (h : Capped n L) (hwf : Wf L) : Capped n L.accept where
  unresolved := h.unresolved
  lodged k := by
    cases k with
    | true =>
      exact Nat.le_trans (lodged_le_unresolved hwf rfl (by simp [Ledger.accept])) (h.unresolved true)
    | false =>
      refine Nat.le_trans (Nat.le_of_eq (lodged_congr rfl ?_ ?_)) (h.lodged false) <;>
        simp [Ledger.accept]

/-- A commitment includes the unresolved HTLCs of its owner, and of the other side those that are
unresolved or lodged. -/
theorem included_le (h : Capped n L) (hwf : Wf L) (side : Bool) :
    (L.htlcs.filter fun x => (x.phase side).included).length ≤ 3 * n := by
  have hcount : (L.htlcs.filter fun x => (x.phase side).included).length ≤
      L.unresolved side + (L.unresolved (!side) + L.lodged !side) := by
    rw [← List.countP_eq_length_filter, htlcs, List.countP_map, List.countP_filter]
    refine Nat.le_trans (List.countP_le_add (q := fun e => e.outbound = side ∧ e.removal = none)
      (r := fun e => (e.outbound = (!side) ∧ e.removal = none) ∨ e.outbound = (!side) ∧
        e.addAt < L.settled (!side) ∧ e.removal.all (L.acked (!!side) ≤ ·.1)) ?_)
      (Nat.add_le_add_left (List.countP_le_add ?_) _)
    · intro e he hp
      simp only [Function.comp_apply, Bool.and_eq_true] at hp
      have hinc := hp.1
      rw [Channel.phase_toHtlc, included_iff hwf he] at hinc
      simp only [decide_eq_true_eq]
      by_cases ho : e.outbound = side
      · refine .inl ⟨ho, ?_⟩
        cases hrem : e.removal with
        | none => rfl
        | some x =>
          -- The owner's own HTLCs leave with the removal.
          have hlog := ((hwf.entry e he).removed x.1 x.2 hrem).1
          have hcut : L.cut side (!e.outbound) = (L.log !e.outbound).length := by
            simp [cut, ho]
          have hall := hinc.2
          rw [hrem, Option.all_some, hcut, decide_eq_true_eq] at hall
          omega
      · have hne : e.outbound = !side := Bool.eq_not_of_ne ho
        refine .inr ?_
        cases hrem : e.removal with
        | none => exact .inl ⟨hne, rfl⟩
        | some x =>
          have hlock := ((hwf.entry e he).removed x.1 x.2 hrem).2
          have hall := hinc.2
          rw [hrem] at hall
          exact .inr ⟨hne, hne ▸ hlock, by simpa [cut, hne] using hall⟩
    · intro e _ hp
      simpa using hp
  have h1 := h.unresolved side
  have h2 := h.unresolved !side
  have h3 := h.lodged !side
  omega

end Capped

end Ledger

namespace Channel

variable {C : Crypto} {ch ch' ch₀ : Channel}

/-! ## Channels -/

/-- The unresolved HTLCs the checks count are those of the ledger. -/
theorem Shape.length_live {L : Ledger} (hS : Shape L ch) (m : Bool) :
    (ch.live m).length = L.unresolved m := by
  unfold live Ledger.unresolved
  rw [hS.htlcs, ← List.countP_eq_length_filter, Ledger.htlcs, List.countP_map, List.countP_filter]
  refine List.countP_congr fun e _ => ?_
  cases hrem : e.removal <;> simp [Ledger.toHtlc, Ledger.baked, hrem]

/-- A commitment lists what is included. -/
theorem length_commitmentHtlcs (ch : Channel) (side : Bool) :
    (ch.commitmentHtlcs side).length = (ch.htlcs.filter fun x => (x.phase side).included).length := by
  simp [commitmentHtlcs]

/-- No side has or admits more HTLCs than the protocol allows one, and no signed commitment more than
three times as many. -/
structure Few (ch : Channel) : Prop where
  limits : ∀ side, (ch.limits side).1 ≤ maxHtlcsPerSide
  ledger : ∃ L, Shape L ch ∧ L.Capped maxHtlcsPerSide
  holder : ∀ hc, ch.currentHolderCommitment = some hc → hc.htlcs.length ≤ 3 * maxHtlcsPerSide
  counterparty : ∀ info, ch.currentCounterpartyCommitment = some info →
    info.htlcs.length ≤ 3 * maxHtlcsPerSide
  pending : ∀ pending, ch.pendingCounterpartyCommitment = some pending →
    pending.info.htlcs.length ≤ 3 * maxHtlcsPerSide

namespace Few

theorem next (h : Few ch) (side : Bool) :
    (ch.commitmentHtlcs side).length ≤ 3 * maxHtlcsPerSide := by
  obtain ⟨L, hS, hcap⟩ := h.ledger
  rw [length_commitmentHtlcs, hS.htlcs]
  exact hcap.included_le hS.wf side

/-- The check of an add finds room for it. -/
theorem room (h : Few ch) {L : Ledger} (hS : Shape L ch) (hcap : L.Capped maxHtlcsPerSide)
    {m : Bool} (hcount : (ch.live m).length % 2 ^ 16 < (ch.limits (!m)).1) :
    L.unresolved m < maxHtlcsPerSide := by
  have hle := hcap.unresolved m
  have hlim := h.limits !m
  rw [hS.length_live] at hcount
  simp only [maxHtlcsPerSide] at *
  omega

/-- What is listed of a commitment we sign. -/
theorem signs (h : Few ch) {number : Nat} {point : PublicKey} {b : Built}
    (hb : ch.buildCounterpartyCommitmentAt C number point = .ok b) :
    (ch.counterpartyInfoFromBuilt number point b.built b.htlcs).htlcs.length ≤
      3 * maxHtlcsPerSide := by
  have hnext := h.next false
  rw [← builtCounterparty_htlcs hb] at hnext
  simpa [counterpartyInfoFromBuilt] using hnext

theorem initial (h : Initial ch) (hlimits : ∀ side, (ch.limits side).1 ≤ maxHtlcsPerSide) :
    Few ch where
  limits := hlimits
  ledger := ⟨{}, h.shape, .empty⟩
  holder hc hhc := by cases h.holderCommitment.symm.trans hhc
  counterparty info hinfo := by cases h.counterpartyCommitment.symm.trans hinfo
  pending pending hp := by cases h.pending.symm.trans hp

theorem move (hm : Move C ch ch') (h : Few ch) : Few ch' := by
  obtain ⟨L, hS, hcap⟩ := h.ledger
  cases hm with
  | negotiate msg hmsg =>
    simp only [checkAcceptChannel, Fault.bind_eq_ok, Fault.require_eq_ok] at hmsg
    obtain ⟨_, -, _, -, _, -, _, -, _, -, _, -, hmax⟩ := hmsg
    refine ⟨fun side => ?_, ⟨L, ⟨hS.wf, hS.htlcs, hS.ids, hS.idle, hS.snapshot⟩, hcap⟩, h.holder,
      h.counterparty, h.pending⟩
    cases side
    · exact hmax
    · exact h.limits true
  | storeInitial sig b _ hb =>
    refine ⟨h.limits, ⟨L, ⟨hS.wf, hS.htlcs, hS.ids, hS.idle, hS.snapshot⟩, hcap⟩, fun hc hhc => ?_,
      h.counterparty, h.pending⟩
    obtain rfl := Option.some.inj hhc
    exact builtHolder_htlcs hb ▸ h.next true
  | signInitial point b st _ _ _ hb =>
    refine ⟨h.limits, ⟨L, ⟨hS.wf, hS.htlcs, hS.ids, hS.idle, hS.snapshot⟩, hcap⟩, h.holder,
      fun info hinfo => ?_, h.pending⟩
    obtain rfl := Option.some.inj hinfo
    exact h.signs hb
  | offer amountMsat paymentHash cltvExpiry onion source hst ha hv =>
    simp only [validateOutboundAdd, Fault.bind_eq_ok, Fault.require_eq_ok] at hv
    obtain ⟨_, -, _, -, _, -, _, hcount, -⟩ := hv
    exact ⟨h.limits, ⟨_, hS.offer ha _ _ _ _ _, hcap.add hS.wf (h.room hS hcap hcount) ..⟩, h.holder,
      h.counterparty, h.pending⟩
  | receive msg hmsg =>
    simp only [checkUpdateAddHtlc, Fault.bind_eq_ok, Fault.require_eq_ok] at hmsg
    obtain ⟨_, -, _, -, _, hid, _, -, _, -, _, -, _, hcount, -⟩ := hmsg
    exact ⟨h.limits, ⟨_, hS.receive hid, hcap.add hS.wf (h.room hS hcap hcount) ..⟩, h.holder,
      h.counterparty, h.pending⟩
  | resolveInbound id r x ha hx =>
    exact ⟨h.limits, ⟨_, hS.resolveInbound ha hx r,
      hcap.remove r fun e he hk => ((hS.inbound_removable hx).2 e he hk).1⟩, h.holder, h.counterparty,
      h.pending⟩
  | resolveOutbound id r x hx =>
    exact ⟨h.limits, ⟨_, hS.resolveOutbound hx r,
      hcap.remove r fun e he hk => ((hS.outbound_removable hx).2 e he hk).1⟩, h.holder,
      h.counterparty, h.pending⟩
  | sign point b ha hpoint hb hd =>
    refine ⟨h.limits, ⟨_, hS.sign point b, hcap.sign⟩, h.holder, h.counterparty, fun pending hp => ?_⟩
    obtain rfl := Option.some.inj hp
    exact h.signs hb
  | revoke pending secret point secrets nextPoint ha hp =>
    refine ⟨h.limits, ⟨_, hS.revoke ha hp secrets nextPoint, hcap.revoke hS.wf⟩, h.holder,
      fun info hinfo => ?_, fun _ h => by cases h⟩
    obtain rfl := Option.some.inj hinfo
    exact h.pending pending hp
  | bind | admin | nextPoint | park | fee | receiveFee =>
    exact ⟨h.limits, ⟨L, ⟨hS.wf, hS.htlcs, hS.ids, hS.idle, hS.snapshot⟩, hcap⟩, h.holder,
      h.counterparty, h.pending⟩

theorem accept (h : Few ch) {number : Nat} {b : Built}
    (hb : ch.buildHolderCommitmentAt C number = .ok b) (msg : Wire.CommitmentSigned) :
    Few (ch.acceptCommitment number b msg).gcHtlcs := by
  obtain ⟨L, hS, hcap⟩ := h.ledger
  refine ⟨h.limits, ⟨_, hS.accept number b msg, hcap.accept hS.wf⟩, fun hc hhc => ?_, h.counterparty,
    h.pending⟩
  obtain rfl := Option.some.inj hhc
  exact builtHolder_htlcs hb ▸ h.next true

end Few

/-- A fresh channel asks for what is configured, and was asked for no more than is allowed. -/
theorem Fresh.limits_le (h : Fresh C ch) (hconfig : ch.config.maxAcceptedHtlcs ≤ maxHtlcsPerSide)
    (side : Bool) : (ch.limits side).1 ≤ maxHtlcsPerSide := by
  cases h with
  | outbound h =>
    unfold newOutbound at h
    split at h
    · cases h
    · cases h
      cases side
      · exact Nat.zero_le _
      · exact hconfig
  | inbound h =>
    simp only [newInbound, Fault.bind_eq_ok, pure, Except.pure, Except.ok.injEq] at h
    obtain ⟨_, hcheck, h⟩ := h
    obtain ⟨rfl, -⟩ := Prod.mk.inj h
    simp only [checkOpenChannel, Fault.bind_eq_ok, Fault.require_eq_ok] at hcheck
    obtain ⟨_, -, _, -, _, -, _, -, _, hmax, -⟩ := hcheck
    cases side
    · exact hmax
    · exact hconfig

/-- While the connection lasts, a channel that asks for no more HTLCs than allowed has few. -/
theorem few_htlcs {tr : Trace Input ChannelError (List Wire.Message)} (h₀ : Fresh C ch₀)
    (hconfig : ch₀.config.maxAcceptedHtlcs ≤ maxHtlcsPerSide) (hr : Run (step C) ch₀ tr ch)
    (hd : ∀ x ∈ tr, x.1 ≠ .disconnect) : Few ch := by
  refine Run.invariant (A := (· ≠ .disconnect)) (Few.initial h₀.initial (h₀.limits_le hconfig)) ?_ hr
    hd
  intro ch i hi h
  refine (step_stepped i ch).mono fun ch' hs => ?_
  cases hs with
  | moves _ hm => exact hm.invariant (fun _ _ hm => Few.move hm) h
  | refused => exact h
  | accepted msg b _ hb => exact h.accept hb msg
  | rolledBack => exact absurd rfl hi

end Channel
