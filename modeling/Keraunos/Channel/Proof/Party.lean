import Keraunos.Channel.Proof.Deals
import Keraunos.Channel.Proof.Terms

/-!
# A channel as a party

`Ledger.party L ch` is the part of a channel in the dance of the two logs. What `Deals` lists is an
operation of the party, and the channel stays in order (`InOrder.makes`, `InOrder.takes`, `InOrder.sign`,
`InOrder.accept`, `InOrder.revoke`, `InOrder.aside`, `InOrder.setCell`).
-/

open Bitcoin Commitment Lockstep

namespace Ledger

variable {L : Ledger}

def party (L : Ledger) (ch : Channel) : Party Update where
  own := L.log true
  theirs := L.log false
  ackedOwn := L.acked true
  ackedTheirs := L.acked false
  settledOwn := L.settled true
  settledTheirs := L.settled false
  signed := L.signed
  number := ch.holderCommitmentNumber
  theirNumber := ch.counterpartyCommitmentNumber
  awaiting := ch.awaitingRaa
  dirty := ch.counterpartyDirty

/-- An update counts for no place before it. -/
theorem take_push {k : Nat} (m n : Bool) (u : Update) (hk : k ≤ (L.log n).length) :
    ((L.push m u).log n).take k = (L.log n).take k := by
  by_cases hn : n = m
  · subst hn
    rw [push_log_self, List.take_append_of_le_length hk]
  · obtain rfl : n = !m := by simpa [Bool.eq_not] using hn
    rw [push_log_not]

theorem lastFee_front_push (h : Wf L) (m : Bool) {u : Update} (hu : u.fee? = none) (s o : Bool)
    (f : FeeRatePerKw) :
    Update.lastFee ((L.push m u).front s o) f = Update.lastFee (L.front s o) f := by
  by_cases ho : o = s
  · subst ho
    rw [front_self, front_self]
    exact congrArg (Update.lastFee · f) (take_push m o u (h.acked_le o))
  · obtain rfl : o = !s := by simpa [Bool.eq_not] using ho
    rw [front_not, front_not]
    by_cases hm : (!s) = m
    · subst hm
      rw [push_log_self, Update.lastFee_concat, hu]
      rfl
    · obtain rfl : s = m := by simpa [Bool.not_eq_eq_eq_not] using hm
      rw [push_log_not]

theorem offers_push_fee (L : Ledger) (m n : Bool) (feerate : FeeRatePerKw) :
    Update.offers ((L.push m (.fee feerate)).log n) = Update.offers (L.log n) := by
  by_cases hn : n = m
  · subst hn
    rw [push_log_self, Update.offers_concat]
    simp [Update.offer?]
  · obtain rfl : n = !m := by simpa [Bool.eq_not] using hn
    rw [push_log_not]

end Ledger

namespace Channel

variable {C : Crypto} {g : Genesis} {L L' : Ledger} {ch ch' : Channel}

/-! ## Updates -/

theorem setting_of_charter (h : ch'.charter = ch.charter) : ch'.setting = ch.setting := by
  have hcp : ch'.counterpartyPubkeys = _ := congrArg (·.counterpartyPubkeys) h
  have ho : ch'.fundingOutpoint = _ := congrArg (·.fundingOutpoint) h
  have hobs : ch'.obscureFactor = _ := congrArg Charter.obscureFactor h
  have hrole : ch'.role = _ := congrArg (·.role) h
  have hparams : ch'.params = _ := congrArg (·.params) h
  have hkeys : ch'.holderPubkeys = _ := congrArg (·.holderPubkeys) h
  funext s
  simp only [setting, settingWith, hcp, ho, hobs, hrole, hparams, hkeys]
  rfl

/-- The records do not depend on what comes later. -/
theorem Records.push (h : Records C g L ch) (hwf : L.Wf) (m : Bool) (u : Update)
    (hlog : L'.log = (L.push m u).log) (hack : L'.acked = L.acked) (hset : L'.settled = L.settled)
    (hsig : L'.signed = L.signed) (hm : m = true → ch.awaitingRaa = false)
    (hst : ch'.standing = ch.standing)
    (hnum : ch'.counterpartyCommitmentNumber = ch.counterpartyCommitmentNumber)
    (hraa : ch'.awaitingRaa = ch.awaitingRaa)
    (hpen : ch'.pendingCounterpartyCommitment = ch.pendingCounterpartyCommitment) :
    Records C g L' ch' := by
  have hop : ch'.opener = ch.opener := congrArg (fun t : Standing => decide (t.role = .opener)) hst
  have hsetting := setting_of_charter (congrArg Standing.toCharter hst)
  have hsigner : ch'.signer = ch.signer := congrArg (·.signer) hst
  have hset_le : ∀ n, L.settled n ≤ (L.log n).length := fun n =>
    Nat.le_trans (hwf.settled_le n) (hwf.acked_le n)
  refine ⟨?_, ?_, fun ha => ?_⟩
  · rw [show ch'.currentHolderCommitment = _ from congrArg Standing.currentHolderCommitment hst,
      show ch'.holderCommitmentNumber = _ from congrArg Standing.holderCommitmentNumber hst, hop, hlog,
      hack, hset, Ledger.take_push m true u (hset_le true), Ledger.take_push m false u (hwf.acked_le false),
      hsetting, hsigner]
    exact h.held
  · rw [show ch'.currentCounterpartyCommitment = _ from
        congrArg Standing.currentCounterpartyCommitment hst, hnum, hop, hlog, hack, hset,
      Ledger.take_push m false u (hset_le false), Ledger.take_push m true u (hwf.acked_le true), hsetting]
    exact h.current
  · rw [hraa] at ha
    have hlog' : L'.log true = L.log true := by
      cases m with
      | false => exact (congrFun hlog true).trans (L.push_log_not false u)
      | true => cases ha.symm.trans (hm rfl)
    rw [hpen, hnum, hop, hlog', hsig, congrFun hlog false,
      Ledger.take_push m false u (Nat.le_trans hwf.signed_le (hwf.acked_le false)), hsetting]
    exact h.pending ha

/-- Nor do the feerates on an update of another kind. -/
theorem Rates.push (h : Rates g L ch) (hwf : L.Wf) (m : Bool) {u : Update} (hu : u.fee? = none)
    (hlog : L'.log = (L.push m u).log) (hack : L'.acked = L.acked) (hrole : ch'.role = ch.role)
    (hh : ch'.feerateHolder = ch.feerateHolder)
    (hc : ch'.feerateCounterparty = ch.feerateCounterparty)
    (hp : ch'.pendingFeeAck = ch.pendingFeeAck) (hraa : ch'.awaitingRaa = ch.awaitingRaa)
    (hpen : ch'.pendingCounterpartyCommitment = ch.pendingCounterpartyCommitment) :
    Rates g L' ch' := by
  have hop : ch'.opener = ch.opener := congrArg (fun r => decide (r = ChannelRole.opener)) hrole
  have hfront : ∀ s o, L'.front s o = (L.push m u).front s o := by
    intro s o
    unfold Ledger.front Ledger.cut
    rw [hlog, hack]
    rfl
  refine ⟨fun s => ?_, ?_, ?_⟩
  · rw [hfront, hop, Ledger.lastFee_front_push hwf m hu, ← h.next s]
    simp only [contentOf, hh, hc]
  · rw [hop, hp, hraa, hpen, hh, hc]
    exact h.opens
  · rw [hop, hp, hraa, hpen, hh, hc]
    exact h.accepts

namespace InOrder

/-- The opener changes the feerate. -/
theorem changeFee (h : InOrder C g L ch) (ha : ch.awaitingRaa = false) (hrole : ch.role = .opener)
    (feerate : FeeRatePerKw) : InOrder C g (L.push true (.fee feerate))
      { ch with feerateCounterparty := feerate, counterpartyDirty := true } := by
  have hop : ch.opener = true := by simp [opener, hrole]
  have hwf := h.shape.wf
  refine ⟨h.opened, ⟨hwf.fee true feerate, h.shape.htlcs, fun m => ?_, h.shape.idle,
    h.shape.snapshot⟩, ⟨h.funds.nonneg, h.funds.total, h.funds.base, h.funds.solvent⟩, ?_,
    h.records.push hwf true _ rfl rfl rfl rfl (fun _ => ha) rfl rfl rfl rfl⟩
  · exact (congrArg _ (L.offers_push_fee true m feerate)).trans (h.shape.ids m)
  · refine ⟨fun s => ?_, fun _ => ⟨(h.rates.opens hop).1, fun ha' => (by cases ha.symm.trans ha')⟩,
      fun hno => (by cases hop.symm.trans hno)⟩
    cases s with
    | false =>
      show feerate = Update.lastFee ((L.push true (.fee feerate)).front false ch.opener) g.feerate
      rw [hop, show true = !false from rfl, Ledger.front_not, Bool.not_false, Ledger.push_log_self,
        Update.lastFee_concat]
      rfl
    | true =>
      refine (h.rates.next true).trans ?_
      show _ = Update.lastFee ((L.push true (.fee feerate)).front true ch.opener) g.feerate
      rw [hop, Ledger.front_self, Ledger.front_self]
      exact congrArg (Update.lastFee · _) (Ledger.take_push true true _ (hwf.acked_le true)).symm

/-- The opener changed the feerate. -/
theorem hearFee (h : InOrder C g L ch) (hrole : ch.role ≠ .opener) (feerate : FeeRatePerKw) :
    InOrder C g (L.push false (.fee feerate))
      { ch with feerateHolder := feerate, pendingFeeAck := some feerate } := by
  have hop : ch.opener = false := by simp [opener, hrole]
  have hwf := h.shape.wf
  refine ⟨h.opened, ⟨hwf.fee false feerate, h.shape.htlcs, fun m => ?_, h.shape.idle,
    h.shape.snapshot⟩, ⟨h.funds.nonneg, h.funds.total, h.funds.base, h.funds.solvent⟩, ?_,
    h.records.push hwf false _ rfl rfl rfl rfl (fun hm => (by cases hm)) rfl rfl rfl rfl⟩
  · exact (congrArg _ (L.offers_push_fee false m feerate)).trans (h.shape.ids m)
  · refine ⟨fun s => ?_, fun hyes => (by cases hop.symm.trans hyes),
      fun _ => ⟨rfl, (h.rates.accepts hop).2⟩⟩
    cases s with
    | true =>
      show feerate = Update.lastFee ((L.push false (.fee feerate)).front true ch.opener) g.feerate
      rw [hop, show false = !true from rfl, Ledger.front_not, Bool.not_true, Ledger.push_log_self,
        Update.lastFee_concat]
      rfl
    | false =>
      refine (h.rates.next false).trans ?_
      show _ = Update.lastFee ((L.push false (.fee feerate)).front false ch.opener) g.feerate
      rw [hop, Ledger.front_self, Ledger.front_self]
      exact congrArg (Update.lastFee · _) (Ledger.take_push false false _ (hwf.acked_le false)).symm

/-- An update of ours. -/
theorem makes {u : Update} (h : InOrder C g L ch) (hm : Makes C ch u ch') :
    ∃ L', InOrder C g L' ch' ∧ L'.party ch' = (L.party ch).push u := by
  have hwf := h.shape.wf
  cases hm with
  | add ha hst hv =>
    refine ⟨_, ⟨h.opened, h.shape.offer ha _ _ _ _ _, h.funds.offer h.shape hv _ _ _, ?_, ?_⟩, ?_⟩
    · exact h.rates.push hwf true rfl rfl rfl rfl rfl rfl rfl rfl rfl
    · exact h.records.push hwf true _ rfl rfl rfl rfl (fun _ => ha) rfl rfl rfl rfl
    · simp [Ledger.party, Party.push, Ledger.add, Ledger.push, offer]
  | @remove id r x ha hx _ =>
    have hlock := (h.shape.inbound_removable hx).2
    refine ⟨_, ⟨h.opened, h.shape.resolveInbound ha hx r,
      h.funds.remove (n := true) h.shape r hlock (fun _ => rfl) rfl, ?_, ?_⟩, ?_⟩
    · exact h.rates.push hwf true rfl rfl rfl rfl rfl rfl rfl rfl rfl
    · exact h.records.push hwf true _ rfl rfl rfl rfl (fun _ => ha) rfl rfl rfl rfl
    · simp [Ledger.party, Party.push, Ledger.remove, Ledger.push, resolveInbound]
  | fee ha hst hrole _ =>
    refine ⟨_, h.changeFee ha hrole _, ?_⟩
    simp [Ledger.party, Party.push, Ledger.push]

/-- An update of the peer's. -/
theorem takes {u : Update} (h : InOrder C g L ch) (ht : Takes ch u ch') :
    ∃ L', InOrder C g L' ch' ∧ L'.party ch' = (L.party ch).hear u := by
  have hwf := h.shape.wf
  cases ht with
  | add hc =>
    have hid := hc
    simp only [checkUpdateAddHtlc, Fault.bind_eq_ok, Fault.require_eq_ok] at hid
    obtain ⟨_, -, _, -, _, hid, -⟩ := hid
    refine ⟨_, ⟨h.opened, h.shape.receive hid, h.funds.receive h.shape hc, ?_, ?_⟩, ?_⟩
    · exact h.rates.push hwf false rfl rfl rfl rfl rfl rfl rfl rfl rfl
    · exact h.records.push hwf false _ rfl rfl rfl rfl (fun hm => (by cases hm)) rfl rfl rfl rfl
    · simp [Ledger.party, Party.hear, Ledger.add, Ledger.push, receive]
  | @remove id r x hx =>
    have hlock := (h.shape.outbound_removable hx).2
    refine ⟨_, ⟨h.opened, h.shape.resolveOutbound hx r,
      h.funds.remove (n := false) h.shape r hlock (fun _ => rfl) rfl, ?_, ?_⟩, ?_⟩
    · exact h.rates.push hwf false rfl rfl rfl rfl rfl rfl rfl rfl rfl
    · exact h.records.push hwf false _ rfl rfl rfl rfl (fun hm => (by cases hm)) rfl rfl rfl rfl
    · simp [Ledger.party, Party.hear, Ledger.remove, Ledger.push, resolveOutbound]
  | fee hrole =>
    refine ⟨_, h.hearFee hrole _, ?_⟩
    simp [Ledger.party, Party.hear, Ledger.push]

/-! ## The dance -/

/-- The holding cell is not part of it. -/
theorem setCell (h : InOrder C g L ch) (ops : List HoldingCellOp) :
    InOrder C g L { ch with holdingCell := ops } :=
  ⟨h.opened, ⟨h.shape.wf, h.shape.htlcs, h.shape.ids, h.shape.idle, h.shape.snapshot⟩,
    ⟨h.funds.nonneg, h.funds.total, h.funds.base, h.funds.solvent⟩,
    ⟨h.rates.next, h.rates.opens, h.rates.accepts⟩,
    ⟨h.records.held, h.records.current, h.records.pending⟩⟩

/-- What leaves the dance alone. -/
theorem aside (h : InOrder C g L ch) {i : Input} (ha : Aside C ch i ch') :
    InOrder C g L ch' ∧ L.party ch' = L.party ch := by
  obtain ⟨hrank, hst⟩ := ha.moves.standing h.opened
  have hd := ha.dance
  have hop : ch'.opener = ch.opener := congrArg (fun t : Standing => decide (t.role = .opener)) hst
  have hraa : ch'.awaitingRaa = ch.awaitingRaa := congrArg Dance.awaitingRaa hd
  have hpen : ch'.pendingCounterpartyCommitment = ch.pendingCounterpartyCommitment :=
    congrArg (·.pending) hd
  have hnum : ch'.counterpartyCommitmentNumber = ch.counterpartyCommitmentNumber :=
    congrArg Dance.counterpartyCommitmentNumber hd
  have hhtlcs : ch'.htlcs = ch.htlcs := congrArg (·.htlcs) hd
  have hfh : ch'.feerateHolder = ch.feerateHolder := congrArg (·.feerateHolder) hd
  have hfc : ch'.feerateCounterparty = ch.feerateCounterparty := congrArg (·.feerateCounterparty) hd
  have hack : ch'.pendingFeeAck = ch.pendingFeeAck := congrArg (·.pendingFeeAck) hd
  have hid : ∀ m, ch'.nextId m = ch.nextId m := by
    intro m
    cases m
    · exact congrArg Dance.nextCounterpartyHtlcId hd
    · exact congrArg (·.nextHolderHtlcId) hd
  have hbase : ∀ m, ch'.base m = ch.base m := by
    intro m
    cases m
    · exact congrArg (·.toCounterpartyMsat) hd
    · exact congrArg (·.toHolderMsat) hd
  have hfund : ch'.fundingAmountSat = ch.fundingAmountSat := congrArg (·.fundingAmountSat) hst
  have hhcn : ch'.holderCommitmentNumber = ch.holderCommitmentNumber :=
    congrArg Standing.holderCommitmentNumber hst
  have hsetting := setting_of_charter (congrArg Standing.toCharter hst)
  have hsigner : ch'.signer = ch.signer := congrArg (·.signer) hst
  refine ⟨⟨hrank, ⟨h.shape.wf, hhtlcs.trans h.shape.htlcs, fun m => hid m ▸ h.shape.ids m,
    hraa ▸ h.shape.idle, ?_⟩, ?_, ⟨fun s => ?_, ?_, ?_⟩, ⟨?_, ?_, ?_⟩⟩, ?_⟩
  · rw [hraa, hpen]
    exact h.shape.snapshot
  · rw [hop]
    exact ⟨h.funds.nonneg, hfund ▸ h.funds.total, fun m => hbase m ▸ h.funds.base m, h.funds.solvent⟩
  · rw [hop, ← h.rates.next s]
    simp only [contentOf, hfh, hfc]
  · rw [hop, hack, hraa, hpen, hfh, hfc]
    exact h.rates.opens
  · rw [hop, hack, hraa, hpen, hfh, hfc]
    exact h.rates.accepts
  · rw [show ch'.currentHolderCommitment = _ from congrArg Standing.currentHolderCommitment hst, hhcn,
      hop, hsetting, hsigner]
    exact h.records.held
  · rw [show ch'.currentCounterpartyCommitment = _ from
      congrArg Standing.currentCounterpartyCommitment hst, hnum, hop, hsetting]
    exact h.records.current
  · rw [hraa, hpen, hnum, hop, hsetting]
    exact h.records.pending
  · have hdirty : ch'.counterpartyDirty = ch.counterpartyDirty := congrArg Dance.counterpartyDirty hd
    simp only [Ledger.party, hhcn, hnum, hraa, hdirty]

/-- We sign the peer's next commitment. -/
theorem sign {m : Wire.CommitmentSigned} {point : PublicKey} {b : Built} (h : InOrder C g L ch)
    (hs : Signs C ch m point b) : InOrder C g L.sign (ch.sign point b) := by
  have hnext := h.content false
  rw [contentOf_false, Ledger.front_self, Ledger.front_not] at hnext
  refine ⟨h.opened, h.shape.sign point b, h.funds.sign point b,
    ⟨h.rates.next, fun hop => ⟨(h.rates.opens hop).1, fun _ pending hp => ?_⟩,
      fun hop => ⟨(h.rates.accepts hop).1, fun _ pending hp => ?_⟩⟩,
    ⟨h.records.held, h.records.current, fun _ => ⟨_, rfl, rfl, depicts_of_built hs.built, ?_⟩⟩⟩
  · obtain rfl := Option.some.inj hp
    have hrole : ch.role = .opener := of_decide_eq_true hop
    show (ch.feeUpdate).getD ch.feerateHolder = ch.feerateCounterparty
    by_cases hne : ch.feerateHolder = ch.feerateCounterparty <;> simp [feeUpdate, hrole, hne]
  · obtain rfl := Option.some.inj hp
    have hrole : ch.role ≠ .opener := of_decide_eq_false hop
    show ch.feeUpdate = none
    simp [feeUpdate, hrole]
  · rw [content_of_built hs.built]
    rw [show (ch.opener == false) = !ch.opener by cases ch.opener <;> rfl, Bool.not_false] at hnext
    exact hnext

/-- We accept our next commitment. -/
theorem accept {b : Built} (h : InOrder C g L ch) (msg : Wire.CommitmentSigned)
    (hb : ch.buildHolderCommitmentAt C (ch.holderCommitmentNumber + 1) = .ok b) :
    InOrder C g L.accept (ch.acceptCommitment (ch.holderCommitmentNumber + 1) b msg).gcHtlcs := by
  have hwf := h.shape.wf
  have hown := h.content true
  have hfunds := ((acceptCommitment_collecting h.shape (ch.holderCommitmentNumber + 1) b msg).gc
    h.shape h.funds).2
  obtain ⟨hhtlcs, hrenders⟩ := holder_renders hb
  rw [Ledger.front_self, Ledger.front_not] at hown
  refine ⟨h.opened, h.shape.accept _ b msg,
    ⟨hfunds.nonneg, hfunds.total, hfunds.base, hfunds.solvent⟩,
    ⟨fun s => ?_, fun hop => ⟨rfl, fun ha pending hp => ?_⟩,
      fun hop => ⟨?_, (h.rates.accepts hop).2⟩⟩,
    ⟨⟨_, ch.contentOf true, rfl, rfl, ⟨rfl, hhtlcs, hrenders⟩, ?_⟩, h.records.current, h.records.pending⟩⟩
  · cases s with
    | true =>
      refine (h.rates.next true).trans (congrArg (Update.lastFee · _) ?_)
      show L.front true ch.opener = L.accept.front true ch.opener
      cases ch.opener <;> rfl
    | false =>
      show ch.pendingFeeAck.getD ch.feerateCounterparty =
        Update.lastFee (L.accept.front false ch.opener) g.feerate
      cases hop : ch.opener with
      | true =>
        rw [(h.rates.opens hop).1]
        refine (h.rates.next false).trans ?_
        rw [hop]
        rfl
      | false =>
        rw [(h.rates.accepts hop).1]
        refine (h.rates.next true).trans ?_
        rw [hop, Ledger.front_self, show false = !true from rfl, Ledger.front_not]
        simp [Ledger.accept]
  · show pending.feeUpdate.getD ch.feerateHolder = ch.pendingFeeAck.getD ch.feerateCounterparty
    rw [(h.rates.opens hop).1]
    exact (h.rates.opens hop).2 ha pending hp
  · show ch.pendingFeeAck.getD ch.feerateCounterparty = ch.feerateHolder
    exact (h.rates.accepts hop).1
  · have hset : L.accept.settled true = L.acked true := by simp [Ledger.accept]
    have hack : L.accept.acked false = (L.log false).length := by simp [Ledger.accept]
    show Content.Of g ch.opener ((L.log true).take (L.accept.settled true))
      ((L.log false).take (L.accept.acked false)) (ch.contentOf true)
    rw [hset, hack, List.take_length]
    rw [beq_true, Bool.not_true] at hown
    exact hown

/-- The peer revoked. -/
theorem revoke {pending : PendingCounterpartyCommitment} (h : InOrder C g L ch)
    (ha : ch.awaitingRaa = true) (hp : ch.pendingCounterpartyCommitment = some pending)
    (secrets : Shachain.SecretStore) (nextPoint : PublicKey) :
    InOrder C g L.revoke (ch.revoked pending secrets nextPoint) := by
  have hwf := h.shape.wf
  have hfunds := ((acceptRevocation_collecting h.shape ha hp secrets nextPoint).gc h.shape h.funds).2
  have hfront : ∀ o, L.revoke.front true o = if o then L.log true else L.front true o := by
    intro o
    cases o with
    | true =>
      rw [Ledger.front_self]
      simp [Ledger.revoke]
    | false => rfl
  have hkept : InOrder C g L.revoke (ch.acceptRevocation pending secrets nextPoint).gcHtlcs.processed := by
    refine ⟨h.opened, h.shape.revoke ha hp secrets nextPoint,
      ⟨hfunds.nonneg, hfunds.total, hfunds.base, hfunds.solvent⟩,
      ⟨fun s => ?_, fun hop => ⟨(h.rates.opens hop).1, fun ha' => (by cases ha')⟩,
        fun hop => ⟨?_, fun ha' => (by cases ha')⟩⟩,
      ⟨?_, ⟨pending.info, rfl, ?_⟩, fun ha' => (by cases ha')⟩⟩
    · cases s with
      | true =>
        show pending.feeUpdate.getD ch.feerateHolder =
          Update.lastFee (L.revoke.front true ch.opener) g.feerate
        rw [hfront]
        cases hop : ch.opener with
        | true =>
          rw [(h.rates.opens hop).2 ha pending hp]
          refine (h.rates.next false).trans ?_
          rw [hop, show true = !false from rfl, Ledger.front_not]
          rfl
        | false =>
          rw [(h.rates.accepts hop).2 ha pending hp]
          refine (h.rates.next true).trans ?_
          rw [hop]
          rfl
      | false =>
        refine (h.rates.next false).trans (congrArg (Update.lastFee · _) ?_)
        show L.front false ch.opener = L.revoke.front false ch.opener
        cases ch.opener <;> rfl
    · show ch.pendingFeeAck.getD ch.feerateCounterparty = pending.feeUpdate.getD ch.feerateHolder
      rw [(h.rates.accepts hop).2 ha pending hp]
      exact (h.rates.accepts hop).1
    · have hset : L.revoke.settled true = L.settled true := rfl
      have hack : L.revoke.acked false = L.acked false := rfl
      rw [hset, hack]
      exact h.records.held
    · obtain ⟨pending', hp', hnum, hdesc, hof⟩ := h.records.pending ha
      obtain rfl := Option.some.inj (hp.symm.trans hp')
      have hset : L.revoke.settled false = L.signed := by simp [Ledger.revoke]
      have hack : L.revoke.acked true = (L.log true).length := by simp [Ledger.revoke]
      refine ⟨hnum, hdesc, ?_⟩
      show Content.Of g (!ch.opener) ((L.log false).take (L.revoke.settled false))
        ((L.log true).take (L.revoke.acked true)) _
      rw [hset, hack, List.take_length]
      exact hof
  exact hkept.setCell []

end InOrder

end Channel
