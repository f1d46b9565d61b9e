import Keraunos.Channel.Proof.Dirty
import Keraunos.Channel.Proof.Fees
import Keraunos.Commitment.Proof.Construction

/-!
# What two logs come to

A commitment is determined by how far the log of each side has come into it. `Content.Of` says what a
commitment holds whose owner has made the updates `xs` and the other side `ys`: the HTLCs that were
offered and not removed, the feerate the opener set last, and the two balances. Nothing of a channel is
in it, so two channels with the same logs hold the same commitment (`Content.Of.agree`).

`InOrder C g L ch` is the invariant of one channel that opened with the balances and the feerate `g`: its next
commitments (`InOrder.content`), those on record and the one in flight (`Records`) hold what the ledger `L`
says, and their transactions are those of their contents. Each operation of the ledger keeps it.
-/

open Bitcoin Commitment

namespace Update

/-! ## Prefixes of a log -/

theorem mem_offers {log : List Update} {o : Offer} (h : o ∈ offers log) : o.addAt < log.length := by
  obtain ⟨⟨u, i⟩, hmem, ho⟩ := List.mem_filterMap.1 h
  have hi := (List.mem_zipIdx' hmem).1
  cases u with
  | add =>
    obtain rfl := Option.some.inj ho
    exact hi
  | _ => cases ho

theorem offers_take (log : List Update) (n : Nat) :
    offers (log.take n) = (offers log).filter (·.addAt < n) := by
  induction log using List.reverseRecOn with
  | nil => simp [offers]
  | append_singleton log u ih =>
    by_cases hn : n ≤ log.length
    · rw [List.take_append_of_le_length hn, offers_concat, List.filter_append, ih]
      have hlast : (offer? (u, log.length)).toList.filter (·.addAt < n) = [] := by
        cases u <;> simp [offer?, Nat.not_lt.2 hn]
      rw [hlast, List.append_nil]
    · rw [List.take_of_length_le (by simp; omega), eq_comm, List.filter_eq_self]
      intro o ho
      have hlt := mem_offers ho
      rw [List.length_append, List.length_singleton] at hlt
      simpa using by omega

theorem removalOf_lt {log : List Update} {id : HtlcId} {x : Nat × HtlcResolution}
    (h : removalOf log id = some x) : x.1 < log.length := by
  obtain ⟨⟨u, i⟩, hmem, hx⟩ := List.exists_of_findSome?_eq_some h
  have hi := (List.mem_zipIdx' hmem).1
  cases u with
  | remove id' r =>
    simp only [removal?] at hx
    split at hx
    · obtain rfl := Option.some.inj hx
      exact hi
    · cases hx
  | _ => cases hx

theorem removalOf_take (log : List Update) (n : Nat) (id : HtlcId) :
    removalOf (log.take n) id = (removalOf log id).filter (·.1 < n) := by
  induction log using List.reverseRecOn with
  | nil => simp [removalOf]
  | append_singleton log u ih =>
    by_cases hn : n ≤ log.length
    · rw [List.take_append_of_le_length hn, removalOf_concat, ih]
      cases hold : removalOf log id with
      | some x => rfl
      | none =>
        cases u with
        | remove id' r =>
          by_cases hid : id' = id <;> simp [removal?, hid, Option.filter, Nat.not_lt.2 hn]
        | _ => simp [removal?]
    · rw [List.take_of_length_le (by simp; omega), eq_comm]
      cases hx : removalOf (log ++ [u]) id with
      | none => rfl
      | some x =>
        have hlt := removalOf_lt hx
        rw [List.length_append, List.length_singleton] at hlt
        have hxn : x.1 < n := by omega
        simp [hxn]

/-! ## What the updates leave -/

/-- The HTLCs offered in `xs` that `ys` does not remove. -/
def live (xs ys : List Update) : List Offer :=
  (offers xs).filter fun o => (removalOf ys o.id).isNone

/-- What the updates of both sides did to the balance of the side that made `xs`: its HTLCs count as
long as they did not fail, those of the other side once they were fulfilled. -/
def net (xs ys : List Update) : Int :=
  ((offers xs).map fun o =>
    if (removalOf ys o.id).any (!·.2.isFulfill) then 0 else -(o.amountMsat : Int)).sum +
  ((offers ys).map fun o =>
    if (removalOf xs o.id).any (·.2.isFulfill) then (o.amountMsat : Int) else 0).sum

end Update

/-- The HTLC of a commitment whose owner offered or received it. -/
def Offer.output (o : Offer) (offered : Bool) : HtlcOutputInCommitment :=
  ⟨offered, o.amountMsat, o.cltvExpiry, o.paymentHash⟩

/-- What a channel opened with. -/
structure Genesis where
  openerMsat : Msat
  accepterMsat : Msat
  feerate : FeeRatePerKw
  deriving DecidableEq

/-- What the opener or the accepter had. -/
def Genesis.initial (g : Genesis) (opener : Bool) : Msat :=
  if opener then g.openerMsat else g.accepterMsat

namespace Content

/-- The commitment of the side that made the updates `xs`; `opener` says whether that side opened the
channel. Balances are those of the other side and of the owner, in this order. -/
structure Of (g : Genesis) (opener : Bool) (xs ys : List Update) (c : Content) : Prop where
  feerate : c.feerate = Update.lastFee (if opener then xs else ys) g.feerate
  owner : (c.balances.2 : Int) = g.initial opener + Update.net xs ys
  other : (c.balances.1 : Int) = g.initial (!opener) + Update.net ys xs
  htlcs : c.htlcs.Perm
    ((Update.live xs ys).map (·.output true) ++ (Update.live ys xs).map (·.output false))

/-- The same commitment: HTLCs are listed in any order. -/
structure Agree (c d : Content) : Prop where
  feerate : c.feerate = d.feerate
  balances : c.balances = d.balances
  htlcs : c.htlcs.Perm d.htlcs

theorem Of.agree {g : Genesis} {opener : Bool} {xs ys : List Update} {c d : Content}
    (hc : Of g opener xs ys c) (hd : Of g opener xs ys d) : Agree c d where
  feerate := hc.feerate.trans hd.feerate.symm
  balances := by
    have howner := hc.owner.trans hd.owner.symm
    have hother := hc.other.trans hd.other.symm
    exact Prod.ext (by exact_mod_cast hother) (by exact_mod_cast howner)
  htlcs := hc.htlcs.trans hd.htlcs.symm

end Content

/-! ## The transaction of a commitment -/

/-- What a commitment is made of besides its content. -/
structure Setting where
  funding : OutPoint
  obscureFactor : Nat
  broadcasterPaysFee : Bool
  dustLimitSat : Nat
  toSelfDelay : Nat
  broadcaster : ChannelPublicKeys
  countersignatory : ChannelPublicKeys

/-- The parameters of a commitment in this setting. -/
def Setting.params (t : Setting) (number : Nat) (keys : TxCreationKeys) (c : Content) :
    CommitmentTxParams where
  fundingOutpoint := t.funding
  commitmentNumber := number
  obscureFactor := t.obscureFactor
  broadcasterPaysFee := t.broadcasterPaysFee
  feerate := c.feerate
  broadcasterDustLimitSat := t.dustLimitSat
  toSelfDelay := t.toSelfDelay
  keys := keys
  countersignatoryPaymentBasepoint := t.countersignatory.paymentBasepoint
  toBroadcasterMsat := c.balances.2
  toCountersignatoryMsat := c.balances.1
  htlcs := c.htlcs

/-- The commitment of this number, point and content. -/
def Setting.commitment (C : Crypto) (t : Setting) (number : Nat) (point : PublicKey) (c : Content) :
    Option BuiltCommitmentTx := do
  let keys ← TxCreationKeys.derive C point t.broadcaster t.countersignatory
  buildCommitmentTx C (t.params number keys c)

theorem Setting.commitment_eq_some {C : Crypto} {t : Setting} {number : Nat} {point : PublicKey} {c : Content}
    {b : BuiltCommitmentTx} : t.commitment C number point c = some b ↔
      ∃ keys, TxCreationKeys.derive C point t.broadcaster t.countersignatory = some keys ∧
        number < 2 ^ 48 ∧ b = (t.params number keys c).assemble C := by
  simp only [Setting.commitment, Option.bind_eq_bind, Option.bind_eq_some_iff]
  refine exists_congr fun keys => and_congr_right fun _ => ?_
  show (if number < 2 ^ 48 then some _ else none) = some b ↔ _
  rw [Option.ite_none_right_eq_some, Option.some.injEq]
  exact and_congr_right fun _ => eq_comm

/-- The same commitment has the same parameters, but for the order of its HTLCs. -/
theorem Content.Agree.params {c d : Content} (h : Content.Agree c d) (t : Setting) (number : Nat)
    (keys : TxCreationKeys) :
    t.params number keys c = { t.params number keys d with htlcs := c.htlcs } := by
  simp only [Setting.params, h.feerate, h.balances]

/-- The same commitment is the same transaction. -/
theorem Content.Agree.commitment {C : Crypto} {t : Setting} {number : Nat} {point : PublicKey}
    {c d : Content} {b b' : BuiltCommitmentTx} (h : Content.Agree c d)
    (hc : t.commitment C number point c = some b) (hd : t.commitment C number point d = some b') :
    b.tx = b'.tx ∧ b.txid = b'.txid := by
  obtain ⟨keys, hkeys, -, rfl⟩ := Setting.commitment_eq_some.1 hc
  obtain ⟨_, hkeys', -, rfl⟩ := Setting.commitment_eq_some.1 hd
  obtain rfl := Option.some.inj (hkeys.symm.trans hkeys')
  have htx : (t.params number keys c).tx C = (t.params number keys d).tx C := by
    rw [h.params]
    exact CommitmentTxParams.tx_perm C h.htlcs
  exact ⟨htx, congrArg (·.txid C) htx⟩

namespace Ledger

variable {L : Ledger}

/-- The HTLCs of side `m` in one side's commitment. -/
theorem live_eq (h : Wf L) (s m : Bool) :
    ((L.entries.filter fun e => (L.phase e s).included && decide (e.outbound = m)).map Entry.toOffer) =
      Update.live ((L.log m).take (L.cut s m)) ((L.log !m).take (L.cut s !m)) := by
  have hoff := h.offers m
  rw [Update.live, Update.offers_take, ← hoff, List.filter_filter, List.filter_map, List.filter_filter]
  refine congrArg (List.map _) (List.filter_congr fun e he => ?_)
  by_cases hm : e.outbound = m
  · have hinc := included_iff h he s
    rw [(h.entry e he).recorded, hm] at hinc
    rw [Bool.eq_iff_iff]
    simp only [hm, decide_true, Bool.and_true, hinc, Function.comp_apply, Update.removalOf_take,
      Bool.and_eq_true, decide_eq_true_eq]
    cases Update.removalOf (L.log !m) e.id with
    | none => simp
    | some x => simp [and_comm, Option.filter]
  · simp [hm]

/-- What a commitment of side `s` includes. -/
theorem outputs_perm (h : Wf L) (s : Bool) :
    ((L.entries.filter fun e => (L.phase e s).included).map fun e =>
        (L.toHtlc e).inCommitment s).Perm
      ((Update.live ((L.log s).take (L.cut s s)) ((L.log !s).take (L.cut s !s))).map (·.output true) ++
        (Update.live ((L.log !s).take (L.cut s !s)) ((L.log s).take (L.cut s s))).map
          (·.output false)) := by
  have hout : ∀ m, (Update.live ((L.log m).take (L.cut s m)) ((L.log !m).take (L.cut s !m))).map
      (·.output (m == s)) = ((L.entries.filter fun e => (L.phase e s).included).filter
        (·.outbound = m)).map fun e => (L.toHtlc e).inCommitment s := by
    intro m
    rw [← live_eq h, List.map_map, List.filter_filter]
    have hcomm : ∀ e : Entry, (decide (e.outbound = m) && (L.phase e s).included) =
        ((L.phase e s).included && decide (e.outbound = m)) := fun _ => Bool.and_comm ..
    simp only [hcomm]
    refine List.map_congr_left fun e he => ?_
    have hm : e.outbound = m := by
      have hboth := (List.mem_filter.1 he).2
      simp only [Bool.and_eq_true, decide_eq_true_eq] at hboth
      exact hboth.2
    subst hm
    cases s <;> cases ho : e.outbound <;> simp [Offer.output, Htlc.inCommitment, toHtlc, ho]
  have hs := hout s
  have hns := hout !s
  rw [beq_self_eq_true] at hs
  rw [Bool.not_not, show ((!s) == s) = false by simp] at hns
  rw [hs, hns, ← List.map_append]
  refine List.Perm.map _ (List.Perm.trans (List.filter_append_perm (fun e : Entry =>
    decide (e.outbound = s)) _).symm (List.Perm.append_left _ (List.Perm.of_eq ?_)))
  refine List.filter_congr fun e _ => ?_
  cases s <;> cases e.outbound <;> rfl

/-- Shares over the HTLCs of one side. -/
theorem sum_offers (h : Wf L) (m : Bool) {f : Entry → Int} {g : Offer → Int}
    (hfg : ∀ e ∈ L.entries, e.outbound = m → f e = g e.toOffer) :
    ((L.entries.filter fun e => decide (e.outbound = m)).map f).sum =
      ((Update.offers (L.log m)).map g).sum := by
  rw [← h.offers m, List.map_map]
  congr 1
  refine List.map_congr_left fun e he => ?_
  obtain ⟨hmem, hm⟩ := List.mem_filter.1 he
  exact hfg e hmem (of_decide_eq_true hm)

/-- All shares, from the logs. -/
theorem sum_share (h : Wf L) (m : Bool) {n k : Nat} (hk : L.settled (!m) ≤ k) :
    (L.entries.map fun e => e.share m n n k).sum =
      Update.net ((L.log m).take n) ((L.log !m).take k) := by
  have hsplit := sum_filter_add (fun e : Entry => decide (e.outbound = m))
    (fun e => e.share m n n k) L.entries
  have hother : (L.entries.filter fun e => !decide (e.outbound = m)) =
      L.entries.filter fun e => decide (e.outbound = !m) :=
    List.filter_congr fun e _ => by cases m <;> cases e.outbound <;> rfl
  rw [hother] at hsplit
  rw [← hsplit, Update.net]
  congr 1
  · rw [sum_offers h m (g := fun o => if decide (o.addAt < n) then
        if (Update.removalOf ((L.log !m).take k) o.id).any (!·.2.isFulfill) then 0
        else -(o.amountMsat : Int) else 0), Update.offers_take, sum_filter]
    intro e he hm
    have hrec := (h.entry e he).recorded
    rw [hm] at hrec
    simp only [Entry.share, hm, if_true, Entry.failedBefore, hrec, Update.removalOf_take]
    by_cases ha : e.addAt < n
    · cases Update.removalOf (L.log !m) e.id with
      | none => simp [ha]
      | some x => by_cases hx : x.1 < k <;> cases hf : x.2.isFulfill <;> simp [ha, hx, hf, Option.filter]
    · simp [ha]
  · rw [sum_offers h (!m) (g := fun o => if decide (o.addAt < k) then
        if (Update.removalOf ((L.log m).take n) o.id).any (·.2.isFulfill) then
          (o.amountMsat : Int) else 0 else 0), Update.offers_take, sum_filter]
    intro e he hm
    have hwf := h.entry e he
    have hrec := hwf.recorded
    rw [hm, Bool.not_not] at hrec
    have hne : e.outbound ≠ m := by simp [hm]
    simp only [Entry.share, hne, if_false, Entry.fulfilledBefore, Update.removalOf_take, ← hrec]
    by_cases hnone : e.removal = none
    · simp [hnone]
    · obtain ⟨x, hrem⟩ := Option.ne_none_iff_exists'.1 hnone
      -- What was removed was locked before.
      have hlock : e.addAt < k := by
        have hset := (hwf.removed x.1 x.2 hrem).2
        rw [hm] at hset
        omega
      by_cases hx : x.1 < n <;> simp [hrem, hlock, hx, Option.filter]

end Ledger

/-- How far a log has come into the next commitment of side `s`. -/
def Ledger.front (L : Ledger) (s m : Bool) : List Update := (L.log m).take (L.cut s m)

@[simp] theorem Ledger.front_self (L : Ledger) (s : Bool) :
    L.front s s = (L.log s).take (L.acked s) := by simp [Ledger.front, Ledger.cut]

@[simp] theorem Ledger.front_not (L : Ledger) (s : Bool) : L.front s (!s) = L.log !s := by
  simp [Ledger.front, Ledger.cut]

namespace Channel

variable {C : Crypto} {g : Genesis} {L : Ledger} {ch ch' : Channel}

/-- What the next commitment of side `s` would hold. -/
def contentOf (ch : Channel) (s : Bool) : Content :=
  ⟨if s then ch.feerateHolder else ch.feerateCounterparty, (ch.balance s !s, ch.balance s s),
    ch.commitmentHtlcs s⟩

theorem contentOf_false (ch : Channel) : ch.contentOf false = ch.nextContent := rfl

/-- The feerates follow the opener's log. -/
structure Rates (g : Genesis) (L : Ledger) (ch : Channel) : Prop where
  next : ∀ s, (ch.contentOf s).feerate = Update.lastFee (L.front s ch.opener) g.feerate
  opens : ch.opener = true → ch.pendingFeeAck = none ∧
    (ch.awaitingRaa = true → ∀ pending, ch.pendingCounterpartyCommitment = some pending →
      pending.feeUpdate.getD ch.feerateHolder = ch.feerateCounterparty)
  accepts : ch.opener = false → ch.pendingFeeAck.getD ch.feerateCounterparty = ch.feerateHolder ∧
    (ch.awaitingRaa = true → ∀ pending, ch.pendingCounterpartyCommitment = some pending →
      pending.feeUpdate = none)

/-- The setting of our commitments or the peer's, whose keys are `cp`. -/
def settingWith (ch : Channel) (cp : ChannelPublicKeys) (funding : OutPoint) (s : Bool) : Setting where
  funding := funding
  obscureFactor := ch.obscureFactor
  broadcasterPaysFee := ch.role = if s then .opener else .accepter
  dustLimitSat := if s then ch.params.holderDustLimitSat else ch.params.counterpartyDustLimitSat
  toSelfDelay := if s then ch.params.counterpartySelectedDelay else ch.params.holderSelectedDelay
  broadcaster := if s then ch.holderPubkeys else cp
  countersignatory := if s then cp else ch.holderPubkeys

def setting (ch : Channel) (s : Bool) : Option Setting := do
  return ch.settingWith (← ch.counterpartyPubkeys) (← ch.fundingOutpoint) s

/-- The transaction of a commitment in this setting. -/
def Renders (C : Crypto) (setting : Option Setting) (number : Nat) (point : PublicKey) (c : Content)
    (b : BuiltCommitmentTx) : Prop :=
  ∃ t, setting = some t ∧ t.commitment C number point c = some b

theorem holder_renders {number : Nat} {b : Built} (h : ch.buildHolderCommitmentAt C number = .ok b) :
    b.htlcs = ch.commitmentHtlcs true ∧ Renders C (ch.setting true) number (ch.signer.perCommitmentPoint number)
      (ch.contentOf true) b.built := by
  simp only [buildHolderCommitmentAt, Channel.counterparty, Fault.bind_eq_ok, Fault.okOr_eq_ok,
    Fault.expect_eq_ok, pure, Except.pure, Except.ok.injEq] at h
  obtain ⟨cp, hcp, keys, hkeys, funding, hfunding, built, hbuilt, rfl⟩ := h
  refine ⟨rfl, ch.settingWith cp funding true, by simp [setting, hcp, hfunding], ?_⟩
  simp only [Setting.commitment, Setting.params, settingWith, if_true, hkeys]
  exact hbuilt

/-- The holder's commitment can be built from its setting. -/
theorem buildHolderCommitmentAt_eq {number : Nat} {t : Setting} {keys : TxCreationKeys}
    (ht : ch.setting true = some t) (hkeys : TxCreationKeys.derive C (ch.signer.perCommitmentPoint number)
      t.broadcaster t.countersignatory = some keys) (hn : number < 2 ^ 48) :
    ch.buildHolderCommitmentAt C number = .ok ⟨(t.params number keys (ch.contentOf true)).assemble C, keys,
      ch.commitmentHtlcs true⟩ := by
  simp only [setting, Option.bind_eq_bind, Option.bind_eq_some_iff, Option.pure_def,
    Option.some.injEq] at ht
  obtain ⟨cp, hcp, funding, hfunding, rfl⟩ := ht
  simp only [settingWith, if_true] at hkeys
  simp only [buildHolderCommitmentAt, Channel.counterparty, Fault.bind_eq_ok, Fault.okOr_eq_ok,
    Fault.expect_eq_ok, pure, Except.pure]
  exact ⟨cp, hcp, keys, hkeys, funding, hfunding, _, if_pos hn, rfl⟩

theorem counterparty_renders {number : Nat} {point : PublicKey} {b : Built}
    (h : ch.buildCounterpartyCommitmentAt C number point = .ok b) :
    Renders C (ch.setting false) number point (ch.contentOf false) b.built := by
  simp only [buildCounterpartyCommitmentAt, Channel.counterparty, Fault.bind_eq_ok, Fault.okOr_eq_ok,
    Fault.expect_eq_ok, pure, Except.pure, Except.ok.injEq] at h
  obtain ⟨cp, hcp, keys, hkeys, funding, hfunding, built, hbuilt, rfl⟩ := h
  refine ⟨ch.settingWith cp funding false, by simp [setting, hcp, hfunding], ?_⟩
  simp only [Setting.commitment, Setting.params, settingWith, Bool.false_eq_true, if_false, hkeys]
  exact hbuilt

/-- A commitment of the signer's own holds `c`. -/
structure Holds (C : Crypto) (setting : Option Setting) (signer : ChannelSigner)
    (hc : HolderCommitment) (c : Content) : Prop where
  feerate : hc.feerate = c.feerate
  htlcs : hc.htlcs = c.htlcs
  built : Renders C setting hc.number (signer.perCommitmentPoint hc.number) c hc.built

/-- The transaction of a commitment of the peer's is the one of its content. -/
def Depicts (C : Crypto) (setting : Option Setting) (info : CounterpartyCommitmentInfo) : Prop :=
  ∃ b, Renders C setting info.number info.perCommitmentPoint info.content b ∧ b.txid = info.txid

theorem depicts_of_built {number : Nat} {point : PublicKey} {b : Built}
    (h : ch.buildCounterpartyCommitmentAt C number point = .ok b) :
    Depicts C (ch.setting false) (ch.counterpartyInfoFromBuilt number point b.built b.htlcs) := by
  refine ⟨b.built, ?_, rfl⟩
  rw [content_of_built h, ← contentOf_false]
  exact counterparty_renders h

/-- The commitment that may be broadcast, the peer's on record and the one in flight. -/
structure Records (C : Crypto) (g : Genesis) (L : Ledger) (ch : Channel) : Prop where
  held : ∃ hc c, ch.currentHolderCommitment = some hc ∧ hc.number = ch.holderCommitmentNumber ∧
    Holds C (ch.setting true) ch.signer hc c ∧
    Content.Of g ch.opener ((L.log true).take (L.settled true)) ((L.log false).take (L.acked false)) c
  current : ∃ info, ch.currentCounterpartyCommitment = some info ∧
    info.number = ch.counterpartyCommitmentNumber ∧ Depicts C (ch.setting false) info ∧
    Content.Of g (!ch.opener) ((L.log false).take (L.settled false))
      ((L.log true).take (L.acked true)) info.content
  pending : ch.awaitingRaa = true → ∃ pending, ch.pendingCounterpartyCommitment = some pending ∧
    pending.info.number = ch.counterpartyCommitmentNumber + 1 ∧ Depicts C (ch.setting false) pending.info ∧
    Content.Of g (!ch.opener) ((L.log false).take L.signed) (L.log true) pending.info.content

/-- A channel after its opening, with its ledger. -/
structure InOrder (C : Crypto) (g : Genesis) (L : Ledger) (ch : Channel) : Prop where
  opened : 2 ≤ ch.state.rank
  shape : Shape L ch
  funds : Funds (fun m => g.initial (ch.opener == m)) L ch
  rates : Rates g L ch
  records : Records C g L ch

/-- The next commitments hold what the logs say. -/
theorem InOrder.content (h : InOrder C g L ch) (s : Bool) :
    Content.Of g (ch.opener == s) (L.front s s) (L.front s !s) (ch.contentOf s) where
  feerate := by
    rw [h.rates.next s]
    cases ch.opener <;> cases s <;> rfl
  owner := by
    have hle := Nat.le_trans (h.shape.wf.settled_le !s) (Ledger.acked_le_cut h.shape.wf s !s)
    rw [Ledger.front, Ledger.front, ← Ledger.sum_share h.shape.wf s hle]
    exact h.funds.balance_eq h.shape s s
  other := by
    have hle := Nat.le_trans (h.shape.wf.settled_le s) (Ledger.acked_le_cut h.shape.wf s s)
    have hsum := Ledger.sum_share h.shape.wf (!s) (n := L.cut s !s) (k := L.cut s s) (by simpa using hle)
    have hbal := h.funds.balance_eq h.shape s !s
    rw [Bool.not_not] at hsum hbal
    rw [Ledger.front, Ledger.front, ← hsum]
    refine hbal.trans (congrArg (· + _) ?_)
    cases ch.opener <;> cases s <;> rfl
  htlcs := by
    show (ch.commitmentHtlcs s).Perm _
    rw [h.shape.commitmentHtlcs]
    exact Ledger.outputs_perm h.shape.wf s

end Channel
