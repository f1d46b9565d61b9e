import Keraunos.Channel.Proof.Mail

/-!
# What two honest channels agree on

At every moment of a run of honest owners the commitment an end can broadcast is the one the other has
on record, with the same transaction (`record_agrees`). An HTLC that was handed over is in both
commitments until it is resolved (`delivered_committed`), and one that its offerer has dropped is known
to neither (`dropped_gone`). When nothing is left to sign, both ends see the same channel (`at_rest`).
-/

open Bitcoin Commitment Lockstep

namespace Channel

/-- `info` is the commitment of the peer on record, or the one it was sent last. -/
def OnRecord (ch : Channel) (info : CounterpartyCommitmentInfo) : Prop :=
  ch.currentCounterpartyCommitment = some info ∨
    ch.awaitingRaa = true ∧ ∃ pending, ch.pendingCounterpartyCommitment = some pending ∧ pending.info = info

/-- A commitment on record is for the point of its number. -/
theorem OnRecord.point {C : Crypto} {g : Genesis} {L : Ledger} {signer : ChannelSigner} {ch : Channel}
    {info : CounterpartyCommitmentInfo} (h : ch.OnRecord info) (hk : InOrder C g L ch)
    (hn : Knows signer ch) : info.perCommitmentPoint = signer.perCommitmentPoint info.number := by
  rcases h with hcur | ⟨ha, pending, hp, rfl⟩
  · obtain ⟨info', hcur', hnum, -⟩ := hk.records.current
    obtain rfl := Option.some.inj (hcur.symm.trans hcur')
    rw [hnum]
    exact hn.record info hcur
  · obtain ⟨pending', hp', hnum, -⟩ := hk.records.pending ha
    obtain rfl := Option.some.inj (hp.symm.trans hp')
    rw [hnum]
    exact hn.pending ha pending hp

end Channel

/-- The front of a log and of one that it starts. -/
theorem List.IsPrefix.take_eq {α : Type} {xs ys : List α} (h : xs <+: ys) {k : Nat}
    (hk : k ≤ xs.length) : xs.take k = ys.take k := by
  obtain ⟨zs, rfl⟩ := h
  exact (List.take_append_of_le_length hk).symm

/-- An HTLC that was added before `n` and not removed before `k` is live. -/
theorem Ledger.Wf.mem_live {L : Ledger} (h : L.Wf) {e : Entry} (he : e ∈ L.entries) {n k : Nat}
    (hadd : e.addAt < n) (hrem : e.removal = none) :
    e.toOffer ∈ Update.live ((L.log e.outbound).take n) ((L.log !e.outbound).take k) := by
  have hrec := (h.entry e he).recorded
  rw [hrem] at hrec
  refine List.mem_filter.2 ⟨?_, ?_⟩
  · rw [Update.offers_take, ← h.offers e.outbound]
    exact List.mem_filter.2 ⟨List.mem_map_of_mem (List.mem_filter.2 ⟨he, by simp⟩), by simpa using hadd⟩
  · rw [Update.removalOf_take, ← hrec]
    rfl

/-- The payment of the concrete run is made: neither end keeps an HTLC or has anything to sign. -/
theorem Demo.paid_run : ∃ a b tr p, Channel.Opened C (tabledSigner 1) (tabledSigner 2) a b ∧
    Run.Within (Pair.play C) (Pair.Honest C) ⟨a, b, [], []⟩ tr p ∧
    (p.chan .a).nextHolderHtlcId = 1 ∧ (p.chan .a).htlcs = [] ∧ (p.chan .b).htlcs = [] ∧
    ((p.chan .a).awaitingRaa = false ∧ (p.chan .a).counterpartyDirty = false) ∧
    ((p.chan .b).awaitingRaa = false ∧ (p.chan .b).counterpartyDirty = false) ∧
    (p.chan .b).balancesFor true = (5000000, 995000000) :=
  honest_run C (honestPayment ++ honestFulfilment) _ (by decide +kernel)

namespace Pair

variable {C : Crypto} {g : Genesis} {L : Side → Ledger} {p p₀ : Pair}

section
variable (h : Coupled C g L p) (s : Side)
include h

/-- What the other end heard of our updates. -/
theorem Coupled.ours_take {k : Nat} (hk : k ≤ ((L s.other).log false).length) :
    ((L s.other).log false).take k = ((L s).log true).take k :=
  (h.joint s).heard.take_eq hk

theorem Coupled.theirs_take {k : Nat} (hk : k ≤ ((L s).log false).length) :
    ((L s.other).log true).take k = ((L s).log false).take k :=
  ((h.joint s).symm.heard.take_eq hk).symm

theorem Coupled.opener_other : (p.chan s.other).opener = !(p.chan s).opener := by
  rw [h.opener, h.opener]
  cases s <;> rfl

end

/-- The commitment of the one end is the one on record with the other. -/
theorem Coupled.record (h : Coupled C g L p) (s : Side) : ∃ hc c info,
    (p.chan s.other).currentHolderCommitment = some hc ∧ (p.chan s).OnRecord info ∧
    hc.number = info.number ∧
    Channel.Holds C ((p.chan s.other).setting true) (p.chan s.other).signer hc c ∧
    Channel.Depicts C ((p.chan s).setting false) info ∧ Content.Agree c info.content := by
  have hs := h.inOrder s
  have hr := h.inOrder s.other
  obtain ⟨hc, c, hcur, hnum, hholds, hof⟩ := hr.records.held
  rw [h.opener_other s, h.ours_take s (hr.shape.wf.acked_le false)] at hof
  rcases (h.joint s).record with ⟨hack, hset, hnumber⟩ | ⟨ha, hack, hsig, hnumber⟩
  · obtain ⟨info, hinfo, hinum, hdesc, hof'⟩ := hs.records.current
    have hack' : (L s).acked true = (L s.other).acked false := hack
    have hset' : (L s).settled false = (L s.other).settled true := hset
    have hle := Nat.le_trans (hs.shape.wf.settled_le false) (hs.shape.wf.acked_le false)
    rw [← hack', ← hset', h.theirs_take s hle] at hof
    exact ⟨hc, c, info, hcur, .inl hinfo, hnum.trans (hnumber.trans hinum.symm), hholds, hdesc,
      hof.agree hof'⟩
  · obtain ⟨pending, hp, hpnum, hdesc, hof'⟩ := hs.records.pending ha
    have hack' : (L s.other).acked false = ((L s).log true).length := hack
    have hsig' : (L s).signed = (L s.other).settled true := hsig
    have hle := Nat.le_trans hs.shape.wf.signed_le (hs.shape.wf.acked_le false)
    rw [hack', List.take_length, ← hsig', h.theirs_take s hle] at hof
    exact ⟨hc, c, pending.info, hcur, .inr ⟨ha, pending, hp, rfl⟩,
      hnum.trans (hnumber.trans hpnum.symm), hholds, hdesc, hof.agree hof'⟩

/-- In every run of honest owners each end has on record, or as the commitment it sent last, the very
transaction that the other could broadcast: the same number, feerate and HTLCs, and the same txid. -/
theorem record_agrees {tr : Trace Event ChannelError (List Wire.Message)} (h₀ : Opening C p₀)
    (hr : Run.Within (play C) (Honest C) p₀ tr p) (s : Side) : ∃ hc info,
    (p.chan s.other).currentHolderCommitment = some hc ∧ (p.chan s).OnRecord info ∧
    info.number = hc.number ∧ info.txid = hc.built.txid ∧ info.feerate = hc.feerate ∧
    (info.htlcs.map Prod.fst).Perm hc.htlcs := by
  obtain ⟨⟨g, L, hc⟩, ha⟩ := acquainted_of_run h₀ hr
  obtain ⟨hc', c, info, hcur, hrec, hnum, hholds, ⟨b, ⟨t, ht, hb⟩, htxid⟩, hagree⟩ := hc.record s
  refine ⟨hc', info, hcur, hrec, hnum.symm, ?_, ?_, ?_⟩
  · obtain ⟨t', ht', hb'⟩ := hholds.built
    have hpoint := hrec.point (hc.inOrder s) (ha.knows s)
    have hset := ha.setting s.other
    rw [Side.other_other, ht, ht'] at hset
    obtain rfl := Option.some.inj hset
    rw [hpoint, ← hnum] at hb
    exact htxid ▸ (hagree.commitment hb' hb).2.symm
  · exact (hholds.feerate.trans hagree.feerate).symm
  · rw [hholds.htlcs]
    exact hagree.htlcs.symm

/-- Before `b` signs: `a` sent the commitment with its HTLC, and `b` can broadcast that one. -/
theorem record_agrees_demo : ∃ p : Pair, (p.chan .a).awaitingRaa = true ∧
    ∃ hc info, (p.chan .b).currentHolderCommitment = some hc ∧ hc.htlcs ≠ [] ∧
      (p.chan .a).OnRecord info ∧ info.txid = hc.built.txid := by
  obtain ⟨a, b, tr, p, ho, hr, hraa, hany⟩ := Demo.honest_run Demo.C (Demo.honestPayment.take 8)
    (fun p => (p.chan .a).awaitingRaa = true ∧
      (p.chan .b).currentHolderCommitment.any (fun hc => !hc.htlcs.isEmpty) = true) (by decide +kernel)
  obtain ⟨hc, info, hcur, hrec, -, htxid, -⟩ := record_agrees (.intro ho) hr .a
  refine ⟨p, hraa, hc, info, hcur, ?_, hrec, htxid⟩
  rw [show (p.chan .b).currentHolderCommitment = some hc from hcur] at hany
  simpa using hany

/-! ## HTLCs -/

/-- How far the own updates of the other end have come into its commitment, as we see it. -/
theorem Coupled.settled_other (h : Coupled C g L p) (s : Side) :
    (L s).settled false ≤ (L s.other).settled true ∧
      (L s.other).settled true ≤ ((L s).log false).length := by
  have hwf := (h.inOrder s).shape.wf
  have hle := Nat.le_trans hwf.signed_le (hwf.acked_le false)
  refine ⟨(h.joint s).settled_le hwf.le_signed, ?_⟩
  rcases (h.joint s).record with ⟨-, hset, -⟩ | ⟨-, -, hsig, -⟩
  · exact Nat.le_trans (Nat.le_of_eq hset.symm) (Nat.le_trans hwf.le_signed hle)
  · exact Nat.le_trans (Nat.le_of_eq hsig.symm) hle

/-- The peer's HTLC that was handed over to be forwarded or claimed, as long as we have not resolved it,
is in the commitment that we can broadcast and in the one that the peer can. -/
theorem delivered_committed {tr : Trace Event ChannelError (List Wire.Message)} (h₀ : Opening C p₀)
    (hr : Run.Within (play C) (Honest C) p₀ tr p) (s : Side) {x : Htlc} (hx : x ∈ (p.chan s).htlcs)
    (hdone : x.processed = true) (hres : x.resolution = none) :
    (∃ hc, (p.chan s).currentHolderCommitment = some hc ∧ x.inCommitment true ∈ hc.htlcs) ∧
    ∃ hc, (p.chan s.other).currentHolderCommitment = some hc ∧ x.inCommitment false ∈ hc.htlcs := by
  obtain ⟨⟨g, L, h⟩, -⟩ := acquainted_of_run h₀ hr
  have hs := h.inOrder s
  have ho := h.inOrder s.other
  have hwf := hs.shape.wf
  rw [hs.shape.htlcs] at hx
  obtain ⟨e, he, -, rfl⟩ := Ledger.mem_htlcs.1 hx
  have hrem : e.removal = none := Option.map_eq_none_iff.1 hres
  obtain ⟨hin, hadd⟩ : e.outbound = false ∧ e.addAt < (L s).settled false := by
    simpa [Ledger.toHtlc] using hdone
  have hlive : ∀ n k, e.addAt < n →
      e.toOffer ∈ Update.live (((L s).log false).take n) (((L s).log true).take k) := by
    intro n k hn
    have hmem := hwf.mem_live he (k := k) hn hrem
    rwa [hin] at hmem
  constructor
  · obtain ⟨hc, c, hcur, -, hholds, hof⟩ := hs.records.held
    refine ⟨hc, hcur, ?_⟩
    rw [hholds.htlcs, hof.htlcs.mem_iff]
    have hmem := hlive _ ((L s).settled true) (Nat.lt_of_lt_of_le hadd (hwf.settled_le false))
    refine List.mem_append_right _ (List.mem_map.2 ⟨e.toOffer, hmem, ?_⟩)
    simp [Offer.output, Htlc.inCommitment, Ledger.toHtlc, hin]
  · obtain ⟨hc, c, hcur, -, hholds, hof⟩ := ho.records.held
    obtain ⟨hle, hlen⟩ := h.settled_other s
    rw [h.theirs_take s hlen, h.ours_take s (ho.shape.wf.acked_le false)] at hof
    refine ⟨hc, hcur, ?_⟩
    rw [hholds.htlcs, hof.htlcs.mem_iff]
    have hmem := hlive _ ((L s.other).acked false) (Nat.lt_of_lt_of_le hadd hle)
    refine List.mem_append_left _ (List.mem_map.2 ⟨e.toOffer, hmem, ?_⟩)
    simp [Offer.output, Htlc.inCommitment, Ledger.toHtlc, hin]

/-- A payment that `b` was handed. -/
theorem delivered_committed_demo : ∃ (p : Pair) (x : Htlc), x ∈ (p.chan .b).htlcs ∧ x.processed = true ∧
    ∃ hc, (p.chan .a).currentHolderCommitment = some hc ∧ x.inCommitment false ∈ hc.htlcs := by
  obtain ⟨a, b, tr, p, ho, hr, hany⟩ := Demo.honest_run Demo.C Demo.honestPayment
    (fun p => (p.chan .b).htlcs.any (fun x => x.processed && x.resolution.isNone) = true)
    (by decide +kernel)
  obtain ⟨x, hx, hdone⟩ := List.any_eq_true.1 hany
  simp only [Bool.and_eq_true, Option.isNone_iff_eq_none] at hdone
  exact ⟨p, x, hx, hdone.1, (delivered_committed (.intro ho) hr .b hx hdone.1 hdone.2).2⟩

/-- When the offerer drops an HTLC its recipient has dropped it before. -/
theorem dropped_gone {tr : Trace Event ChannelError (List Wire.Message)} (h₀ : Opening C p₀)
    (hr : Run.Within (play C) (Honest C) p₀ tr p) (s : Side) {id : HtlcId}
    (hid : id < (p.chan s).nextHolderHtlcId)
    (hdrop : ∀ x ∈ (p.chan s).htlcs, x.outbound = true → x.id ≠ id) :
    ∀ y ∈ (p.chan s.other).htlcs, y.outbound = false → y.id ≠ id := by
  obtain ⟨⟨g, L, h⟩, -⟩ := acquainted_of_run h₀ hr
  have hs := h.inOrder s
  have ho := h.inOrder s.other
  -- The entry of the offerer was baked.
  have hmem : id ∈ (Update.offers ((L s).log true)).map (·.id) := by
    rw [hs.shape.ids true]
    exact List.mem_range.2 hid
  rw [← hs.shape.wf.offers true, List.map_map] at hmem
  obtain ⟨e, he, rfl⟩ := List.mem_map.1 hmem
  obtain ⟨he, hout⟩ := List.mem_filter.1 he
  have hout : e.outbound = true := of_decide_eq_true hout
  have hbaked : (L s).baked e = true := by
    by_contra hno
    refine hdrop ((L s).toHtlc e) ?_ hout rfl
    rw [hs.shape.htlcs]
    exact Ledger.mem_htlcs.2 ⟨e, he, by simpa using hno, rfl⟩
  obtain ⟨⟨j, r⟩, hrem, hj⟩ := Option.any_eq_true _ _ |>.1 hbaked
  have hrec := (hs.shape.wf.entry e he).recorded
  rw [hrem, hout] at hrec
  rw [hout] at hj
  -- The recipient removed it in the same place.
  intro y hy hyout hyid
  rw [ho.shape.htlcs] at hy
  obtain ⟨e', he', hkept, rfl⟩ := Ledger.mem_htlcs.1 hy
  have hout' : e'.outbound = false := hyout
  have hid' : e'.id = e.id := hyid
  have hrec' := (ho.shape.wf.entry e' he').recorded
  rw [hout', hid', Bool.not_false] at hrec'
  have hfront := h.theirs_take s (Nat.le_refl _)
  rw [List.take_length] at hfront
  have hboth := Update.removalOf_take ((L s.other).log true) ((L s).log false).length e.id
  rw [hfront, ← hrec'] at hboth
  have hsome : e'.removal = some (j, r) := by
    have heq := hboth.symm.trans hrec.symm
    obtain ⟨hx, -⟩ := Option.filter_eq_some_iff.1 heq
    exact hx
  have hlt : j < (L s.other).settled true := by
    have hle := (h.settled_other s).1
    have hj' : j < (L s).settled false := by simpa using hj
    omega
  simp [Ledger.baked, hout', hsome, hlt] at hkept

/-- A payment that was made. -/
theorem dropped_gone_demo : ∃ p : Pair, (p.chan .a).nextHolderHtlcId = 1 ∧ (p.chan .a).htlcs = [] ∧
    ∀ y ∈ (p.chan .b).htlcs, y.outbound = false → y.id ≠ 0 := by
  obtain ⟨a, b, tr, p, ho, hr, hid, hnone, -⟩ := Demo.paid_run
  refine ⟨p, hid, hnone, dropped_gone (.intro ho) hr .a (by rw [hid]; exact Nat.zero_lt_one) ?_⟩
  rw [hnone]
  intro x hx
  cases hx

/-! ## At rest -/

/-- Once neither end waits for a revocation or has anything to sign, no update, signature or revocation
is under way, and each end's next commitment is the one the other would sign: the same feerate, HTLCs
and balances, with numbers and HTLC ids to match. -/
theorem at_rest {tr : Trace Event ChannelError (List Wire.Message)} (h₀ : Opening C p₀)
    (hr : Run.Within (play C) (Honest C) p₀ tr p)
    (hq : ∀ s, (p.chan s).awaitingRaa = false ∧ (p.chan s).counterpartyDirty = false) (s : Side) :
    (∀ m ∈ p.inbox s, m.beat? = none) ∧
    Content.Agree ((p.chan s).contentOf true) ((p.chan s.other).contentOf false) ∧
    (p.chan s).holderCommitmentNumber = (p.chan s.other).counterpartyCommitmentNumber ∧
    (p.chan s).nextHolderHtlcId = (p.chan s.other).nextCounterpartyHtlcId ∧
    ((p.chan s).htlcs = [] → (p.chan s.other).htlcs = [] →
      (p.chan s).balancesFor true = ((p.chan s.other).balancesFor true).swap) := by
  obtain ⟨⟨g, L, h⟩, -⟩ := acquainted_of_run h₀ hr
  have hs := h.inOrder s
  have ho := h.inOrder s.other
  have hj := h.joint s
  have hours := hj.rest (hq s).1 (hq s).2 (hq s.other).1
  have htheirs := hj.symm.rest (hq s.other).1 (hq s.other).2 (hq s).1
  have hlog : (L s).log true = (L s.other).log false := hours.log
  have hlog' : (L s.other).log true = (L s).log false := htheirs.log
  have hack : (L s).acked true = (L s.other).acked false := hours.acked
  have hagree : Content.Agree ((p.chan s).contentOf true) ((p.chan s.other).contentOf false) := by
    have hown := hs.content true
    have hother := ho.content false
    rw [h.opener_other s, Ledger.front_self, Ledger.front_not, ← hlog, ← hack, Bool.not_false, hlog'] at hother
    rw [Ledger.front_self, Ledger.front_not, Bool.not_true] at hown
    refine hown.agree ?_
    cases hop : (p.chan s).opener <;> simpa [hop] using hother
  refine ⟨fun m hm => ?_, hagree, htheirs.number, ?_, fun hnone hnone' => ?_⟩
  · cases hb : m.beat? with
    | none => rfl
    | some b =>
      have hmem := Channel.mem_beats hm hb
      rw [htheirs.empty] at hmem
      cases hmem
  · have hids := hs.shape.ids true
    rw [hlog, ho.shape.ids false] at hids
    have hlen := congrArg List.length hids
    simpa [Channel.nextId] using hlen.symm
  · have hbal := hagree.balances
    obtain ⟨h1, h2⟩ := Prod.mk.inj hbal
    simp only [Channel.balance, Channel.balancesFor, hnone, hnone', List.foldl_nil] at h1 h2 ⊢
    exact Prod.ext (by simpa using h2) (by simpa using h1)

/-- After the payment the balances mirror each other. -/
theorem at_rest_demo : ∃ p : Pair, (p.chan .b).balancesFor true = (995000000, 5000000).swap ∧
    (p.chan .a).balancesFor true = ((p.chan .b).balancesFor true).swap := by
  obtain ⟨a, b, tr, p, ho, hr, -, hnone, hnone', hq, hqb, hbal⟩ := Demo.paid_run
  refine ⟨p, hbal, (at_rest (.intro ho) hr ?_ .a).2.2.2.2 hnone hnone'⟩
  rintro (_ | _)
  · exact hq
  · exact hqb

end Pair
