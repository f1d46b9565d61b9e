import Keraunos.Channel.Proof.Balance
import Keraunos.Channel.Proof.Phases

/-!
# What is not signed is remembered

`nextContent` is what the peer's next commitment would hold: its feerate, balances and HTLCs. A
step that changes it sets `counterparty_dirty`, and only a signature clears the flag, so a channel
that is not dirty has signed what it would build (`changes_remembered`). Locking HTLCs and
collecting those that are gone changes nothing in it, because the balances are exact
(`Funds.nextContent_eq`).
-/

open Bitcoin Commitment

/-- What a commitment of the peer holds. -/
structure Content where
  feerate : FeeRatePerKw
  balances : Msat × Msat
  htlcs : List HtlcOutputInCommitment
  deriving DecidableEq

def CounterpartyCommitmentInfo.content (info : CounterpartyCommitmentInfo) : Content :=
  ⟨info.feerate, (info.toHolderMsat, info.toCounterpartyMsat), info.htlcs.map Prod.fst⟩

/-- What a phase means for a commitment. -/
def HtlcPhase.meaning (p : HtlcPhase) : Bool × Bool := (p.included, p.credited)

namespace Htlc

theorem lockIncluded_meaning (h : Htlc) :
    h.lockIncluded.phaseCounterparty.meaning = h.phaseCounterparty.meaning := by
  rw [lockIncluded_phaseCounterparty]
  split
  · next hc => rw [hc]; rfl
  · rfl

theorem lockRemoved_meaning (h : Htlc) :
    h.lockRemoved.phaseCounterparty.meaning = h.phaseCounterparty.meaning := by
  rw [lockRemoved_phaseCounterparty]
  split
  · next hc => rw [hc]; rfl
  · rfl

theorem process_phaseCounterparty (h : Htlc) : h.process.phaseCounterparty = h.phaseCounterparty := by
  unfold process
  split <;> rfl

/-- What an HTLC does to the peer's commitment. -/
def effectOnTheirs (h : Htlc) : (Msat × Msat → Msat × Msat) × Option HtlcOutputInCommitment :=
  (h.applyBalance h.phaseCounterparty,
    if h.phaseCounterparty.included then some (h.inCommitment false) else none)

end Htlc

namespace Channel

variable {C : Crypto} {ch ch' ch₀ : Channel}

/-- What the next commitment of the peer would hold. -/
def nextContent (ch : Channel) : Content :=
  ⟨ch.feerateCounterparty, ch.balancesFor false, ch.commitmentHtlcs false⟩

/-- The commitment that would be built next has this content. -/
theorem content_of_built {number : Nat} {point : PublicKey} {b : Built}
    (hb : ch.buildCounterpartyCommitmentAt C number point = .ok b) :
    (ch.counterpartyInfoFromBuilt number point b.built b.htlcs).content = ch.nextContent := by
  simp only [buildCounterpartyCommitmentAt, Fault.bind_eq_ok, pure, Except.pure,
    Except.ok.injEq] at hb
  obtain ⟨_, -, _, -, _, -, _, -, rfl⟩ := hb
  simp [CounterpartyCommitmentInfo.content, counterpartyInfoFromBuilt, nextContent,
    Function.comp_def]

/-- The content depends on the effects of the HTLCs only. -/
theorem nextContent_congr (hbase : ∀ m, ch'.base m = ch.base m)
    (hfee : ch'.feerateCounterparty = ch.feerateCounterparty)
    (hs : ch'.htlcs.map Htlc.effectOnTheirs = ch.htlcs.map Htlc.effectOnTheirs) :
    ch'.nextContent = ch.nextContent := by
  have hbal : ∀ c : Channel, c.balancesFor false = (c.htlcs.map Htlc.effectOnTheirs).foldl
      (fun bal f => f.1 bal) (c.toHolderMsat, c.toCounterpartyMsat) := by
    intro c
    rw [List.foldl_map]
    rfl
  have hout : ∀ c : Channel, c.commitmentHtlcs false =
      (c.htlcs.map Htlc.effectOnTheirs).filterMap Prod.snd := by
    intro c
    unfold commitmentHtlcs
    induction c.htlcs with
    | nil => rfl
    | cons x xs ih =>
      have hx : x.phase false = x.phaseCounterparty := rfl
      cases hi : x.phaseCounterparty.included <;> simp [Htlc.effectOnTheirs, hi, hx, ← ih]
  have h1 : ch'.toHolderMsat = ch.toHolderMsat := hbase true
  have h2 : ch'.toCounterpartyMsat = ch.toCounterpartyMsat := hbase false
  simp only [nextContent, hbal, hout, hs, hfee, h1, h2]

/-- The peer's add is not on its own commitment yet. -/
theorem nextContent_receive (msg : Wire.UpdateAddHtlc) :
    (ch.receive msg).nextContent = ch.nextContent := by
  simp [nextContent, receive, balancesFor, commitmentHtlcs, Htlc.phase, Htlc.applyBalance,
    HtlcPhase.included, HtlcPhase.credited]

/-- The peer's removal leaves its own commitment alone. -/
theorem nextContent_resolveOutbound {id : HtlcId} {x : Htlc} (r : HtlcResolution)
    (hx : ch.outboundCommitted id = .ok x) :
    (ch.resolveOutbound id r).nextContent = ch.nextContent := by
  obtain ⟨hf, -, -, hc⟩ := outboundCommitted_eq_ok.1 hx
  refine nextContent_congr (fun _ => rfl) rfl ?_
  show (List.mutFirst _ _ ch.htlcs).map _ = _
  refine List.map_mutFirst_of_find? fun a ha => ?_
  obtain rfl : x = a := Option.some.inj (hf.symm.trans ha)
  simp only [Htlc.effectOnTheirs, hc]
  rfl

/-! ## Locks and collection -/

section
variable {L L' : Ledger} {init : Bool → Int}

/-- What is baked is in no commitment. -/
theorem included_of_baked (h : L.Wf) {e : Entry} (hb : L.baked e = true) (s : Bool) :
    (L.phase e s).included = false := by
  have hgone : (L.toHtlc e).isGone = true := (Ledger.toHtlc_isGone h).trans hb
  simp only [Htlc.isGone, Bool.and_eq_true, decide_eq_true_eq] at hgone
  cases s
  · exact congrArg HtlcPhase.included hgone.2
  · exact congrArg HtlcPhase.included hgone.1

/-- The HTLCs of a commitment, from the ledger. -/
theorem Shape.commitmentHtlcs (hS : Shape L ch) (s : Bool) : ch.commitmentHtlcs s =
    (L.entries.filter fun e => (L.phase e s).included).map fun e => (L.toHtlc e).inCommitment s := by
  unfold Channel.commitmentHtlcs
  rw [hS.htlcs, Ledger.htlcs, List.filter_map, List.map_map, List.filter_filter]
  refine congrArg (List.map _) (List.filter_congr fun e _ => ?_)
  simp only [Function.comp_apply, phase_toHtlc]
  cases hb : L.baked e with
  | true => simp [included_of_baked hS.wf hb]
  | false => simp

/-- Phases that move on without changing what they include and credit change no commitment, also
when HTLCs are collected. -/
theorem Funds.nextContent_eq (hS : Shape L ch) (hF : Funds init L ch) (hS' : Shape L' ch')
    (hF' : Funds init L' ch') (hes : L'.entries = L.entries)
    (hset : ∀ m, L.settled m ≤ L'.settled m)
    (hfee : ch'.feerateCounterparty = ch.feerateCounterparty)
    (hph : ∀ e ∈ L.entries, L.baked e = false →
      (L'.phase e false).meaning = (L.phase e false).meaning) :
    ch'.nextContent = ch.nextContent := by
  have hbal : ∀ m, ch'.balance false m = ch.balance false m := by
    intro m
    have hint : (ch'.balance false m : Int) = ch.balance false m := by
      rw [hF.balance_eq hS, hF'.balance_eq hS', hes]
      congr 2
      refine List.map_congr_left fun e he => ?_
      have he' : e ∈ L'.entries := hes ▸ he
      cases hb : L.baked e with
      | true =>
        rw [Ledger.share_of_baked hS.wf he hb,
          Ledger.share_of_baked hS'.wf he' (Ledger.baked_mono hset hb)]
      | false =>
        rw [← Ledger.effect_toHtlc hS.wf he, ← Ledger.effect_toHtlc hS'.wf he']
        obtain ⟨h1, h2⟩ := Prod.mk.inj (hph e he hb)
        simp only [Htlc.effect, h1, h2]
        rfl
    exact_mod_cast hint
  have hout : ch'.commitmentHtlcs false = ch.commitmentHtlcs false := by
    rw [hS.commitmentHtlcs, hS'.commitmentHtlcs, hes]
    refine congrArg (List.map _) (List.filter_congr fun e he => ?_)
    cases hb : L.baked e with
    | true =>
      rw [included_of_baked hS.wf hb, included_of_baked hS'.wf (Ledger.baked_mono hset hb)]
    | false => exact congrArg Prod.fst (hph e he hb)
  have hpair : ch'.balancesFor false = ch.balancesFor false := Prod.ext (hbal true) (hbal false)
  simp only [nextContent, hfee, hpair, hout]

/-- A revocation locks what was signed. -/
theorem nextContent_revoke (hS : Shape L ch) (hF : Funds init L ch)
    {pending : PendingCounterpartyCommitment} (ha : ch.awaitingRaa = true)
    (hp : ch.pendingCounterpartyCommitment = some pending) (secrets : Shachain.SecretStore)
    (nextPoint : PublicKey) :
    (ch.acceptRevocation pending secrets nextPoint).gcHtlcs.processed.nextContent =
      ch.nextContent := by
  obtain ⟨-, hF'⟩ := (acceptRevocation_collecting hS ha hp secrets nextPoint).gc hS hF
  refine hF.nextContent_eq hS (hS.revoke ha hp secrets nextPoint)
    ⟨hF'.nonneg, hF'.total, hF'.base, hF'.solvent⟩ rfl (Ledger.settled_le_revoke hS.wf) rfl ?_
  intro e he _
  have hrev : L.revoke.phase e false = (L.lockRevoked e (L.toHtlc e)).phaseCounterparty := by
    rw [← Htlc.process_phaseCounterparty, ← Ledger.toHtlc_revoke hS.wf he]
    rfl
  have hin : (if L.entering e then (L.toHtlc e).lockIncluded else
      L.toHtlc e).phaseCounterparty.meaning = (L.phase e false).meaning := by
    split
    · exact Htlc.lockIncluded_meaning _
    · rfl
  rw [hrev, ← hin]
  unfold Ledger.lockRevoked
  simp only
  split
  · exact Htlc.lockRemoved_meaning _
  · rfl

/-- A commitment that acknowledges nothing new. -/
theorem nextContent_accept (hS : Shape L ch) (hF : Funds init L ch) (number : Nat) (b : Built)
    (msg : Wire.CommitmentSigned)
    (hclean : (ch.acceptCommitment number b msg).counterpartyDirty = false) :
    (ch.acceptCommitment number b msg).gcHtlcs.nextContent = ch.nextContent := by
  simp only [acceptCommitment, Bool.or_eq_false_iff, List.any_eq_false, List.mem_map,
    forall_exists_index, and_imp, forall_apply_eq_imp_iff₂, Bool.or_eq_true, not_or,
    Bool.not_eq_true] at hclean
  obtain ⟨-, hacks, hack⟩ := hclean
  refine hF.nextContent_eq hS (hS.accept number b msg)
    ((acceptCommitment_collecting hS number b msg).gc hS hF).2 rfl (Ledger.settled_le_accept hS.wf)
    ?_ ?_
  · show ch.pendingFeeAck.getD ch.feerateCounterparty = _
    rw [Option.isSome_eq_false_iff.1 hack |> Option.isNone_iff_eq_none.1]
    rfl
  · intro e he hb
    have hmem : L.toHtlc e ∈ ch.htlcs := hS.htlcs ▸ Ledger.mem_htlcs.2 ⟨e, he, hb, rfl⟩
    have hsame : L.accept.phase e false = L.phase e false := by
      have hacc := congrArg Htlc.phaseCounterparty (Ledger.toHtlc_accept hS.wf he)
      have hlock : (L.toHtlc e).lockHolder.phaseCounterparty = (L.toHtlc e).phaseCounterparty := by
        unfold Htlc.lockHolder
        split <;> rfl
      rw [Htlc.acknowledge, if_neg (by simp [hacks _ hmem]), if_neg (by simp [hacks _ hmem]),
        hlock] at hacc
      exact hacc
    rw [hsame]

end

/-! ## Runs -/

/-- Every change to the peer's commitment that is not signed is remembered. -/
structure Remembers (ch : Channel) : Prop where
  signed : 0 < ch.state.rank → ch.currentCounterpartyCommitment.isSome
  current : ch.counterpartyDirty = false → ch.awaitingRaa = false →
    ∀ info, ch.currentCounterpartyCommitment = some info → info.content = ch.nextContent
  pending : ch.counterpartyDirty = false → ch.awaitingRaa = true →
    ∃ pending, ch.pendingCounterpartyCommitment = some pending ∧
      pending.info.content = ch.nextContent

theorem Initial.remembers (h : Initial ch) : Remembers ch where
  signed hrank := by simp [h.state] at hrank
  current _ _ info hcur := by simp [h.counterpartyCommitment] at hcur
  pending _ ha := by simp [h.awaiting] at ha

/-- A change that leaves the content, the flags and the commitments alone. -/
theorem Remembers.congr (h : Remembers ch) (hnext : ch'.nextContent = ch.nextContent)
    (hrank : 0 < ch'.state.rank → 0 < ch.state.rank)
    (hd : ch'.counterpartyDirty = false → ch.counterpartyDirty = false)
    (ha : ch'.awaitingRaa = ch.awaitingRaa)
    (hcur : ch'.currentCounterpartyCommitment = ch.currentCounterpartyCommitment)
    (hpen : ch'.pendingCounterpartyCommitment = ch.pendingCounterpartyCommitment) :
    Remembers ch' := by
  refine ⟨fun hrank' => hcur ▸ h.signed (hrank hrank'), fun hd' ha' => ?_, fun hd' ha' => ?_⟩
  · rw [hcur, hnext]
    exact h.current (hd hd') (ha ▸ ha')
  · rw [hpen, hnext]
    exact h.pending (hd hd') (ha ▸ ha')

theorem Move.remembers (hm : Move C ch ch') (hacc : Accounted ch) (h : Remembers ch) :
    Remembers ch' := by
  cases hm with
  | signInitial point b st hrank hst hp hb =>
    refine ⟨fun _ => rfl, fun _ _ info hcur => ?_, h.pending⟩
    obtain rfl := Option.some.inj hcur
    exact content_of_built hb
  | admin a hst =>
    refine h.congr rfl (fun hrank => ?_) id rfl rfl rfl
    rcases hst with hst | hst
    · exact hst ▸ hrank
    · exact hst.1
  | offer | resolveInbound | fee =>
    exact ⟨h.signed, (nomatch ·), (nomatch ·)⟩
  | receive msg => exact h.congr (nextContent_receive msg) id id rfl rfl rfl
  | resolveOutbound id r x hx =>
    exact h.congr (nextContent_resolveOutbound r hx) (fun h => h) (fun h => h) rfl rfl rfl
  | sign point b ha hp hb =>
    refine ⟨h.signed, fun _ ha' => (nomatch ha'), fun _ _ => ⟨_, rfl, ?_⟩⟩
    exact content_of_built hb
  | revoke pending secret point secrets nextPoint ha hp =>
    obtain ⟨init, L, hS, hF⟩ := hacc
    refine ⟨fun _ => rfl, fun hd _ info hcur => ?_, fun _ ha' => nomatch ha'⟩
    obtain rfl := Option.some.inj hcur
    obtain ⟨pending', hp', hcont⟩ := h.pending hd ha
    obtain rfl := Option.some.inj (hp.symm.trans hp')
    rw [nextContent_revoke hS hF ha hp]
    exact hcont
  | _ => exact ⟨h.signed, h.current, h.pending⟩

theorem accept_remembers (number : Nat) (b : Built) (msg : Wire.CommitmentSigned)
    (hacc : Accounted ch) (h : Remembers ch) :
    Remembers (ch.acceptCommitment number b msg).gcHtlcs := by
  obtain ⟨init, L, hS, hF⟩ := hacc
  have hnext := nextContent_accept hS hF number b msg
  have hdirty : (ch.acceptCommitment number b msg).counterpartyDirty = false →
      ch.counterpartyDirty = false := by
    intro hd
    simp only [acceptCommitment, Bool.or_eq_false_iff] at hd
    exact hd.1
  refine ⟨h.signed, fun hd ha => ?_, fun hd ha => ?_⟩
  · rw [hnext hd]
    exact h.current (hdirty hd) ha
  · rw [hnext hd]
    exact h.pending (hdirty hd) ha

theorem remembers_of_run {tr : Trace Input ChannelError (List Wire.Message)} (h₀ : Fresh C ch₀)
    (hr : Run (step C) ch₀ tr ch) (hd : ∀ x ∈ tr, x.1 ≠ .disconnect) : Remembers ch := by
  refine (Run.invariant (I := fun ch => Accounted ch ∧ Remembers ch) (A := (· ≠ .disconnect))
    ⟨⟨_, {}, h₀.initial.shape, h₀.initial.funds⟩, h₀.initial.remembers⟩ ?_ hr hd).2
  intro ch i hi h
  refine (step_stepped i ch).mono fun ch' hs => ?_
  cases hs with
  | moves _ hm =>
    exact hm.invariant (I := fun ch => Accounted ch ∧ Remembers ch)
      (fun _ _ hm h => ⟨hm.accounted h.1, hm.remembers h.1 h.2⟩) h
  | refused => exact h
  | accepted msg b => exact ⟨h.1.accept _ b msg, accept_remembers _ b msg h.1 h.2⟩
  | rolledBack => exact absurd rfl hi

/-- Without a disconnect, whatever the peer sends: a channel that is not dirty has signed the
commitment it would build next, and that commitment is the current one or the one in flight. -/
theorem changes_remembered {tr : Trace Input ChannelError (List Wire.Message)} (h₀ : Fresh C ch₀)
    (hr : Run (step C) ch₀ tr ch) (hd : ∀ x ∈ tr, x.1 ≠ .disconnect) :
    Remembers ch ∧ ∀ number point b, ch.buildCounterpartyCommitmentAt C number point = .ok b →
      (ch.counterpartyInfoFromBuilt number point b.built b.htlcs).content = ch.nextContent :=
  ⟨remembers_of_run h₀ hr hd, fun _ _ _ hb => content_of_built hb⟩

/-- The offerer of a committed payment, with nothing to sign. -/
theorem changes_remembered_alice :
    ∃ tr ch info, Run (step Demo.C) Demo.alice.1 tr ch ∧ (∀ x ∈ tr, x.1 ≠ .disconnect) ∧
      ch.currentCounterpartyCommitment = some info ∧ info.htlcs.length = 1 ∧
      info.content = ch.nextContent := by
  obtain ⟨tr, ch, hr, ⟨hdirty, ha, hlen⟩, hd⟩ := Demo.exists_chan
    (Demo.handshake ++ Demo.payment) .a (fun ch => ch.counterpartyDirty = false ∧
      ch.awaitingRaa = false ∧ ch.currentCounterpartyCommitment.map (·.htlcs.length) = some 1)
    (by decide +kernel)
  have hd' : ∀ x ∈ tr, x.1 ≠ .disconnect := fun x hx hxd => by
    have hmem := hd x hx hxd
    simp [Demo.handshake, Demo.payment] at hmem
  obtain ⟨info, hcur, hone⟩ := Option.map_eq_some_iff.1 hlen
  exact ⟨tr, ch, info, hr, hd', hcur, hone,
    (changes_remembered Demo.alice_fresh hr hd').1.current hdirty ha info hcur⟩

end Channel
