import Keraunos.Channel.Proof.Terms
import Keraunos.Channel.Proof.Party

/-!
# Two channels just opened

What an opening leaves (`Opened.born`, `Opened.mirror`): no HTLC, the balances and the feerate of
`open_channel`, the first commitments signed and stored, and on both sides the same terms.
-/

open Bitcoin Commitment

namespace Channel

variable {C : Crypto} {g : Genesis} {ch ch' a b : Channel}

/-- Nothing was done with the channel yet. -/
structure Unused (g : Genesis) (ch : Channel) : Prop where
  htlcs : ch.htlcs = []
  ids : ∀ m, ch.nextId m = 0
  idle : ch.awaitingRaa = false
  clean : ch.counterpartyDirty = false
  ack : ch.pendingFeeAck = none
  feerateHolder : ch.feerateHolder = g.feerate
  feerateCounterparty : ch.feerateCounterparty = g.feerate
  base : ∀ m, ch.base m = g.initial (ch.opener == m)
  total : g.openerMsat + g.accepterMsat = ch.fundingAmountSat * 1000
  holderNumber : ch.holderCommitmentNumber = 0
  counterpartyNumber : ch.counterpartyCommitmentNumber = 0

namespace Unused

theorem congr (h : Unused g ch) (hd : ch'.dance = ch.dance)
    (hn : ch'.holderCommitmentNumber = ch.holderCommitmentNumber)
    (hf : ch'.fundingAmountSat = ch.fundingAmountSat) : Unused g ch' where
  htlcs := (congrArg (·.htlcs) hd).trans h.htlcs
  ids m := by
    refine Eq.trans ?_ (h.ids m)
    cases m
    · exact congrArg Dance.nextCounterpartyHtlcId hd
    · exact congrArg (·.nextHolderHtlcId) hd
  idle := (congrArg Dance.awaitingRaa hd).trans h.idle
  clean := (congrArg Dance.counterpartyDirty hd).trans h.clean
  ack := (congrArg (·.pendingFeeAck) hd).trans h.ack
  feerateHolder := (congrArg (·.feerateHolder) hd).trans h.feerateHolder
  feerateCounterparty := (congrArg (·.feerateCounterparty) hd).trans h.feerateCounterparty
  base m := by
    have hop : ch'.opener = ch.opener := congrArg (fun d : Dance => decide (d.role = .opener)) hd
    rw [hop]
    refine Eq.trans ?_ (h.base m)
    cases m
    · exact congrArg (·.toCounterpartyMsat) hd
    · exact congrArg (·.toHolderMsat) hd
  total := hf ▸ h.total
  holderNumber := hn.trans h.holderNumber
  counterpartyNumber := (congrArg Dance.counterpartyCommitmentNumber hd).trans h.counterpartyNumber

theorem balance (h : Unused g ch) (s m : Bool) : ch.balance s m = g.initial (ch.opener == m) := by
  rw [← h.base m]
  cases m <;> simp [Channel.balance, balancesFor, h.htlcs, Channel.base]

/-- The first commitments hold the initial balances. -/
theorem content (h : Unused g ch) (s : Bool) : Content.Of g (ch.opener == s) [] [] (ch.contentOf s) where
  feerate := by
    cases s
    · exact h.feerateCounterparty.trans (by simp [Update.lastFee])
    · exact h.feerateHolder.trans (by simp [Update.lastFee])
  owner := by
    simp only [contentOf, h.balance, Update.net, Update.offers]
    simp
  other := by
    simp only [contentOf, h.balance, Update.net, Update.offers]
    cases s <;> cases ch.opener <;> simp
  htlcs := by simp [contentOf, commitmentHtlcs, h.htlcs, Update.live, Update.offers]

theorem shape (h : Unused g ch) : Shape {} ch where
  wf := Ledger.wf_empty
  htlcs := h.htlcs
  ids m := by rw [h.ids m]; rfl
  idle _ := rfl
  snapshot ha := by cases h.idle.symm.trans ha

theorem funds (h : Unused g ch) : Funds (fun m => g.initial (ch.opener == m)) {} ch where
  nonneg _ := Int.natCast_nonneg _
  total := by
    have htotal : (g.openerMsat : Int) + g.accepterMsat = ch.fundingAmountSat * 1000 := by
      exact_mod_cast h.total
    cases ch.opener <;> simp [Genesis.initial] <;> omega
  base m := by simp [h.base m]
  solvent m := by simp [Ledger.Solvent]

end Unused

/-- The commitment of ours that an opening stores. -/
def HoldsFirst (C : Crypto) (ch : Channel) : Prop :=
  ∃ hc, ch.currentHolderCommitment = some hc ∧ hc.number = 0 ∧
    Holds C (ch.setting true) ch.signer hc (ch.contentOf true)

/-- The commitment of the peer's that an opening signs. -/
def SignedFirst (C : Crypto) (ch : Channel) : Prop :=
  ∃ info, ch.currentCounterpartyCommitment = some info ∧ info.number = 0 ∧
    Depicts C (ch.setting false) info ∧ info.content = ch.nextContent ∧
    ch.counterpartyCurrentPoint = some info.perCommitmentPoint

/-- A channel whose opening is done. -/
structure Born (C : Crypto) (g : Genesis) (ch : Channel) : Prop where
  unused : Unused g ch
  opened : 2 ≤ ch.state.rank
  held : ch.HoldsFirst C
  signed : ch.SignedFirst C

/-- An empty ledger fits it. -/
theorem Born.inOrder (h : Born C g ch) : InOrder C g {} ch := by
  obtain ⟨hu, hrank, ⟨hc, hcur, hnum, hholds⟩, ⟨info, hinfo, hinum, hdesc, hcontent, -⟩⟩ := h
  have hown := hu.content true
  have htheirs := hu.content false
  refine ⟨hrank, hu.shape, hu.funds, ⟨fun s => ?_, fun _ => ⟨hu.ack, fun ha => ?_⟩,
    fun _ => ⟨?_, fun ha => ?_⟩⟩, ⟨⟨hc, _, hcur, hnum.trans hu.holderNumber.symm, hholds, ?_⟩,
      ⟨info, hinfo, hinum.trans hu.counterpartyNumber.symm, hdesc, ?_⟩, fun ha => ?_⟩⟩
  · exact (hu.content s).feerate.trans (by simp [Update.lastFee, Ledger.front])
  · cases hu.idle.symm.trans ha
  · rw [hu.ack, hu.feerateHolder, ← hu.feerateCounterparty]
    rfl
  · cases hu.idle.symm.trans ha
  · simpa using hown
  · rw [hcontent, ← contentOf_false]
    simpa using htheirs
  · cases hu.idle.symm.trans ha

theorem Born.party (h : Born C g ch) : Ledger.party {} ch = {} := by
  simp only [Ledger.party, h.unused.idle, h.unused.clean, h.unused.holderNumber,
    h.unused.counterpartyNumber]

/-! ## The handlers of an opening -/

theorem newOutbound_unused {signer : ChannelSigner} {config : ChannelConfig} {network : Network}
    {id : ChannelId} {fundingAmountSat : Nat} {pushMsat : Msat} {feerate : FeeRatePerKw}
    {msg : Wire.OpenChannel}
    (h : newOutbound signer config network id fundingAmountSat pushMsat feerate = .ok (ch, msg)) :
    Unused ⟨fundingAmountSat * 1000 - pushMsat, pushMsat, feerate⟩ ch ∧
      msg.fundingSatoshis = fundingAmountSat ∧ msg.pushMsat = pushMsat ∧ msg.feeratePerKw = feerate := by
  unfold newOutbound at h
  split at h
  · cases h
  · next hpush =>
    cases h
    exact ⟨⟨rfl, fun m => by cases m <;> rfl, rfl, rfl, rfl, rfl, rfl, fun m => by cases m <;> rfl,
      Nat.sub_add_cancel (Nat.le_of_not_lt hpush), rfl, rfl⟩, rfl, rfl, rfl⟩

theorem newInbound_unused {signer : ChannelSigner} {config : ChannelConfig} {network : Network}
    {msg : Wire.OpenChannel} {accept : Wire.AcceptChannel}
    (h : newInbound C signer config network msg = .ok (ch, accept)) :
    Unused ⟨msg.fundingSatoshis * 1000 - msg.pushMsat, msg.pushMsat, msg.feeratePerKw⟩ ch := by
  obtain ⟨_, hcheck, h⟩ := Fault.bind_eq_ok.1 h
  cases h
  simp only [checkOpenChannel, Fault.bind_eq_ok, Fault.require_eq_ok] at hcheck
  obtain ⟨_, -, _, hpush, -⟩ := hcheck
  exact ⟨rfl, fun m => by cases m <;> rfl, rfl, rfl, rfl, rfl, rfl, fun m => by cases m <;> rfl,
    Nat.sub_add_cancel hpush, rfl, rfl⟩

theorem onAcceptChannel_unused (msg : Wire.AcceptChannel) (h : Unused g ch) :
    Act.wp (onAcceptChannel C msg) ch (fun _ ch' => Unused g ch') fun _ _ => True := by
  simp only [onAcceptChannel, Act.wp_bind, Act.wp_get, Act.wp_lift, Act.wp_set]
  exact ⟨fun _ _ => h.congr rfl rfl rfl, fun _ _ => trivial⟩

theorem fundingCreated_unused (txid : Txid) (index : Nat) (h : Unused g ch) :
    Act.wp (fundingCreated C txid index) ch (fun _ ch' => Unused g ch' ∧ ch'.SignedFirst C)
      fun _ _ => True := by
  simp only [fundingCreated, Act.wp_bind, Act.wp_get, Act.wp_lift, Act.wp_set, Act.wp_modify,
    Act.wp_pure]
  refine ⟨fun _ _ => ⟨fun _ _ => ?_, fun _ _ => trivial⟩, fun _ _ => trivial⟩
  refine Act.wp_mono (signInitialCounterpartyCommitment_spec _) ?_ fun _ _ _ => trivial
  intro _ _ hsign
  obtain ⟨point, b, hpoint, hb, rfl⟩ := hsign
  exact ⟨h.congr rfl rfl rfl, _, rfl, rfl, depicts_of_built hb, content_of_built hb, hpoint⟩

theorem onFundingCreated_born (msg : Wire.FundingCreated) (h : Unused g ch) :
    Act.wp (onFundingCreated C msg) ch (fun _ ch' => Born C g ch') fun _ _ => True := by
  simp only [onFundingCreated, Act.wp_bind, Act.wp_get, Act.wp_lift, Act.wp_set, Act.wp_modify,
    Act.wp_pure]
  refine ⟨fun _ _ => ?_, fun _ _ => trivial⟩
  refine Act.wp_mono (storeInitialHolderCommitment_spec msg.signature _) ?_ fun _ _ _ => trivial
  intro _ _ hstore
  obtain ⟨b₀, hb₀, -, rfl⟩ := hstore
  refine Act.wp_mono (signInitialCounterpartyCommitment_spec _) ?_ fun _ _ _ => trivial
  intro _ _ hsign
  obtain ⟨point, b, hpoint, hb, rfl⟩ := hsign
  obtain ⟨hhtlcs, hrenders⟩ := holder_renders hb₀
  refine ⟨h.congr rfl rfl rfl, Nat.le_refl 2, ?_, ?_⟩
  · exact ⟨_, rfl, rfl, rfl, hhtlcs, hrenders⟩
  · exact ⟨_, rfl, rfl, depicts_of_built hb, content_of_built hb, hpoint⟩

theorem onFundingSigned_born (msg : Wire.FundingSigned) (h : Unused g ch) (hs : ch.SignedFirst C) :
    Act.wp (onFundingSigned C msg) ch (fun _ ch' => Born C g ch') fun _ _ => True := by
  simp only [onFundingSigned, Act.wp_bind, Act.wp_get, Act.wp_lift, Act.wp_modify]
  refine ⟨fun _ _ => ⟨fun _ _ => ?_, fun _ _ => trivial⟩, fun _ _ => trivial⟩
  refine Act.wp_mono (storeInitialHolderCommitment_spec msg.signature _) ?_ fun _ _ _ => trivial
  intro _ _ hstore
  obtain ⟨b₀, hb₀, -, rfl⟩ := hstore
  obtain ⟨hhtlcs, hrenders⟩ := holder_renders hb₀
  refine ⟨h.congr rfl rfl rfl, Nat.le_refl 2, ?_, hs⟩
  exact ⟨_, rfl, rfl, rfl, hhtlcs, hrenders⟩

theorem Opened.born {signerA signerB : ChannelSigner} (h : Opened C signerA signerB a b) :
    ∃ g, Born C g a ∧ Born C g b := by
  obtain ⟨o, h⟩ := h
  simp only [openPair, Option.bind_eq_bind, Option.bind_eq_some_iff, Act.result_eq_some,
    Fault.toOption_eq_some, Option.pure_def, Option.some.injEq, Prod.mk.injEq] at h
  obtain ⟨⟨a₁, openMsg⟩, hout, ⟨b₁, acceptMsg⟩, hin, ⟨_, a₂⟩, haccept, ⟨created, a₃⟩, hcreated,
    ⟨signed, b₂⟩, hsigned, ⟨_, a₄⟩, hdone, rfl, rfl⟩ := h
  obtain ⟨ha₁, hsat, hpush, hfee⟩ := newOutbound_unused hout
  have hb₁ := newInbound_unused hin
  rw [hsat, hpush, hfee] at hb₁
  have ha₂ := Act.wp_ok (onAcceptChannel_unused _ ha₁) haccept
  obtain ⟨ha₃, hfirst⟩ := Act.wp_ok (fundingCreated_unused _ _ ha₂) hcreated
  have ha := Act.wp_ok (onFundingSigned_born _ ha₃ hfirst) hdone
  have hb := Act.wp_ok (onFundingCreated_born _ hb₁) hsigned
  exact ⟨_, ha, hb⟩

/-! ## The same terms -/

/-- What the two users agreed on. -/
structure Agreed where
  signer : ChannelSigner
  role : ChannelRole
  params : ChannelParams
  holderPubkeys : ChannelPublicKeys
  counterpartyPubkeys : Option ChannelPublicKeys
  obscureFactor : Nat
  currentPoint : Option PublicKey
  nextPoint : Option PublicKey

def agreed (ch : Channel) : Agreed :=
  ⟨ch.signer, ch.role, ch.params, ch.holderPubkeys, ch.counterpartyPubkeys, ch.obscureFactor,
    ch.counterpartyCurrentPoint, ch.counterpartyNextPoint⟩

theorem onAcceptChannel_agreed (msg : Wire.AcceptChannel) (ch : Channel) :
    Act.wp (onAcceptChannel C msg) ch
      (fun _ ch' => ch'.agreed = { ch.agreed with
        params := { ch.params with
          counterpartyDustLimitSat := msg.dustLimitSatoshis
          counterpartySelectedReserveSat := msg.channelReserveSatoshis
          counterpartyMaxHtlcValueInFlightMsat := msg.maxHtlcValueInFlightMsat
          counterpartyHtlcMinimumMsat := msg.htlcMinimumMsat
          counterpartyMaxAcceptedHtlcs := msg.maxAcceptedHtlcs
          counterpartySelectedDelay := msg.toSelfDelay }
        counterpartyPubkeys := some (pubkeysFromMsg msg.basepoints)
        obscureFactor := commitNumberObscureFactor C ch.holderPubkeys.paymentBasepoint
          (pubkeysFromMsg msg.basepoints).paymentBasepoint
        currentPoint := some msg.firstPerCommitmentPoint }) fun _ _ => True := by
  simp only [onAcceptChannel, Act.wp_bind, Act.wp_get, Act.wp_lift, Act.wp_set]
  exact ⟨fun _ _ => rfl, fun _ _ => trivial⟩

theorem fundingCreated_agreed (txid : Txid) (index : Nat) (ch : Channel) :
    Act.wp (fundingCreated C txid index) ch (fun _ ch' => ch'.agreed = ch.agreed) fun _ _ => True := by
  simp only [fundingCreated, Act.wp_bind, Act.wp_get, Act.wp_lift, Act.wp_set, Act.wp_modify,
    Act.wp_pure]
  refine ⟨fun _ _ => ⟨fun _ _ => ?_, fun _ _ => trivial⟩, fun _ _ => trivial⟩
  refine Act.wp_mono (signInitialCounterpartyCommitment_spec _) ?_ fun _ _ _ => trivial
  intro _ _ hsign
  obtain ⟨_, _, -, -, rfl⟩ := hsign
  rfl

theorem onFundingCreated_agreed (msg : Wire.FundingCreated) (ch : Channel) :
    Act.wp (onFundingCreated C msg) ch (fun _ ch' => ch'.agreed = ch.agreed) fun _ _ => True := by
  simp only [onFundingCreated, Act.wp_bind, Act.wp_get, Act.wp_lift, Act.wp_set, Act.wp_modify,
    Act.wp_pure]
  refine ⟨fun _ _ => ?_, fun _ _ => trivial⟩
  refine Act.wp_mono (storeInitialHolderCommitment_spec msg.signature _) ?_ fun _ _ _ => trivial
  intro _ _ hstore
  obtain ⟨_, -, -, rfl⟩ := hstore
  refine Act.wp_mono (signInitialCounterpartyCommitment_spec _) ?_ fun _ _ _ => trivial
  intro _ _ hsign
  obtain ⟨_, _, -, -, rfl⟩ := hsign
  rfl

theorem onFundingSigned_agreed (msg : Wire.FundingSigned) (ch : Channel) :
    Act.wp (onFundingSigned C msg) ch (fun _ ch' => ch'.agreed = ch.agreed) fun _ _ => True := by
  simp only [onFundingSigned, Act.wp_bind, Act.wp_get, Act.wp_lift, Act.wp_modify]
  refine ⟨fun _ _ => ⟨fun _ _ => ?_, fun _ _ => trivial⟩, fun _ _ => trivial⟩
  refine Act.wp_mono (storeInitialHolderCommitment_spec msg.signature _) ?_ fun _ _ _ => trivial
  intro _ _ hstore
  obtain ⟨_, -, -, rfl⟩ := hstore
  rfl

theorem setting_of_agreed {x : Agreed} (h : ch.agreed = x) {outpoint : OutPoint}
    (ho : ch.fundingOutpoint = some outpoint) (s : Bool) : ch.setting s =
      x.counterpartyPubkeys.map fun cp =>
        { funding := outpoint
          obscureFactor := x.obscureFactor
          broadcasterPaysFee := x.role = if s then .opener else .accepter
          dustLimitSat := if s then x.params.holderDustLimitSat else x.params.counterpartyDustLimitSat
          toSelfDelay := if s then x.params.counterpartySelectedDelay else x.params.holderSelectedDelay
          broadcaster := if s then x.holderPubkeys else cp
          countersignatory := if s then cp else x.holderPubkeys } := by
  subst h
  cases hcp : ch.counterpartyPubkeys <;> simp [setting, settingWith, agreed, hcp, ho]

/-- Each end builds its commitments in the setting the other signs them in, and knows the other's first
point. -/
structure SameTerms (signerA signerB : ChannelSigner) (a b : Channel) : Prop where
  ours : a.setting true = b.setting false
  theirs : a.setting false = b.setting true
  pointA : a.counterpartyCurrentPoint = some (signerB.perCommitmentPoint 0)
  pointB : b.counterpartyCurrentPoint = some (signerA.perCommitmentPoint 0)
  nextA : a.counterpartyNextPoint = none
  nextB : b.counterpartyNextPoint = none

theorem Opened.sameTerms {signerA signerB : ChannelSigner} (h : Opened C signerA signerB a b) :
    SameTerms signerA signerB a b := by
  have hcp := h.counterparts.1
  obtain ⟨o, h⟩ := h
  simp only [openPair, Option.bind_eq_bind, Option.bind_eq_some_iff, Act.result_eq_some,
    Fault.toOption_eq_some, Option.pure_def, Option.some.injEq, Prod.mk.injEq] at h
  obtain ⟨⟨a₁, openMsg⟩, hout, ⟨b₁, acceptMsg⟩, hin, ⟨_, a₂⟩, haccept, ⟨created, a₃⟩, hcreated,
    ⟨signed, b₂⟩, hsigned, ⟨_, a₄⟩, hdone, rfl, rfl⟩ := h
  have ha₂ := Act.wp_ok (onAcceptChannel_agreed _ _) haccept
  have ha₃ := Act.wp_ok (fundingCreated_agreed _ _ _) hcreated
  have hb₂ := Act.wp_ok (onFundingCreated_agreed _ _) hsigned
  have ha₄ := Act.wp_ok (onFundingSigned_agreed _ _) hdone
  obtain ⟨outpoint, hoa, hob⟩ := hcp.funding
  unfold newOutbound at hout
  split at hout
  · cases hout
  · cases hout
    obtain ⟨_, -, hin⟩ := Fault.bind_eq_ok.1 hin
    cases hin
    have ha := ha₄.trans (ha₃.trans ha₂)
    refine ⟨?_, ?_, congrArg Agreed.currentPoint ha, congrArg Agreed.currentPoint hb₂,
      congrArg Agreed.nextPoint ha, congrArg Agreed.nextPoint hb₂⟩
    · rw [setting_of_agreed ha hoa, setting_of_agreed hb₂ hob]
      rfl
    · rw [setting_of_agreed ha hoa, setting_of_agreed hb₂ hob]
      rfl

end Channel
