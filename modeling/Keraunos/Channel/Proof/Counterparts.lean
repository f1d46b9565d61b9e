import Keraunos.Channel.Pair
import Keraunos.Channel.Proof.Moves
import Keraunos.Commitment.Proof.Order

/-!
# The two ends of a channel

`openPair` is the opening with every message delivered as it was sent. The channels it returns are the
two ends of one channel (`Counterparts`): the same funding output, each with the keys of the other. What
makes them so is settled then (`identity_of_run`).

The closing transaction of an end depends on its identity, its balance and the scripts of the shutdown,
and on the dust limit of that end alone. Both ends build the same transaction exactly where the two dust
limits agree about its outputs (`closing_transactions_agree_iff`).
-/

open Bitcoin Commitment

namespace Crypto

/-- Signatures verify under the public key of the signer. -/
def VerifiesSigned (C : Crypto) : Prop :=
  ∀ sk digest, C.verifyEcdsa digest (C.signEcdsa sk digest) (C.publicKey sk) = true

end Crypto

/-- The value and the state of a method that succeeds. -/
def Act.result {ε σ α : Type} (x : Act ε σ α) (s : σ) : Option (α × σ) :=
  match x s with
  | .ok a s' => some (a, s')
  | .error _ _ => none

theorem Act.result_eq_some {ε σ α : Type} {x : Act ε σ α} {s : σ} {r : α × σ} :
    x.result s = some r ↔ x s = .ok r.1 r.2 := by
  unfold result
  cases x s with
  | ok a s' =>
    simp only [Option.some.injEq, EStateM.Result.ok.injEq]
    exact Prod.ext_iff
  | error e s' => simp

namespace Channel

variable {C : Crypto} {ch ch' a a₀ b b₀ : Channel}

/-! ## Opening -/

/-- What the two users of an opening choose. -/
structure OpeningChoices where
  configA : ChannelConfig
  configB : ChannelConfig
  network : Network
  temporaryChannelId : ChannelId
  fundingAmountSat : Nat
  pushMsat : Msat
  feerate : FeeRatePerKw
  fundingTxid : Txid
  fundingOutputIndex : Nat

/-- The opening: opener and accepter once `funding_signed` has arrived. -/
def openPair (C : Crypto) (signerA signerB : ChannelSigner) (o : OpeningChoices) :
    Option (Channel × Channel) := do
  let (a, openMsg) ← (newOutbound signerA o.configA o.network o.temporaryChannelId o.fundingAmountSat
    o.pushMsat o.feerate).toOption
  let (b, acceptMsg) ← (newInbound C signerB o.configB o.network openMsg).toOption
  let ((), a) ← (onAcceptChannel C acceptMsg).result a
  let (created, a) ← (fundingCreated C o.fundingTxid o.fundingOutputIndex).result a
  let (signed, b) ← (onFundingCreated C created).result b
  let ((), a) ← (onFundingSigned C signed).result a
  return (a, b)

/-- The two ends of an opening. -/
def Opened (C : Crypto) (signerA signerB : ChannelSigner) (a b : Channel) : Prop :=
  ∃ o, openPair C signerA signerB o = some (a, b)

/-- What the opening settles. -/
structure Identity where
  signer : ChannelSigner
  role : ChannelRole
  params : ChannelParams
  channelId : ChannelId
  fundingOutpoint : Option OutPoint
  fundingAmountSat : Nat
  holderPubkeys : ChannelPublicKeys
  counterpartyPubkeys : Option ChannelPublicKeys

def identity (ch : Channel) : Identity :=
  ⟨ch.signer, ch.role, ch.params, ch.channelId, ch.fundingOutpoint, ch.fundingAmountSat,
    ch.holderPubkeys, ch.counterpartyPubkeys⟩

/-- `a` and `b` are the opener's and the accepter's end of one channel. -/
structure Counterparts (signerA signerB : ChannelSigner) (a b : Channel) : Prop where
  signsA : a.signer = signerA
  signsB : b.signer = signerB
  opener : a.role = .opener
  accepter : b.role = .accepter
  keysA : a.holderPubkeys = signerA.pubkeys
  keysB : b.holderPubkeys = signerB.pubkeys
  counterpartyA : a.counterpartyPubkeys = some signerB.pubkeys
  counterpartyB : b.counterpartyPubkeys = some signerA.pubkeys
  amount : a.fundingAmountSat = b.fundingAmountSat
  funding : ∃ outpoint, a.fundingOutpoint = some outpoint ∧ b.fundingOutpoint = some outpoint
  channelId : a.channelId = b.channelId

theorem onAcceptChannel_identity (msg : Wire.AcceptChannel) (ch : Channel) :
    Act.wp (onAcceptChannel C msg) ch
      (fun _ ch' => ∃ params, ch'.identity = { ch.identity with
        params, counterpartyPubkeys := some (pubkeysFromMsg msg.basepoints) }) fun _ _ => True := by
  simp only [onAcceptChannel, Act.wp_bind, Act.wp_get, Act.wp_lift, Act.wp_set]
  exact ⟨fun _ _ => ⟨_, rfl⟩, fun _ _ => trivial⟩

theorem fundingCreated_identity (txid : Txid) (index : Nat) (ch : Channel) :
    Act.wp (fundingCreated C txid index) ch
      (fun msg ch' => ch'.identity = { ch.identity with
        fundingOutpoint := some ⟨txid, index⟩, channelId := channelIdFromFunding txid index } ∧
        msg.fundingTxid = txid ∧ msg.fundingOutputIndex = index) fun _ _ => True := by
  simp only [fundingCreated, Act.wp_bind, Act.wp_get, Act.wp_lift, Act.wp_set, Act.wp_modify,
    Act.wp_pure]
  refine ⟨fun _ _ => ⟨fun _ _ => ?_, fun _ _ => trivial⟩, fun _ _ => trivial⟩
  refine Act.wp_mono (signInitialCounterpartyCommitment_spec _) ?_ fun _ _ _ => trivial
  intro _ _ hsign
  obtain ⟨point, b, -, -, rfl⟩ := hsign
  exact ⟨rfl, trivial, trivial⟩

theorem onFundingCreated_identity (msg : Wire.FundingCreated) (ch : Channel) :
    Act.wp (onFundingCreated C msg) ch
      (fun _ ch' => ch'.identity = { ch.identity with
        fundingOutpoint := some ⟨msg.fundingTxid, msg.fundingOutputIndex⟩
        channelId := channelIdFromFunding msg.fundingTxid msg.fundingOutputIndex } ∧
        0 < ch'.state.rank) fun _ _ => True := by
  simp only [onFundingCreated, Act.wp_bind, Act.wp_get, Act.wp_lift, Act.wp_set, Act.wp_modify,
    Act.wp_pure]
  refine ⟨fun _ _ => ?_, fun _ _ => trivial⟩
  refine Act.wp_mono (storeInitialHolderCommitment_spec msg.signature _) ?_ fun _ _ _ => trivial
  intro _ _ hstore
  obtain ⟨_, -, -, rfl⟩ := hstore
  refine Act.wp_mono (signInitialCounterpartyCommitment_spec _) ?_ fun _ _ _ => trivial
  intro _ _ hsign
  obtain ⟨point, b, -, -, rfl⟩ := hsign
  exact ⟨rfl, Nat.zero_lt_two⟩

theorem onFundingSigned_identity (msg : Wire.FundingSigned) (ch : Channel) :
    Act.wp (onFundingSigned C msg) ch
      (fun _ ch' => ch'.identity = ch.identity ∧ 0 < ch'.state.rank) fun _ _ => True := by
  simp only [onFundingSigned, Act.wp_bind, Act.wp_get, Act.wp_lift, Act.wp_modify]
  refine ⟨fun _ _ => ⟨fun _ _ => ?_, fun _ _ => trivial⟩, fun _ _ => trivial⟩
  refine Act.wp_mono (storeInitialHolderCommitment_spec msg.signature _) ?_ fun _ _ _ => trivial
  intro _ _ hstore
  obtain ⟨_, -, -, rfl⟩ := hstore
  exact ⟨rfl, Nat.zero_lt_two⟩

/-- What the identities say of two ends. -/
theorem Counterparts.congr {signerA signerB : ChannelSigner} (h : Counterparts signerA signerB a₀ b₀)
    (ha : a.identity = a₀.identity) (hb : b.identity = b₀.identity) :
    Counterparts signerA signerB a b := by
  obtain ⟨o, hoA, hoB⟩ := h.funding
  exact {
    signsA := (congrArg Identity.signer ha).trans h.signsA
    signsB := (congrArg Identity.signer hb).trans h.signsB
    opener := (congrArg Identity.role ha).trans h.opener
    accepter := (congrArg Identity.role hb).trans h.accepter
    keysA := (congrArg Identity.holderPubkeys ha).trans h.keysA
    keysB := (congrArg Identity.holderPubkeys hb).trans h.keysB
    counterpartyA := (congrArg Identity.counterpartyPubkeys ha).trans h.counterpartyA
    counterpartyB := (congrArg Identity.counterpartyPubkeys hb).trans h.counterpartyB
    amount := (congrArg Identity.fundingAmountSat ha).trans
      (h.amount.trans (congrArg Identity.fundingAmountSat hb).symm)
    funding := ⟨o, (congrArg Identity.fundingOutpoint ha).trans hoA,
      (congrArg Identity.fundingOutpoint hb).trans hoB⟩
    channelId := (congrArg Identity.channelId ha).trans
      (h.channelId.trans (congrArg Identity.channelId hb).symm) }

/-- An opening makes the two ends of one channel. -/
theorem Opened.counterparts {signerA signerB : ChannelSigner} (h : Opened C signerA signerB a b) :
    Counterparts signerA signerB a b ∧ 0 < a.state.rank ∧ 0 < b.state.rank := by
  obtain ⟨o, h⟩ := h
  simp only [openPair, Option.bind_eq_bind, Option.bind_eq_some_iff, Act.result_eq_some,
    Fault.toOption_eq_some, Option.pure_def, Option.some.injEq, Prod.mk.injEq] at h
  obtain ⟨⟨a₁, openMsg⟩, hout, ⟨b₁, acceptMsg⟩, hin, ⟨_, a₂⟩, haccept, ⟨created, a₃⟩, hcreated,
    ⟨signed, b₂⟩, hsigned, ⟨_, a₄⟩, hdone, rfl, rfl⟩ := h
  obtain ⟨params, hid₂⟩ := Act.wp_ok (onAcceptChannel_identity _ _) haccept
  obtain ⟨hid₃, htxid, hindex⟩ := Act.wp_ok (fundingCreated_identity _ _ _) hcreated
  obtain ⟨hidB, hrankB⟩ := Act.wp_ok (onFundingCreated_identity _ _) hsigned
  obtain ⟨hid₄, hrankA⟩ := Act.wp_ok (onFundingSigned_identity _ _) hdone
  rw [htxid, hindex] at hidB
  rw [hid₃, hid₂] at hid₄
  refine ⟨?_, hrankA, hrankB⟩
  unfold newOutbound at hout
  split at hout
  · cases hout
  · cases hout
    obtain ⟨_, -, hin⟩ := Fault.bind_eq_ok.1 hin
    cases hin
    exact {
      signsA := congrArg Identity.signer hid₄
      signsB := congrArg Identity.signer hidB
      opener := congrArg Identity.role hid₄
      accepter := congrArg Identity.role hidB
      keysA := congrArg Identity.holderPubkeys hid₄
      keysB := congrArg Identity.holderPubkeys hidB
      counterpartyA := congrArg Identity.counterpartyPubkeys hid₄
      counterpartyB := congrArg Identity.counterpartyPubkeys hidB
      amount := (congrArg Identity.fundingAmountSat hid₄).trans
        (congrArg Identity.fundingAmountSat hidB).symm
      funding := ⟨_, congrArg Identity.fundingOutpoint hid₄, congrArg Identity.fundingOutpoint hidB⟩
      channelId := (congrArg Identity.channelId hid₄).trans
        (congrArg Identity.channelId hidB).symm }

/-! ## Later -/

/-- Only the opening touches the identity. -/
theorem Move.identity (hm : Move C ch ch') (h : 0 < ch.state.rank) :
    0 < ch'.state.rank ∧ ch'.identity = ch.identity := by
  cases hm with
  | negotiate msg hcheck =>
    simp only [checkAcceptChannel, Fault.bind_eq_ok, Fault.require_eq_ok] at hcheck
    obtain ⟨_, hst, -⟩ := hcheck
    rw [hst] at h
    cases h
  | bind _ hrank => omega
  | signInitial _ _ _ hrank => omega
  | admin a ha =>
    refine ⟨?_, rfl⟩
    show 0 < a.state.rank
    rcases ha with ha | ⟨-, hlt⟩
    · rw [ha]
      exact h
    · omega
  | _ => exact ⟨h, rfl⟩

theorem Stepped.identity {i : Input} (hs : Stepped C ch i ch') (h : 0 < ch.state.rank) :
    0 < ch'.state.rank ∧ ch'.identity = ch.identity := by
  cases hs with
  | moves _ hm =>
    refine hm.invariant (I := fun s => 0 < s.state.rank ∧ s.identity = ch.identity) ?_ ⟨h, rfl⟩
    intro s s' hm hs
    obtain ⟨hrank, hid⟩ := hm.identity hs.1
    exact ⟨hrank, hid.trans hs.2⟩
  | refused | accepted | rolledBack => exact ⟨h, rfl⟩

/-- The identity of a channel is settled once it is open. -/
theorem identity_of_run {tr : Trace Input ChannelError (List Wire.Message)} (h : 0 < a₀.state.rank)
    (hr : Run (step C) a₀ tr a) : a.identity = a₀.identity := by
  have hboth : 0 < a.state.rank ∧ a.identity = a₀.identity := by
    refine Run.invariant (A := fun _ => True)
      (I := fun s => 0 < s.state.rank ∧ s.identity = a₀.identity) ⟨h, rfl⟩ ?_ hr fun _ _ => trivial
    intro s i _ hs
    refine (step_stepped i s).mono fun s' hstep => ?_
    obtain ⟨hrank, hid⟩ := hstep.identity hs.1
    exact ⟨hrank, hid.trans hs.2⟩
  exact hboth.2

/-! ## The closing transaction -/

/-- The balances are mirrored and the scripts exchanged. -/
structure Mirrored (ours theirs : Script) (a b : Channel) : Prop where
  balances : a.balancesFor true = (b.balancesFor true).swap
  holderA : a.holderShutdownScript = some ours
  counterpartyA : a.counterpartyShutdownScript = some theirs
  holderB : b.holderShutdownScript = some theirs
  counterpartyB : b.counterpartyShutdownScript = some ours

/-- What the closing transaction of fee `fee` leaves to opener and accepter, seen from the opener. -/
def closingAmounts (a : Channel) (fee : Nat) : Nat × Nat :=
  (Msat.toSatFloor (a.balancesFor true).1 - fee, Msat.toSatFloor (a.balancesFor true).2)

/-- The smallest output of a closing transaction. -/
def closingDust (ch : Channel) : Nat := max ch.params.holderDustLimitSat 546

/-- `build_and_sign_closing` once the transaction is known. -/
def signClosing (C : Crypto) (signer : ChannelSigner) (redeemscript : Script) (amount : Nat)
    (tx : Transaction) : ChannelResult (Transaction × Signature) :=
  if tx.output ≠ [] then
    .ok (tx, signer.signWithFundingKey (tx.segwitV0Sighash C redeemscript amount))
  else .error (.err (.invalidState "closing tx would have no outputs"))

/-- Whoever signs, the transaction is the same. -/
theorem signClosing_fst (C : Crypto) (signer : ChannelSigner) (script : Script) (amount : Nat)
    (tx : Transaction) :
    (signClosing C signer script amount tx).map Prod.fst =
      if tx.output ≠ [] then .ok tx
      else .error (.err (.invalidState "closing tx would have no outputs")) := by
  unfold signClosing
  split <;> rfl

theorem signClosing_eq_ok {signer : ChannelSigner} {script : Script} {amount : Nat}
    {tx tx' : Transaction} {sig : Signature}
    (h : signClosing C signer script amount tx = .ok (tx', sig)) :
    tx.output ≠ [] ∧ sig = signer.signWithFundingKey (tx.segwitV0Sighash C script amount) := by
  unfold signClosing at h
  split at h
  · next hout =>
    cases h
    exact ⟨hout, rfl⟩
  · cases h

theorem buildAndSignClosing_eq {ours theirs : Script} {o : OutPoint} {cp : ChannelPublicKeys}
    (hours : ch.holderShutdownScript = some ours) (htheirs : ch.counterpartyShutdownScript = some theirs)
    (ho : ch.fundingOutpoint = some o) (hcp : ch.counterpartyPubkeys = some cp) (fee : Nat) :
    ch.buildAndSignClosing C fee = signClosing C ch.signer
      (fundingRedeemscript ch.holderPubkeys.fundingPubkey cp.fundingPubkey) ch.fundingAmountSat
      (buildClosingTx o
        (if ch.role = .opener then Msat.toSatFloor (ch.balancesFor true).1 - fee
          else Msat.toSatFloor (ch.balancesFor true).1)
        (if ch.role = .opener then Msat.toSatFloor (ch.balancesFor true).2
          else Msat.toSatFloor (ch.balancesFor true).2 - fee) ours theirs ch.closingDust) := by
  have hsign : ∀ tx : Transaction, (do
      Fault.require (tx.output ≠ []) (.invalidState "closing tx would have no outputs")
      let sighash ← ch.fundingSighash C tx
      return (tx, ch.signer.signWithFundingKey sighash)) = signClosing C ch.signer
        (fundingRedeemscript ch.holderPubkeys.fundingPubkey cp.fundingPubkey) ch.fundingAmountSat tx := by
    intro tx
    rw [fundingSighash, Channel.counterparty, hcp, signClosing, Fault.require]
    split <;> rfl
  rw [buildAndSignClosing, hours, htheirs, ho]
  exact hsign _

/-! ## Both ends -/

/-- The ends build the same transaction for `fee`, or refuse alike, and accept each other's
signatures. -/
def SameClosing (C : Crypto) (a b : Channel) (fee : Nat) : Prop :=
  (a.buildAndSignClosing C fee).map Prod.fst = (b.buildAndSignClosing C fee).map Prod.fst ∧
    (∀ tx sig, a.buildAndSignClosing C fee = .ok (tx, sig) →
      b.verifyTheirClosingSig C fee sig = .ok ()) ∧
    ∀ tx sig, b.buildAndSignClosing C fee = .ok (tx, sig) →
      a.verifyTheirClosingSig C fee sig = .ok ()

section
variable {kA kB : InMemoryChannelSigner} {ours theirs : Script}

/-- What the two ends sign with. -/
abbrev Ends (C : Crypto) (kA kB : InMemoryChannelSigner) (a b : Channel) : Prop :=
  Counterparts (kA.toSigner C) (kB.toSigner C) a b

theorem Mirrored.amounts (hm : Mirrored ours theirs a b) (fee : Nat) :
    (Msat.toSatFloor (b.balancesFor true).2 - fee, Msat.toSatFloor (b.balancesFor true).1) =
      a.closingAmounts fee := by
  rw [closingAmounts, hm.balances]
  rfl

/-- The opener's closing transaction and its signature. -/
theorem Counterparts.closing_opener (h : Ends C kA kB a b) (hm : Mirrored ours theirs a b) {o : OutPoint}
    (ho : a.fundingOutpoint = some o) (fee : Nat) :
    a.buildAndSignClosing C fee = signClosing C (kA.toSigner C)
      (fundingRedeemscript (C.publicKey kA.fundingKey) (C.publicKey kB.fundingKey)) a.fundingAmountSat
      (buildClosingTx o (a.closingAmounts fee).1 (a.closingAmounts fee).2 ours theirs
        a.closingDust) := by
  rw [buildAndSignClosing_eq hm.holderA hm.counterpartyA ho h.counterpartyA, h.signsA, h.keysA,
    if_pos h.opener, if_pos h.opener]
  rfl

/-- The accepter's. -/
theorem Counterparts.closing_accepter (h : Ends C kA kB a b) (hm : Mirrored ours theirs a b)
    {o : OutPoint} (ho : b.fundingOutpoint = some o) (fee : Nat) :
    b.buildAndSignClosing C fee = signClosing C (kB.toSigner C)
      (fundingRedeemscript (C.publicKey kA.fundingKey) (C.publicKey kB.fundingKey)) a.fundingAmountSat
      (buildClosingTx o (a.closingAmounts fee).2 (a.closingAmounts fee).1 theirs ours
        b.closingDust) := by
  have hrole : b.role ≠ .opener := fun hr => nomatch h.accepter.symm.trans hr
  rw [buildAndSignClosing_eq hm.holderB hm.counterpartyB ho h.counterpartyB, h.signsB, h.keysB,
    if_neg hrole, if_neg hrole, ← hm.amounts fee, fundingRedeemscript_comm, h.amount]
  rfl

/-- What an end verifies: the other's signature of its own transaction. -/
theorem verifyTheirClosingSig_eq {signer : ChannelSigner} {cp : ChannelPublicKeys} {script : Script}
    {amount fee : Nat} {tx : Transaction} (hbuild : ch.buildAndSignClosing C fee =
      signClosing C signer script amount tx) (hcp : ch.counterpartyPubkeys = some cp)
    (hscript : fundingRedeemscript ch.holderPubkeys.fundingPubkey cp.fundingPubkey = script)
    (hamount : ch.fundingAmountSat = amount) (hout : tx.output ≠ []) {sig : Signature}
    (hsig : C.verifyEcdsa (tx.segwitV0Sighash C script amount) sig cp.fundingPubkey = true) :
    ch.verifyTheirClosingSig C fee sig = .ok () := by
  subst hscript hamount
  have hsighash : ch.fundingSighash C tx = .ok (tx.segwitV0Sighash C
      (fundingRedeemscript ch.holderPubkeys.fundingPubkey cp.fundingPubkey) ch.fundingAmountSat) := by
    rw [fundingSighash, Channel.counterparty, hcp]
    rfl
  simp only [verifyTheirClosingSig, Fault.bind_eq_ok, Fault.require_eq_ok]
  refine ⟨_, hbuild.trans (if_pos hout), cp, ?_, _, hsighash, hsig⟩
  rw [Channel.counterparty, hcp]
  rfl

/-- Both ends build the same closing transaction for a fee, and accept each other's signatures of it,
exactly where their dust limits agree about both outputs. -/
theorem closing_transactions_agree_iff (hC : C.VerifiesSigned)
    (hopen : Opened C (kA.toSigner C) (kB.toSigner C) a₀ b₀) (ha : a.identity = a₀.identity)
    (hb : b.identity = b₀.identity) (hm : Mirrored ours theirs a b) (fee : Nat) :
    SameClosing C a b fee ↔
      ((max a.params.holderDustLimitSat 546 ≤ (a.closingAmounts fee).1 ↔
        max b.params.holderDustLimitSat 546 ≤ (a.closingAmounts fee).1) ∧
      (max a.params.holderDustLimitSat 546 ≤ (a.closingAmounts fee).2 ↔
        max b.params.holderDustLimitSat 546 ≤ (a.closingAmounts fee).2)) := by
  have h : Ends C kA kB a b := hopen.counterparts.1.congr ha hb
  obtain ⟨o, hoA, hoB⟩ := h.funding
  have hbuildA := h.closing_opener hm hoA fee
  have hbuildB := h.closing_accepter hm hoB fee
  rw [show max a.params.holderDustLimitSat 546 = a.closingDust from rfl,
    show max b.params.holderDustLimitSat 546 = b.closingDust from rfl,
    ← buildClosingTx_eq_iff o _ _ ours theirs]
  constructor
  · intro hsame
    have hfst := hsame.1
    rw [hbuildA, hbuildB, signClosing_fst, signClosing_fst] at hfst
    split at hfst
    · split at hfst
      · exact Except.ok.inj hfst
      · cases hfst
    · next hA =>
      split at hfst
      · cases hfst
      · next hB =>
        -- Neither has outputs, and nothing else can differ.
        exact Transaction.mk.injEq .. ▸ ⟨rfl, rfl, rfl, (not_not.1 hA).trans (not_not.1 hB).symm⟩
  · intro htx
    rw [← htx] at hbuildB
    refine ⟨?_, fun tx sig hsigned => ?_, fun tx sig hsigned => ?_⟩
    · rw [hbuildA, hbuildB, signClosing_fst, signClosing_fst]
    · obtain ⟨hout, rfl⟩ := signClosing_eq_ok (hbuildA.symm.trans hsigned)
      refine verifyTheirClosingSig_eq hbuildB h.counterpartyB ?_ h.amount.symm hout (hC _ _)
      rw [h.keysB]
      exact fundingRedeemscript_comm _ _
    · obtain ⟨hout, rfl⟩ := signClosing_eq_ok (hbuildB.symm.trans hsigned)
      refine verifyTheirClosingSig_eq hbuildA h.counterpartyA ?_ rfl hout (hC _ _)
      rw [h.keysA]
      rfl

end

end Channel

/-! ## A concrete pair -/

namespace Demo

open Channel

/-- A key is a byte before its secret. -/
theorem publicKey_bytes (sk : SecretKey) :
    (C.publicKey sk).serialize.drop 1 = sk.bytes.toList := by
  show Bytes.beBytes 32 (Bytes.beVal sk.bytes.toList) = sk.bytes.toList
  have hbytes := Bytes.beBytes_beVal sk.bytes.toList
  rwa [show sk.bytes.toList.length = 32 by simp] at hbytes

theorem verifiesSigned : C.VerifiesSigned := by
  intro sk digest
  have hsig : (C.signEcdsa sk digest).bytes.toList = sk.bytes.toList ++ digest.toList := by
    simp [C, Crypto.transparent, Crypto.Transparent.sign, Vector.toList]
  show decide (_ ∧ _) = true
  rw [decide_eq_true_eq, hsig, publicKey_bytes]
  simp

/-- An accepter with a thousand satoshi and a dust limit of two thousand. -/
def dusty : OpeningChoices :=
  { configA := {}, configB := { dustLimitSat := 2000 }, network := .regtest
    temporaryChannelId := bytes 7, fundingAmountSat := 1000000, pushMsat := 1000000, feerate := 1000
    fundingTxid := bytes 9, fundingOutputIndex := 0 }

/-- The keys of party `n`. -/
def keys (n : Nat) : InMemoryChannelSigner :=
  ⟨⟨bytes (100 * n + 1)⟩, ⟨bytes (100 * n + 2)⟩, ⟨bytes (100 * n + 3)⟩, ⟨bytes (100 * n + 4)⟩,
    ⟨bytes (100 * n + 5)⟩, bytes (100 * n + 6)⟩

def closingScript : Script := [0x00, 2, 1, 2]

/-- The inputs of a shutdown at one end. -/
def shutsDown : List Channel.Input :=
  [.sendShutdown closingScript,
    .shutdown ⟨channelIdFromFunding (bytes 9) 0, closingScript⟩ closingScript]

/-- Both ends shut down after the opening `o`. -/
theorem closing_pair (o : OpeningChoices) (P : Channel → Channel → Prop) [∀ a b, Decidable (P a b)]
    (h : ((openPair C (signer 1) (signer 2) o).any fun ab =>
      (Run.exec (step C) ab.1 shutsDown).any fun ra =>
        (Run.exec (step C) ab.2 shutsDown).any fun rb => P ra.2 rb.2) = true) :
    ∃ a₀ b₀ tr a tr' b, Opened C (signer 1) (signer 2) a₀ b₀ ∧ Run (step C) a₀ tr a ∧
      Run (step C) b₀ tr' b ∧ P a b := by
  obtain ⟨⟨a₀, b₀⟩, hopen, h⟩ := (Option.any_eq_true _ _).1 h
  obtain ⟨ra, hra, h⟩ := (Option.any_eq_true _ _).1 h
  obtain ⟨rb, hrb, h⟩ := (Option.any_eq_true _ _).1 h
  exact ⟨a₀, b₀, ra.1, ra.2, rb.1, rb.2, ⟨o, hopen⟩, Run.of_exec hra, Run.of_exec hrb,
    of_decide_eq_true h⟩

end Demo

namespace Channel

/-- What `Mirrored` says, computed. -/
theorem mirrored_iff {ours theirs : Script} : Mirrored ours theirs a b ↔
    a.balancesFor true = (b.balancesFor true).swap ∧ a.holderShutdownScript = some ours ∧
      a.counterpartyShutdownScript = some theirs ∧ b.holderShutdownScript = some theirs ∧
      b.counterpartyShutdownScript = some ours :=
  ⟨fun h => ⟨h.1, h.2, h.3, h.4, h.5⟩, fun h => ⟨h.1, h.2.1, h.2.2.1, h.2.2.2.1, h.2.2.2.2⟩⟩

instance {ours theirs : Script} : Decidable (Mirrored ours theirs a b) :=
  decidable_of_iff _ mirrored_iff.symm

/-- The default configurations agree about every fee. -/
theorem closing_transactions_agree_demo : ∃ a b : Channel,
    Mirrored Demo.closingScript Demo.closingScript a b ∧ SameClosing Demo.C a b 714 := by
  obtain ⟨a₀, b₀, tr, a, tr', b, hopen, hra, hrb, hm, hdust⟩ := Demo.closing_pair
    { Demo.dusty with configB := {} }
    (fun a b => Mirrored Demo.closingScript Demo.closingScript a b ∧
      a.params.holderDustLimitSat = b.params.holderDustLimitSat) (by decide +kernel)
  obtain ⟨-, hrankA, hrankB⟩ := hopen.counterparts
  have hsigned : Opened Demo.C ((Demo.keys 1).toSigner Demo.C) ((Demo.keys 2).toSigner Demo.C) a₀ b₀ :=
    hopen
  refine ⟨a, b, hm, ?_⟩
  refine (closing_transactions_agree_iff Demo.verifiesSigned hsigned (identity_of_run hrankA hra)
    (identity_of_run hrankB hrb) hm 714).2 ?_
  rw [hdust]
  exact ⟨Iff.rfl, Iff.rfl⟩

/-- The accepter with a dust limit of two thousand drops its thousand satoshi, the opener does not. -/
theorem closing_transactions_differ : ∃ a₀ b₀ tr a tr' b,
    Opened Demo.C (Demo.signer 1) (Demo.signer 2) a₀ b₀ ∧ Run (step Demo.C) a₀ tr a ∧
    Run (step Demo.C) b₀ tr' b ∧ Mirrored Demo.closingScript Demo.closingScript a b ∧
    ¬ SameClosing Demo.C a b 714 := by
  obtain ⟨a₀, b₀, tr, a, tr', b, hopen, hra, hrb, hm, hlengthA, hlengthB⟩ := Demo.closing_pair
    Demo.dusty
    (fun a b => Mirrored Demo.closingScript Demo.closingScript a b ∧
      ((a.buildAndSignClosing Demo.C 714).toOption.map fun r => r.1.output.length) = some 2 ∧
      ((b.buildAndSignClosing Demo.C 714).toOption.map fun r => r.1.output.length) = some 1)
    (by decide +kernel)
  refine ⟨a₀, b₀, tr, a, tr', b, hopen, hra, hrb, hm, fun hsame => ?_⟩
  obtain ⟨ra, hra, hlenA⟩ := Option.map_eq_some_iff.1 hlengthA
  obtain ⟨rb, hrb, hlenB⟩ := Option.map_eq_some_iff.1 hlengthB
  have hfst := hsame.1
  rw [Fault.toOption_eq_some.1 hra, Fault.toOption_eq_some.1 hrb] at hfst
  have htx : ra.1 = rb.1 := Except.ok.inj hfst
  rw [htx, hlenB] at hlenA
  cases hlenA

end Channel
