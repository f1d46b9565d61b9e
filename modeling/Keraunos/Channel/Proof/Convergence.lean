import Keraunos.Channel.Proof.ClosingFees

/-!
# The fee negotiation converges

The opener proposes, the accepter answers inside the overlap of the two ranges, the opener takes what is
in its range, and whoever is not done yet sees its own fee echoed. `closing_converges` follows the
messages through both ends: at most three, and both ends hold the same transaction.
-/

open Bitcoin Commitment

namespace Crypto

/-- Distinct secret keys have distinct public keys. -/
def DistinctKeys (C : Crypto) : Prop := ∀ sk sk', C.publicKey sk = C.publicKey sk' → sk = sk'

end Crypto

/-- The two ends assemble the same witness: signatures come in the order of the keys. -/
theorem Commitment.fundingSpendWitness_comm (C : Crypto) {k k' : PublicKey} {sig sig' : Signature}
    (h : k = k' → sig = sig') :
    fundingSpendWitness C k' k sig' sig = fundingSpendWitness C k k' sig sig' := by
  unfold fundingSpendWitness
  rw [fundingRedeemscript_comm k' k]
  by_cases hle : bytesLe k.serialize k'.serialize = true
  · by_cases hge : bytesLe k'.serialize k.serialize = true
    · rw [h (PublicKey.serialize_inj (bytesLe_antisymm hle hge))]
      simp only [hle, hge, if_true]
    · simp only [hle, hge, if_true]
      rfl
  · have hge := (bytesLe_total k.serialize k'.serialize).resolve_left hle
    simp only [hle, hge, if_true]
    rfl

namespace Channel

variable {C : Crypto} {ch a a₀ b b₀ : Channel} {f : FeeRatePerKw}

/-! ## The exchange -/

/-- `closing_signed` messages back and forth, the first for the end `s`: the pair once one of at most
`n` messages has completed the negotiation. -/
def closingExchange (C : Crypto) (target : Side → FeeRatePerKw) :
    Nat → Side → Wire.ClosingSigned → Pair → Option Pair
  | 0, _, _, _ => none
  | n + 1, s, msg, p =>
    match onClosingSigned C msg (target s) (p.chan s) with
    | .ok (.reply reply _) ch => closingExchange C target n s.other reply (p.setChan s ch)
    | .ok (.done _) ch => some (p.setChan s ch)
    | .error _ _ => none

/-! ## One end -/

/-- The end signs the transaction `tx` of fee `fee` with `ours` and takes `theirs` for it. -/
structure SignsClosing (C : Crypto) (ch : Channel) (fee : Nat) (tx : Transaction)
    (ours theirs : Signature) : Prop where
  build : ch.buildAndSignClosing C fee = .ok (tx, ours)
  verify : ch.verifyTheirClosingSig C fee theirs = .ok ()

/-- The transaction with its witness, as an end assembles it. -/
def finalTx (C : Crypto) (ch : Channel) (cp : ChannelPublicKeys) (tx : Transaction)
    (ours theirs : Signature) : Transaction :=
  { tx with input := tx.input.modifyHead ({ · with
    witness := fundingSpendWitness C ch.holderPubkeys.fundingPubkey cp.fundingPubkey ours theirs }) }

section
variable {fee : Nat} {tx : Transaction} {ours theirs : Signature} {cp : ChannelPublicKeys}

theorem finalizeClosing_eq (h : SignsClosing C ch fee tx ours theirs)
    (hcp : ch.counterpartyPubkeys = some cp) :
    finalizeClosing C fee theirs ch = .ok (finalTx C ch cp tx ours theirs)
      { ch with closingTx := some (finalTx C ch cp tx ours theirs), state := .closed } := by
  show (Act.lift (ch.buildAndSignClosing C fee) >>= _) ch = _
  rw [h.build]
  show (Act.lift ch.counterparty >>= _) ch = _
  rw [Channel.counterparty, hcp]
  rfl

/-- An end that closes at `fee` and echoes it. -/
theorem acceptClosingFee_eq (h : SignsClosing C ch fee tx ours theirs)
    (hcp : ch.counterpartyPubkeys = some cp) (range : Option (Nat × Nat)) :
    acceptClosingFee C fee theirs range ch =
      .ok (.reply ⟨ch.channelId, fee, ours, range.map fun r => ⟨r.1, r.2⟩⟩
          (some (finalTx C ch cp tx ours theirs)))
        { ch with closingTx := some (finalTx C ch cp tx ours theirs), state := .closed } := by
  have hfinal := finalizeClosing_eq h hcp
  have hmsg : Channel.closingSigned C
      { ch with closingTx := some (finalTx C ch cp tx ours theirs), state := .closed } fee range =
        .ok ⟨ch.channelId, fee, ours, range.map fun r => ⟨r.1, r.2⟩⟩ := by
    show (ch.buildAndSignClosing C fee >>= _) = _
    rw [h.build]
    rfl
  unfold acceptClosingFee
  rw [Act.bind_of_ok hfinal]
  show (Act.lift (Channel.closingSigned C _ fee range) >>= _) _ = _
  rw [hmsg]
  rfl

theorem proposeClosingFee_eq (h : ch.buildAndSignClosing C fee = .ok (tx, ours))
    (range : Option (Nat × Nat)) :
    proposeClosingFee C fee range ch =
      .ok (.reply ⟨ch.channelId, fee, ours, range.map fun r => ⟨r.1, r.2⟩⟩ none) ch := by
  show (Act.lift (ch.buildAndSignClosing C fee >>= _) >>= _) ch = _
  rw [h]
  rfl

theorem negotiating_ready (h : ch.readyToNegotiateClose = true) (last : Option Nat) :
    Channel.readyToNegotiateClose
      { ch with state := .negotiatingClose, lastClosingFeeProposal := last } = true := by
  simp only [readyToNegotiateClose, Bool.and_eq_true, Bool.or_eq_true, decide_eq_true_eq] at h ⊢
  exact ⟨⟨⟨⟨⟨⟨.inr trivial, h.1.1.1.1.1.2⟩, h.1.1.1.1.2⟩, h.1.1.1.2⟩, h.1.1.2⟩, h.1.2⟩, h.2⟩

/-- Our own fee comes back: the end is done. -/
theorem onClosingSigned_echo {msg : Wire.ClosingSigned} (hready : ch.readyToNegotiateClose = true)
    (h : SignsClosing C ch msg.feeSatoshis tx ours msg.signature)
    (hcp : ch.counterpartyPubkeys = some cp)
    (hlast : ch.lastClosingFeeProposal = some msg.feeSatoshis) :
    ∃ ch', onClosingSigned C msg f ch = .ok (.done (finalTx C ch cp tx ours msg.signature)) ch' ∧
      ch'.state = .closed ∧ ch'.closingTx = some (finalTx C ch cp tx ours msg.signature) := by
  have hneg : SignsClosing C ch.negotiating msg.feeSatoshis tx ours msg.signature := ⟨h.build, h.verify⟩
  have hfinal := finalizeClosing_eq hneg hcp
  refine ⟨{ ch with
    closingTx := some (finalTx C ch cp tx ours msg.signature), state := .closed }, ?_, rfl, rfl⟩
  show (Act.lift (Fault.require (ch.readyToNegotiateClose = true) _) >>= _) ch = _
  rw [Fault.require_of hready]
  show (Act.lift (ch.verifyTheirClosingSig C msg.feeSatoshis msg.signature) >>= _) ch.negotiating = _
  rw [h.verify]
  show (if some msg.feeSatoshis = ch.lastClosingFeeProposal then _ else _ : ChannelAct _)
    ch.negotiating = _
  rw [if_pos hlast.symm, Act.bind_of_ok hfinal]
  rfl

/-- Another fee, with a range. -/
theorem onClosingSigned_range {msg : Wire.ClosingSigned} {bounds : Nat × Nat × Nat}
    {range : Wire.ClosingSignedFeeRange} (hready : ch.readyToNegotiateClose = true)
    (hverify : ch.verifyTheirClosingSig C msg.feeSatoshis msg.signature = .ok ())
    (hlast : ch.lastClosingFeeProposal ≠ some msg.feeSatoshis)
    (hbounds : ch.closingFeeBounds f = some bounds) (hrange : msg.feeRange = some range) :
    onClosingSigned C msg f ch = negotiateInRange C msg bounds range ch.negotiating := by
  show (Act.lift (Fault.require (ch.readyToNegotiateClose = true) _) >>= _) ch = _
  rw [Fault.require_of hready]
  show (Act.lift (ch.verifyTheirClosingSig C msg.feeSatoshis msg.signature) >>= _) ch.negotiating = _
  rw [hverify]
  show (if some msg.feeSatoshis = ch.lastClosingFeeProposal then _ else _ : ChannelAct _)
    ch.negotiating = _
  rw [if_neg hlast.symm]
  show (Act.expect (ch.closingFeeBounds f) >>= _) ch.negotiating = _
  rw [hbounds]
  cases msg
  cases hrange
  rfl

/-- The accepter answers with its fee inside the overlap. -/
theorem negotiateInRange_accepter {msg : Wire.ClosingSigned} (bounds : Nat × Nat × Nat)
    (range : Wire.ClosingSignedFeeRange) (hrole : ch.role ≠ .opener)
    (hlast : ch.lastClosingFeeProposal = none)
    (hoverlap : max bounds.2.1 range.minFeeSatoshis ≤ min bounds.2.2 range.maxFeeSatoshis) :
    negotiateInRange C msg bounds range ch =
      (if overlapFee bounds range = msg.feeSatoshis then
        acceptClosingFee C (overlapFee bounds range) msg.signature (some bounds.2)
      else proposeClosingFee C (overlapFee bounds range) (some bounds.2))
        { ch with lastClosingFeeProposal := some (overlapFee bounds range) } := by
  have hclamp : clamp bounds.1 (max bounds.2.1 range.minFeeSatoshis)
      (min bounds.2.2 range.maxFeeSatoshis) = some (overlapFee bounds range) := if_pos hoverlap
  show (Act.lift (Fault.require (max bounds.2.1 range.minFeeSatoshis ≤
    min bounds.2.2 range.maxFeeSatoshis) _) >>= _) ch = _
  rw [Fault.require_of hoverlap]
  show (if ch.role = .opener then _ else _ : ChannelAct _) ch = _
  rw [if_neg hrole, hlast]
  show (Act.expect (clamp bounds.1 _ _) >>= _) ch = _
  rw [hclamp]
  rfl

/-- The opener takes a fee in both ranges and echoes it. -/
theorem negotiateInRange_opener {msg : Wire.ClosingSigned} (bounds : Nat × Nat × Nat)
    (range : Wire.ClosingSignedFeeRange) (hrole : ch.role = .opener)
    (hlo : max bounds.2.1 range.minFeeSatoshis ≤ msg.feeSatoshis)
    (hhi : msg.feeSatoshis ≤ min bounds.2.2 range.maxFeeSatoshis)
    (h : SignsClosing C ch msg.feeSatoshis tx ours msg.signature)
    (hcp : ch.counterpartyPubkeys = some cp) :
    ∃ ch', negotiateInRange C msg bounds range ch =
        .ok (.reply ⟨ch.channelId, msg.feeSatoshis, ours, some ⟨bounds.2.1, bounds.2.2⟩⟩
          (some (finalTx C ch cp tx ours msg.signature))) ch' ∧
      ch'.state = .closed ∧ ch'.closingTx = some (finalTx C ch cp tx ours msg.signature) := by
  have haccept := acceptClosingFee_eq h hcp (some bounds.2)
  refine ⟨{ ch with
    closingTx := some (finalTx C ch cp tx ours msg.signature), state := .closed
    lastClosingFeeProposal := some msg.feeSatoshis }, ?_, rfl, rfl⟩
  show (Act.lift (Fault.require (max bounds.2.1 range.minFeeSatoshis ≤
    min bounds.2.2 range.maxFeeSatoshis) _) >>= _) ch = _
  rw [Fault.require_of (Nat.le_trans hlo hhi)]
  show (if ch.role = .opener then _ else _ : ChannelAct _) ch = _
  rw [if_pos hrole]
  show (Act.lift (Fault.require (max bounds.2.1 range.minFeeSatoshis ≤ msg.feeSatoshis ∧
    msg.feeSatoshis ≤ min bounds.2.2 range.maxFeeSatoshis) _) >>= _) ch = _
  rw [Fault.require_of ⟨hlo, hhi⟩]
  show (acceptClosingFee C msg.feeSatoshis msg.signature (some bounds.2) >>= _) ch = _
  rw [Act.bind_of_ok haccept]
  rfl

/-- The opener's first proposal. -/
theorem maybeSendClosingSigned_eq {bounds : Nat × Nat × Nat}
    (hready : ch.readyToNegotiateClose = true) (hrole : ch.role = .opener)
    (hlast : ch.lastClosingFeeProposal = none) (hbounds : ch.closingFeeBounds f = some bounds)
    (hbuild : ch.buildAndSignClosing C bounds.1 = .ok (tx, ours)) :
    maybeSendClosingSigned C f ch =
      .ok (some ⟨ch.channelId, bounds.1, ours, some ⟨bounds.2.1, bounds.2.2⟩⟩)
        { ch with state := .negotiatingClose, lastClosingFeeProposal := some bounds.1 } := by
  have hskip : ¬ ((!ch.readyToNegotiateClose) = true ∨ ch.role ≠ .opener ∨
      ch.lastClosingFeeProposal.isSome = true) := by
    simp [hready, hrole, hlast]
  show (if (!ch.readyToNegotiateClose) = true ∨ ch.role ≠ .opener ∨
    ch.lastClosingFeeProposal.isSome = true then _ else _ : ChannelAct _) ch = _
  rw [if_neg hskip]
  show (Act.expect (ch.closingFeeBounds f) >>= _) ch = _
  rw [hbounds]
  show (Act.lift (ch.buildAndSignClosing C bounds.1 >>= _) >>= _) ch = _
  rw [hbuild]
  rfl

end

/-! ## Both ends -/

section
variable {kA kB : InMemoryChannelSigner} {ours theirs : Script} {fee : Nat}

/-- The closing transaction of fee `fee` keeps an output. -/
def KeepsOutput (a : Channel) (fee : Nat) : Prop :=
  a.closingDust ≤ (a.closingAmounts fee).1 ∨ a.closingDust ≤ (a.closingAmounts fee).2

/-- With one dust limit both ends sign the same transaction. -/
theorem Counterparts.sign_both (hC : C.VerifiesSigned) (hkeys : C.DistinctKeys) (h : Ends C kA kB a b)
    (hm : Mirrored ours theirs a b) (hdust : a.closingDust = b.closingDust) (hkeeps : a.KeepsOutput fee) :
    ∃ tx sigA sigB, SignsClosing C a fee tx sigA sigB ∧ SignsClosing C b fee tx sigB sigA ∧
      ∃ cpA cpB, a.counterpartyPubkeys = some cpA ∧ b.counterpartyPubkeys = some cpB ∧
        finalTx C b cpB tx sigB sigA = finalTx C a cpA tx sigA sigB := by
  obtain ⟨o, hoA, hoB⟩ := h.funding
  have hbuildA := h.closing_opener hm hoA fee
  have hbuildB := h.closing_accepter hm hoB fee
  have htx := (buildClosingTx_eq_iff o (a.closingAmounts fee).1 (a.closingAmounts fee).2 ours theirs
    a.closingDust b.closingDust).2 (by rw [hdust]; exact ⟨Iff.rfl, Iff.rfl⟩)
  rw [← htx] at hbuildB
  generalize htx' : buildClosingTx o _ _ ours theirs a.closingDust = tx at hbuildA hbuildB
  have hout : tx.output ≠ [] := by
    intro hnil
    have hlength := congrArg List.length hnil
    rw [← htx', buildClosingTx, List.length_insertionSort, List.length_append] at hlength
    rcases hkeeps with hk | hk
    · rw [if_pos hk] at hlength
      simp at hlength
    · rw [if_pos hk] at hlength
      simp at hlength
  have hcommB := fundingRedeemscript_comm (C.publicKey kB.fundingKey) (C.publicKey kA.fundingKey)
  have hscriptA : fundingRedeemscript a.holderPubkeys.fundingPubkey (kB.toSigner C).pubkeys.fundingPubkey =
      fundingRedeemscript (C.publicKey kA.fundingKey) (C.publicKey kB.fundingKey) := by
    rw [h.keysA]
    rfl
  have hscriptB : fundingRedeemscript b.holderPubkeys.fundingPubkey (kA.toSigner C).pubkeys.fundingPubkey =
      fundingRedeemscript (C.publicKey kA.fundingKey) (C.publicKey kB.fundingKey) := by
    rw [h.keysB]
    exact hcommB
  refine ⟨tx, _, _, ⟨hbuildA.trans (if_pos hout), ?_⟩, ⟨hbuildB.trans (if_pos hout), ?_⟩,
    _, _, h.counterpartyA, h.counterpartyB, ?_⟩
  · exact verifyTheirClosingSig_eq hbuildA h.counterpartyA hscriptA rfl hout (hC _ _)
  · exact verifyTheirClosingSig_eq hbuildB h.counterpartyB hscriptB h.amount.symm hout (hC _ _)
  · rw [finalTx, finalTx, h.keysA, h.keysB]
    refine congrArg (fun w => { tx with input := tx.input.modifyHead ({ · with witness := w }) }) ?_
    refine fundingSpendWitness_comm C fun heq => ?_
    show C.signEcdsa kA.fundingKey _ = C.signEcdsa kB.fundingKey _
    rw [hkeys _ _ heq]

theorem overlapFee_mem (bounds : Nat × Nat × Nat) (range : Wire.ClosingSignedFeeRange)
    (h : max bounds.2.1 range.minFeeSatoshis ≤ min bounds.2.2 range.maxFeeSatoshis) :
    max bounds.2.1 range.minFeeSatoshis ≤ overlapFee bounds range ∧
      overlapFee bounds range ≤ min bounds.2.2 range.maxFeeSatoshis := by
  unfold overlapFee
  omega

/-- Two ends that are ready to close and sign alike. -/
structure Negotiators (C : Crypto) (a b : Channel) (cpA cpB : ChannelPublicKeys) : Prop where
  readyA : a.readyToNegotiateClose = true
  readyB : b.readyToNegotiateClose = true
  opener : a.role = .opener
  accepter : b.role ≠ .opener
  lastA : a.lastClosingFeeProposal = none
  lastB : b.lastClosingFeeProposal = none
  keysA : a.counterpartyPubkeys = some cpA
  keysB : b.counterpartyPubkeys = some cpB

section
variable {cpA cpB : ChannelPublicKeys} {target : Side → FeeRatePerKw} {bA bB : Nat × Nat × Nat}
  {tx tx' : Transaction} {sigA sigB sigA' sigB' : Signature}

/-- The negotiation from the first proposal on: both ends are closed with the transaction `tx`. -/
def Concludes (C : Crypto) (target : Side → FeeRatePerKw) (a b : Channel) (tx : Transaction) : Prop :=
  ∃ msg a₁ p, maybeSendClosingSigned C (target .a) a = .ok (some msg) a₁ ∧
    closingExchange C target 3 .b msg ⟨a₁, b, [], []⟩ = some p ∧
    p.chanA.state = .closed ∧ p.chanB.state = .closed ∧
    p.chanA.closingTx = some tx ∧ p.chanB.closingTx = some tx

/-- The accepter agrees at once: two messages. -/
theorem Negotiators.agree (h : Negotiators C a b cpA cpB)
    (hbA : a.closingFeeBounds (target .a) = some bA) (hbB : b.closingFeeBounds (target .b) = some bB)
    (hoverlap : max bB.2.1 bA.2.1 ≤ min bB.2.2 bA.2.2)
    (hA : SignsClosing C a bA.1 tx sigA sigB) (hB : SignsClosing C b bA.1 tx sigB sigA)
    (hsame : finalTx C b cpB tx sigB sigA = finalTx C a cpA tx sigA sigB)
    (hfee : overlapFee bB ⟨bA.2.1, bA.2.2⟩ = bA.1) :
    Concludes C target a b (finalTx C a cpA tx sigA sigB) := by
  let a₁ : Channel := { a with state := .negotiatingClose, lastClosingFeeProposal := some bA.1 }
  let b₁ : Channel := { b.negotiating with lastClosingFeeProposal := some bA.1 }
  let msg : Wire.ClosingSigned := ⟨a.channelId, bA.1, sigA, some ⟨bA.2.1, bA.2.2⟩⟩
  let reply : Wire.ClosingSigned := ⟨b.channelId, bA.1, sigB, some ⟨bB.2.1, bB.2.2⟩⟩
  have hsend : maybeSendClosingSigned C (target .a) a = .ok (some msg) a₁ :=
    maybeSendClosingSigned_eq h.readyA h.opener h.lastA hbA hA.build
  have haccept : onClosingSigned C msg (target .b) b = .ok
      (.reply reply (some (finalTx C b cpB tx sigB sigA)))
      { b₁ with closingTx := some (finalTx C b cpB tx sigB sigA), state := .closed } := by
    have hlast : b.lastClosingFeeProposal ≠ some msg.feeSatoshis := by
      rw [h.lastB]
      nofun
    have hrole : b.negotiating.role ≠ .opener := h.accepter
    have hB₁ : SignsClosing C b₁ bA.1 tx sigB sigA := ⟨hB.build, hB.verify⟩
    have hkeysB₁ : b₁.counterpartyPubkeys = some cpB := h.keysB
    have hverify : b.verifyTheirClosingSig C msg.feeSatoshis msg.signature = .ok () := hB.verify
    have hrange : msg.feeRange = some ⟨bA.2.1, bA.2.2⟩ := rfl
    rw [onClosingSigned_range h.readyB hverify hlast hbB hrange,
      negotiateInRange_accepter bB ⟨bA.2.1, bA.2.2⟩ hrole h.lastB hoverlap, hfee, if_pos rfl]
    exact acceptClosingFee_eq hB₁ hkeysB₁ (some bB.2)
  have hA₁ : SignsClosing C a₁ reply.feeSatoshis tx sigA reply.signature := ⟨hA.build, hA.verify⟩
  have hready₁ : a₁.readyToNegotiateClose = true := negotiating_ready h.readyA _
  have hkeys₁ : a₁.counterpartyPubkeys = some cpA := h.keysA
  have hlast₁ : a₁.lastClosingFeeProposal = some reply.feeSatoshis := rfl
  obtain ⟨a₂, hecho, hclosed, htx⟩ := onClosingSigned_echo (f := target .a) hready₁ hA₁ hkeys₁ hlast₁
  refine ⟨msg, a₁, ⟨a₂, { b₁ with
    closingTx := some (finalTx C b cpB tx sigB sigA), state := .closed }, [], []⟩, hsend, ?_, hclosed,
    rfl, htx, congrArg some hsame⟩
  show (match onClosingSigned C msg (target .b) b with
    | .ok (.reply r _) ch => closingExchange C target 2 .a r ⟨a₁, ch, [], []⟩
    | .ok (.done _) ch => some ⟨a₁, ch, [], []⟩
    | .error _ _ => none) = _
  rw [haccept]
  show (match onClosingSigned C reply (target .a) a₁ with
    | .ok (.reply r _) ch => closingExchange C target 1 .b r ⟨ch, _, [], []⟩
    | .ok (.done _) ch => some ⟨ch, _, [], []⟩
    | .error _ _ => none) = _
  rw [hecho]

/-- The accepter answers with another fee, and the opener takes it: three messages. -/
theorem Negotiators.counter (h : Negotiators C a b cpA cpB)
    (hbA : a.closingFeeBounds (target .a) = some bA) (hbB : b.closingFeeBounds (target .b) = some bB)
    (hoverlap : max bB.2.1 bA.2.1 ≤ min bB.2.2 bA.2.2)
    (hA : SignsClosing C a bA.1 tx sigA sigB) (hB : SignsClosing C b bA.1 tx sigB sigA)
    {fee : Nat} (hfee : overlapFee bB ⟨bA.2.1, bA.2.2⟩ = fee) (hne : fee ≠ bA.1)
    (hA' : SignsClosing C a fee tx' sigA' sigB') (hB' : SignsClosing C b fee tx' sigB' sigA')
    (hsame : finalTx C b cpB tx' sigB' sigA' = finalTx C a cpA tx' sigA' sigB') :
    Concludes C target a b (finalTx C a cpA tx' sigA' sigB') := by
  let a₁ : Channel := { a with state := .negotiatingClose, lastClosingFeeProposal := some bA.1 }
  let b₁ : Channel := { b.negotiating with lastClosingFeeProposal := some fee }
  let msg : Wire.ClosingSigned := ⟨a.channelId, bA.1, sigA, some ⟨bA.2.1, bA.2.2⟩⟩
  let range : Wire.ClosingSignedFeeRange := ⟨bB.2.1, bB.2.2⟩
  let answer : Wire.ClosingSigned := ⟨b.channelId, fee, sigB', some range⟩
  let echo : Wire.ClosingSigned := ⟨a.channelId, fee, sigA', some ⟨bA.2.1, bA.2.2⟩⟩
  obtain ⟨hlo, hhi⟩ : max bB.2.1 bA.2.1 ≤ fee ∧ fee ≤ min bB.2.2 bA.2.2 := by
    rw [← hfee]
    exact overlapFee_mem bB ⟨bA.2.1, bA.2.2⟩ hoverlap
  have hsend : maybeSendClosingSigned C (target .a) a = .ok (some msg) a₁ :=
    maybeSendClosingSigned_eq h.readyA h.opener h.lastA hbA hA.build
  have hanswer : onClosingSigned C msg (target .b) b = .ok (.reply answer none) b₁ := by
    have hlast : b.lastClosingFeeProposal ≠ some msg.feeSatoshis := by
      rw [h.lastB]
      nofun
    have hrole : b.negotiating.role ≠ .opener := h.accepter
    have hverify : b.verifyTheirClosingSig C msg.feeSatoshis msg.signature = .ok () := hB.verify
    have hrange : msg.feeRange = some ⟨bA.2.1, bA.2.2⟩ := rfl
    rw [onClosingSigned_range h.readyB hverify hlast hbB hrange,
      negotiateInRange_accepter bB ⟨bA.2.1, bA.2.2⟩ hrole h.lastB hoverlap, hfee, if_neg hne]
    have hB₁ : Channel.buildAndSignClosing C b₁ fee = .ok (tx', sigB') := hB'.build
    exact proposeClosingFee_eq hB₁ (some bB.2)
  have htake : onClosingSigned C answer (target .a) a₁ =
      negotiateInRange C answer bA range a₁.negotiating := by
    have hlast : a₁.lastClosingFeeProposal ≠ some answer.feeSatoshis := by
      intro heq
      exact hne (Option.some.inj heq).symm
    have hready : a₁.readyToNegotiateClose = true := negotiating_ready h.readyA _
    have hverify : a₁.verifyTheirClosingSig C answer.feeSatoshis answer.signature = .ok () := hA'.verify
    have hbounds : a₁.closingFeeBounds (target .a) = some bA := hbA
    have hrange : answer.feeRange = some range := rfl
    exact onClosingSigned_range hready hverify hlast hbounds hrange
  have hA₁ : SignsClosing C a₁.negotiating answer.feeSatoshis tx' sigA' answer.signature :=
    ⟨hA'.build, hA'.verify⟩
  have hrole₁ : a₁.negotiating.role = .opener := h.opener
  have hkeysA₁ : a₁.negotiating.counterpartyPubkeys = some cpA := h.keysA
  have hlo₁ : max bA.2.1 range.minFeeSatoshis ≤ answer.feeSatoshis := by
    rw [max_comm]
    exact hlo
  have hhi₁ : answer.feeSatoshis ≤ min bA.2.2 range.maxFeeSatoshis := by
    rw [min_comm]
    exact hhi
  obtain ⟨a₂, hreply, hclosedA, htxA⟩ := negotiateInRange_opener bA range hrole₁ hlo₁ hhi₁ hA₁ hkeysA₁
  have hB₁ : SignsClosing C b₁ echo.feeSatoshis tx' sigB' echo.signature := ⟨hB'.build, hB'.verify⟩
  have hreadyB₁ : b₁.readyToNegotiateClose = true := negotiating_ready h.readyB _
  have hkeysB₁ : b₁.counterpartyPubkeys = some cpB := h.keysB
  have hlastB₁ : b₁.lastClosingFeeProposal = some echo.feeSatoshis := rfl
  obtain ⟨b₂, hecho, hclosedB, htxB⟩ := onClosingSigned_echo (f := target .b) hreadyB₁ hB₁ hkeysB₁ hlastB₁
  refine ⟨msg, a₁, ⟨a₂, b₂, [], []⟩, hsend, ?_, hclosedA, hclosedB, htxA,
    htxB.trans (congrArg some hsame)⟩
  show (match onClosingSigned C msg (target .b) b with
    | .ok (.reply r _) ch => closingExchange C target 2 .a r ⟨a₁, ch, [], []⟩
    | .ok (.done _) ch => some ⟨a₁, ch, [], []⟩
    | .error _ _ => none) = _
  rw [hanswer]
  show (match onClosingSigned C answer (target .a) a₁ with
    | .ok (.reply r _) ch => closingExchange C target 1 .b r ⟨ch, b₁, [], []⟩
    | .ok (.done _) ch => some ⟨ch, b₁, [], []⟩
    | .error _ _ => none) = _
  rw [htake, hreply]
  show (match onClosingSigned C echo (target .b) b₁ with
    | .ok (.reply r _) ch => closingExchange C target 0 .a r ⟨a₂, ch, [], []⟩
    | .ok (.done _) ch => some ⟨a₂, ch, [], []⟩
    | .error _ _ => none) = _
  rw [hecho]

end

/-- The negotiation of two ends of one channel that are ready to close, with ranges that overlap and one
dust limit, takes at most three messages. Both ends then hold the same transaction, of a fee in both
ranges. -/
theorem closing_converges (hC : C.VerifiesSigned) (hkeys : C.DistinctKeys)
    {trA trB : Trace Input ChannelError (List Wire.Message)} {target : Side → FeeRatePerKw}
    {bA bB : Nat × Nat × Nat} (hopen : Opened C (kA.toSigner C) (kB.toSigner C) a₀ b₀)
    (hrunA : Run (step C) a₀ trA a) (hrunB : Run (step C) b₀ trB b)
    (hreadyA : a.readyToNegotiateClose = true) (hreadyB : b.readyToNegotiateClose = true)
    (hlastA : a.lastClosingFeeProposal = none) (hlastB : b.lastClosingFeeProposal = none)
    (hm : Mirrored ours theirs a b)
    (hdust : max a.params.holderDustLimitSat 546 = max b.params.holderDustLimitSat 546)
    (hbA : a.closingFeeBounds (target .a) = some bA) (hbB : b.closingFeeBounds (target .b) = some bB)
    (hoverlap : max bB.2.1 bA.2.1 ≤ min bB.2.2 bA.2.2) (hkeepsA : a.KeepsOutput bA.1)
    (hkeeps : a.KeepsOutput (overlapFee bB ⟨bA.2.1, bA.2.2⟩)) :
    ∃ fee tx, Concludes C target a b tx ∧ a.ClosesAt C fee tx ∧
      (bA.2.1 ≤ fee ∧ fee ≤ bA.2.2) ∧ (bB.2.1 ≤ fee ∧ fee ≤ bB.2.2) := by
  obtain ⟨hends₀, hrankA, hrankB⟩ := hopen.counterparts
  have hends : Ends C kA kB a b :=
    hends₀.congr (identity_of_run hrankA hrunA) (identity_of_run hrankB hrunB)
  obtain ⟨tx, sigA, sigB, hA, hB, cpA, cpB, hcpA, hcpB, hsame⟩ :=
    hends.sign_both hC hkeys hm hdust hkeepsA
  obtain ⟨tx', sigA', sigB', hA', hB', cpA', cpB', hcpA', hcpB', hsame'⟩ :=
    hends.sign_both hC hkeys hm hdust hkeeps
  obtain rfl : cpA = cpA' := Option.some.inj (hcpA.symm.trans hcpA')
  obtain rfl : cpB = cpB' := Option.some.inj (hcpB.symm.trans hcpB')
  have hboth : Negotiators C a b cpA cpB :=
    ⟨hreadyA, hreadyB, hends.opener, (fun hr => nomatch hends.accepter.symm.trans hr), hlastA, hlastB,
      hcpA, hcpB⟩
  have hmem : max bB.2.1 bA.2.1 ≤ overlapFee bB ⟨bA.2.1, bA.2.2⟩ ∧
      overlapFee bB ⟨bA.2.1, bA.2.2⟩ ≤ min bB.2.2 bA.2.2 :=
    overlapFee_mem bB ⟨bA.2.1, bA.2.2⟩ hoverlap
  generalize hfee : overlapFee bB ⟨bA.2.1, bA.2.2⟩ = fee at hmem hA' hB'
  by_cases heq : fee = bA.1
  · have hconcludes := hboth.agree hbA hbB hoverlap hA hB hsame (hfee.trans heq)
    exact ⟨fee, _, hconcludes, ⟨_, heq ▸ hA.build, rfl⟩, by omega, by omega⟩
  · have hconcludes := hboth.counter hbA hbB hoverlap hA hB hfee heq hA' hB' hsame'
    exact ⟨fee, _, hconcludes, ⟨_, hA'.build, rfl⟩, by omega, by omega⟩

end

instance (fee : Nat) : Decidable (a.KeepsOutput fee) := inferInstanceAs (Decidable (_ ∨ _))

theorem Demo.distinctKeys : Demo.C.DistinctKeys := by
  intro sk sk' h
  have hbytes : sk.bytes.toList = sk'.bytes.toList := by
    rw [← Demo.publicKey_bytes, h, Demo.publicKey_bytes]
  cases sk
  cases sk'
  exact congrArg SecretKey.mk (Vector.toList_inj.1 hbytes)

/-- Targets of 1000 for the opener and 2000 for the accepter. -/
def Demo.target : Side → FeeRatePerKw
  | .a => 1000
  | .b => 2000

/-- The accepter raises the opener's 714 satoshi to 1428. -/
theorem closing_converges_demo : ∃ a b fee tx,
    Concludes Demo.C Demo.target a b tx ∧ a.ClosesAt Demo.C fee tx := by
  obtain ⟨a₀, b₀, trA, a, trB, b, hopen, hra, hrb, hreadyA, hreadyB, hlastA, hlastB, hm, hdust, hbA, hbB,
    hkeepsA, hkeeps⟩ := Demo.closing_pair { Demo.dusty with configB := {} }
    (fun a b => a.readyToNegotiateClose = true ∧ b.readyToNegotiateClose = true ∧
      a.lastClosingFeeProposal = none ∧ b.lastClosingFeeProposal = none ∧
      Mirrored Demo.closingScript Demo.closingScript a b ∧
      max a.params.holderDustLimitSat 546 = max b.params.holderDustLimitSat 546 ∧
      a.closingFeeBounds (Demo.target .a) = some (714, 180, 1428) ∧
      b.closingFeeBounds (Demo.target .b) = some (1428, 180, 2856) ∧ a.KeepsOutput 714 ∧
      a.KeepsOutput 1428)
    (by decide +kernel)
  have hsigned : Opened Demo.C ((Demo.keys 1).toSigner Demo.C) ((Demo.keys 2).toSigner Demo.C) a₀ b₀ :=
    hopen
  have hagreed : overlapFee (1428, 180, 2856) ⟨180, 1428⟩ = 1428 := by decide
  obtain ⟨fee, tx, hconcludes, hcloses, -⟩ := closing_converges Demo.verifiesSigned Demo.distinctKeys
    hsigned hra hrb hreadyA hreadyB hlastA hlastB hm hdust hbA hbB (by decide) hkeepsA
    (hagreed ▸ hkeeps)
  exact ⟨a, b, fee, tx, hconcludes, hcloses⟩

end Channel
