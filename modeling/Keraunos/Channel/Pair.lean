import Keraunos.Channel.Machine

/-!
# Two channels and the links between them

A pair of channels with the messages in flight in each direction, oldest first. A step is a local
input at one end, whose messages join the link, or the delivery of the oldest message to the other
end. Links lose and reorder nothing.

`Demo` is a concrete pair over the transparent primitives; it makes the statements about pairs and
their channels runnable.
-/

/-- The input that a peer message is to a channel. Those of other layers are none. -/
def Wire.Message.toInput : Wire.Message → Option Channel.Input
  | .acceptChannel m => some (.acceptChannel m)
  | .fundingCreated m => some (.fundingCreated m)
  | .fundingSigned m => some (.fundingSigned m)
  | .channelReady m => some (.channelReady m)
  | .updateAddHtlc m => some (.updateAddHtlc m)
  | .updateFulfillHtlc m => some (.updateFulfillHtlc m)
  | .updateFailHtlc m => some (.updateFailHtlc m)
  | .updateFailMalformedHtlc m => some (.updateFailMalformedHtlc m)
  | .updateFee m => some (.updateFee m)
  | .commitmentSigned m => some (.commitmentSigned m)
  | .revokeAndAck m => some (.revokeAndAck m)
  | .channelReestablish m => some (.channelReestablish m)
  | _ => none

/-- The two ends. -/
inductive Side where
  | a
  | b
  deriving DecidableEq, Repr

namespace Side

def other : Side → Side
  | .a => .b
  | .b => .a

@[simp] theorem other_other (s : Side) : s.other.other = s := by cases s <;> rfl

end Side

/-- Two channels and the messages in flight to each. -/
structure Pair where
  chanA : Channel
  chanB : Channel
  /-- Messages on their way to the end `a`. -/
  inboxA : List Wire.Message
  inboxB : List Wire.Message

namespace Pair

inductive Input where
  /-- A local input at one end. -/
  | command (side : Side) (input : Channel.Input)
  /-- The oldest message in flight to this end arrives. -/
  | deliver (side : Side)

def chan (p : Pair) : Side → Channel
  | .a => p.chanA
  | .b => p.chanB

def inbox (p : Pair) : Side → List Wire.Message
  | .a => p.inboxA
  | .b => p.inboxB

def setChan (p : Pair) (s : Side) (ch : Channel) : Pair :=
  match s with
  | .a => { p with chanA := ch }
  | .b => { p with chanB := ch }

def setInbox (p : Pair) (s : Side) (ms : List Wire.Message) : Pair :=
  match s with
  | .a => { p with inboxA := ms }
  | .b => { p with inboxB := ms }

section
variable (p : Pair) (s t : Side) (ch : Channel) (ms : List Wire.Message)

@[simp] theorem chan_setChan : (p.setChan s ch).chan t = if t = s then ch else p.chan t := by
  cases s <;> cases t <;> rfl

@[simp] theorem chan_setInbox : (p.setInbox s ms).chan t = p.chan t := by
  cases s <;> cases t <;> rfl

@[simp] theorem inbox_setChan : (p.setChan s ch).inbox t = p.inbox t := by
  cases s <;> cases t <;> rfl

@[simp] theorem inbox_setInbox : (p.setInbox s ms).inbox t = if t = s then ms else p.inbox t := by
  cases s <;> cases t <;> rfl

end

/-- Put messages on the link to `s`. -/
def send (p : Pair) (s : Side) (ms : List Wire.Message) : Pair := p.setInbox s (p.inbox s ++ ms)

/-- Run a channel action at one end; the messages it returns go to the other end. -/
def onSide (s : Side) (x : ChannelAct (List Wire.Message)) :
    Act ChannelError Pair (List Wire.Message) :=
  fun p =>
    match x (p.chan s) with
    | .ok ms ch => .ok ms ((p.setChan s ch).send s.other ms)
    | .error e ch => .error e (p.setChan s ch)

/-- One step of the pair. -/
def step (C : Crypto) : Input → Act ChannelError Pair (List Wire.Message)
  | .command s i => onSide s (Channel.step C i)
  | .deliver s => do
    let p ← get
    match p.inbox s with
    | [] => return []
    | m :: ms =>
      set (p.setInbox s ms)
      match m.toInput with
      | some i => onSide s (Channel.step C i)
      | none => return []

/-- The loss of the connection is not a message. -/
theorem toInput_ne_disconnect (m : Wire.Message) : m.toInput ≠ some .disconnect := by
  cases m <;> simp [Wire.Message.toInput]

/-- Each end of a run of the pair is a run of its channel, disconnected only by command. -/
theorem run_chan {C : Crypto} {p₀ p : Pair} {tr : Trace Input ChannelError (List Wire.Message)}
    (hr : Run (step C) p₀ tr p) (s : Side) :
    ∃ tr', Run (Channel.step C) (p₀.chan s) tr' (p.chan s) ∧
      ∀ x ∈ tr', x.1 = .disconnect → ∃ y ∈ tr, y.1 = .command s .disconnect := by
  refine hr.induct (P := fun tr p => ∃ tr', Run (Channel.step C) (p₀.chan s) tr' (p.chan s) ∧
      ∀ x ∈ tr', x.1 = .disconnect → ∃ y ∈ tr, y.1 = .command s .disconnect)
    ⟨[], .nil, by simp⟩ fun tr p i => ?_
  rintro ⟨tr', hr', hd'⟩
  have hold : ∀ o, ∀ x ∈ tr', x.1 = .disconnect →
      ∃ y ∈ tr ++ [(i, o)], y.1 = .command s .disconnect := by
    intro o x hx hxd
    obtain ⟨y, hy, hyd⟩ := hd' x hx hxd
    exact ⟨y, List.mem_append_left _ hy, hyd⟩
  have hside : ∀ (p : Pair) (side : Side) (j : Channel.Input),
      Run (Channel.step C) (p₀.chan s) tr' (p.chan s) →
      (j = .disconnect → i = .command side .disconnect) →
      Act.wp (onSide side (Channel.step C j)) p
        (fun a p' => ∃ tr', Run (Channel.step C) (p₀.chan s) tr' (p'.chan s) ∧
          ∀ x ∈ tr', x.1 = .disconnect →
            ∃ y ∈ tr ++ [(i, .ok a)], y.1 = .command s .disconnect)
        (fun e p' => ∀ e', e = .err e' →
          ∃ tr', Run (Channel.step C) (p₀.chan s) tr' (p'.chan s) ∧
          ∀ x ∈ tr', x.1 = .disconnect →
            ∃ y ∈ tr ++ [(i, .error e')], y.1 = .command s .disconnect) := by
    intro p side j hr' hi
    simp only [Act.wp, onSide]
    by_cases hs : s = side
    · subst hs
      have hnew : ∀ o (o' : Except ChannelError (List Wire.Message)), ∀ x ∈ tr' ++ [(j, o)],
          x.1 = .disconnect → ∃ y ∈ tr ++ [(i, o')], y.1 = .command s .disconnect := by
        intro o o' x hx hxd
        rcases List.mem_append.1 hx with hx | hx
        · exact hold o' x hx hxd
        · obtain rfl := List.mem_singleton.1 hx
          exact ⟨_, List.mem_append_right _ (List.mem_singleton_self _), hi hxd⟩
      cases hj : Channel.step C j (p.chan s) with
      | ok ms ch => exact ⟨_, by simpa [send] using hr'.ok hj, hnew _ _⟩
      | error e ch =>
        rintro e' rfl
        exact ⟨_, by simpa using hr'.err hj, hnew _ _⟩
    · cases hj : Channel.step C j (p.chan side) with
      | ok ms ch => exact ⟨tr', by simpa [send, hs] using hr', hold _⟩
      | error e ch => exact fun _ _ => ⟨tr', by simpa [hs] using hr', hold _⟩
  cases i with
  | command side j => exact hside p side j hr' fun hj => by rw [hj]
  | deliver side =>
    simp only [step, Act.wp_bind, Act.wp_get]
    rcases p.inbox side with _ | ⟨m, ms⟩
    · exact ⟨tr', hr', hold _⟩
    · simp only [Act.wp_bind, Act.wp_set]
      rcases hm : m.toInput with _ | j
      · exact ⟨tr', by simpa using hr', hold _⟩
      · refine hside _ side j (by simpa using hr') ?_
        rintro rfl
        exact absurd hm (toInput_ne_disconnect m)

/-- What the end `s` is like after the inputs `is`, as a run of its channel. -/
theorem exists_chan (C : Crypto) (p₀ : Pair) (is : List Input) (s : Side) (P : Channel → Prop)
    [DecidablePred P]
    (h : ((Run.exec (step C) p₀ is).any fun r => P (r.2.chan s)) = true) :
    ∃ tr ch, Run (Channel.step C) (p₀.chan s) tr ch ∧ P ch ∧
      ∀ x ∈ tr, x.1 = .disconnect → .command s .disconnect ∈ is := by
  obtain ⟨r, hexec, hP⟩ := (Option.any_eq_true _ _).1 h
  obtain ⟨tr, hr, hd⟩ := run_chan (Run.of_exec hexec) s
  refine ⟨tr, _, hr, of_decide_eq_true hP, fun x hx hxd => ?_⟩
  obtain ⟨y, hy, hyd⟩ := hd x hx hxd
  rw [← Run.exec_inputs hexec, ← hyd]
  exact List.mem_map_of_mem hy

/-- The inputs the end `s` takes while the pair runs. -/
def inputs (C : Crypto) (s : Side) (p : Pair) : List Input → List Channel.Input
  | [] => []
  | i :: is =>
    let taken := match i with
      | .command side j => if side = s then [j] else []
      | .deliver side => if side = s then ((p.inbox s).head?.bind (·.toInput)).toList else []
    match step C i p with
    | .ok _ p' => taken ++ inputs C s p' is
    | .error _ p' => taken ++ inputs C s p' is

end Pair

/-! ## A concrete pair -/

namespace Demo

open Channel

abbrev C : Crypto := Crypto.transparent

def bytes (n : Nat) : Bytes32 := Crypto.Transparent.ofNat 32 n

/-- The signer of party `n`. -/
def signer (n : Nat) : ChannelSigner :=
  InMemoryChannelSigner.toSigner C ⟨⟨bytes (100 * n + 1)⟩, ⟨bytes (100 * n + 2)⟩,
    ⟨bytes (100 * n + 3)⟩, ⟨bytes (100 * n + 4)⟩, ⟨bytes (100 * n + 5)⟩, bytes (100 * n + 6)⟩

/-- The opener's channel of a million satoshi and its `open_channel`. -/
def alice : Channel × Wire.OpenChannel :=
  (newOutbound (signer 1) {} .regtest (bytes 7) 1000000 0 1000).toOption.get (by decide +kernel)

/-- The accepter's channel and its `accept_channel`. -/
def bob : Channel × Wire.AcceptChannel :=
  (newInbound C (signer 2) {} .regtest alice.2).toOption.get (by decide +kernel)

theorem alice_fresh : Fresh C alice.1 := by
  have h : (newOutbound (signer 1) {} .regtest (bytes 7) 1000000 0 1000).toOption = some alice :=
    (Option.some_get _).symm
  exact .outbound (Fault.toOption_eq_some.1 h)

theorem bob_fresh : Fresh C bob.1 := by
  have h : (newInbound C (signer 2) {} .regtest alice.2).toOption = some bob :=
    (Option.some_get _).symm
  exact .inbound (Fault.toOption_eq_some.1 h)

/-- The pair before the handshake's last messages. -/
def start : Pair := ⟨alice.1, bob.1, [.acceptChannel bob.2], []⟩

/-- The handshake. -/
def handshake : List Pair.Input :=
  [.deliver .a, .command .a (.createFunding (bytes 9) 0), .deliver .b, .deliver .a,
    .command .a (.confirmFunding 5), .command .b (.confirmFunding 5), .deliver .a, .deliver .b]

/-- One HTLC from `a` to `b`, committed on both sides. -/
def payment : List Pair.Input :=
  [.command .a (.sendAddHtlc 5000000 (paymentHash C (bytes 3)) 100 [] (.outbound (bytes 0))),
    .command .a .sendCommitmentSigned, .deliver .b, .deliver .b, .command .b .sendCommitmentSigned,
    .deliver .a, .deliver .a, .deliver .b]

/-- The add number `id` of `a`, for the preimage `n`. -/
def add (id n : Nat) : Wire.UpdateAddHtlc :=
  ⟨channelIdFromFunding (bytes 9) 0, id, 5000000, paymentHash C (bytes n), 100, []⟩

/-! ### Known secrets

Deriving a commitment secret is most of the work of a run. These are looked up. -/

/-- The first commitment secrets of the two parties: their seeds differ in the last byte. -/
def knownSecrets (n : Nat) : List Nat :=
  [11388874946087999201310788856056430916125041688215644783751267479115851443046,
    112701202934401913871217695611511489031565987524995612791801642129458172363471,
    111169945966347801602061279648825263042160588264199188139922431380962974508492,
    98513998590784345587335352354493007699067218587341248459365234344265675768026,
    115647182648295933182573175980233734527596857434167367383604610497286943618771].map (· + 119 * n)

/-- The signer that looks its first secrets up. -/
def tabledSigner (n : Nat) : ChannelSigner :=
  { signer n with
    perCommitmentPoint := fun k => ((knownSecrets n)[k]?.map fun s =>
      C.publicKey ⟨Crypto.Transparent.ofNat 32 s⟩).getD ((signer n).perCommitmentPoint k)
    releaseCommitmentSecret := fun k => ((knownSecrets n)[k]?.map (Crypto.Transparent.ofNat 32)).getD
      ((signer n).releaseCommitmentSecret k) }

theorem releaseCommitmentSecret_known : ∀ n ∈ [1, 2], ∀ k < 5, ∀ s ∈ (knownSecrets n)[k]?,
    (signer n).releaseCommitmentSecret k = Crypto.Transparent.ofNat 32 s := by decide +kernel

theorem tabledSigner_eq {n : Nat} (hn : n ∈ [1, 2]) : tabledSigner n = signer n := by
  have hknown : ∀ k s, (knownSecrets n)[k]? = some s →
      (signer n).releaseCommitmentSecret k = Crypto.Transparent.ofNat 32 s := by
    intro k s hs
    have hk : k < (knownSecrets n).length := (List.getElem?_eq_some_iff.1 hs).1
    exact releaseCommitmentSecret_known n hn k hk s hs
  have hsecret : (tabledSigner n).releaseCommitmentSecret = (signer n).releaseCommitmentSecret := by
    funext k
    cases hs : (knownSecrets n)[k]? with
    | none => simp [tabledSigner, hs]
    | some s => simp [tabledSigner, hs, hknown k s hs]
  have hpoint : (tabledSigner n).perCommitmentPoint = (signer n).perCommitmentPoint := by
    funext k
    cases hs : (knownSecrets n)[k]? with
    | none => simp [tabledSigner, hs]
    | some s =>
      show ((knownSecrets n)[k]?.map _).getD _ = C.publicKey ⟨(signer n).releaseCommitmentSecret k⟩
      rw [hknown k s hs, hs]
      rfl
  show ChannelSigner.mk _ (tabledSigner n).perCommitmentPoint (tabledSigner n).releaseCommitmentSecret
    _ _ _ _ = _
  rw [hpoint, hsecret]

theorem signer_tabled : signer 1 = tabledSigner 1 ∧ signer 2 = tabledSigner 2 :=
  ⟨(tabledSigner_eq (by decide)).symm, (tabledSigner_eq (by decide)).symm⟩

def tabledAlice : Channel × Wire.OpenChannel :=
  (newOutbound (tabledSigner 1) {} .regtest (bytes 7) 1000000 0 1000).toOption.get (by decide +kernel)

def tabledBob : Channel × Wire.AcceptChannel :=
  (newInbound C (tabledSigner 2) {} .regtest tabledAlice.2).toOption.get (by decide +kernel)

theorem alice_tabled : alice = tabledAlice := by
  simp only [alice, tabledAlice, signer_tabled]

theorem bob_tabled : bob = tabledBob := by
  simp only [bob, tabledBob, signer_tabled, alice_tabled]

theorem start_tabled : start = ⟨tabledAlice.1, tabledBob.1, [.acceptChannel tabledBob.2], []⟩ := by
  rw [start, alice_tabled, bob_tabled]

/-- What the end `s` is like after the inputs `is`. -/
theorem exists_chan (is : List Pair.Input) (s : Side) (P : Channel → Prop) [DecidablePred P]
    (h : ((Run.exec (Pair.step C) ⟨tabledAlice.1, tabledBob.1, [.acceptChannel tabledBob.2], []⟩ is).any
      fun r => P (r.2.chan s)) = true) :
    ∃ tr ch, Run (Channel.step C) (start.chan s) tr ch ∧ P ch ∧
      ∀ x ∈ tr, x.1 = .disconnect → .command s .disconnect ∈ is :=
  Pair.exists_chan C start is s P (start_tabled ▸ h)

end Demo
