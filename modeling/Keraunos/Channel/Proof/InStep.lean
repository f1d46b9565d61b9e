import Keraunos.Channel.Proof.Born
import Keraunos.Channel.Proof.Party

/-!
# Two channels in step

`InStep C p`: the channels of the pair `p` have kept a ledger each, and with the messages in flight the
two ledgers are in lockstep. An opening starts so (`Opening.inStep`), and every step of honest owners
keeps it (`Played.inStep`).
-/

open Bitcoin Commitment Lockstep

namespace Channel

variable {C : Crypto} {g : Genesis} {ch ch' a b : Channel}

/-! ## Calls -/

/-- What an input is to the dance. -/
def Input.beat? (i : Input) : Option (Beat Update) :=
  match i with
  | .commitmentSigned _ => some .sign
  | .revokeAndAck _ => some .revoke
  | i => i.update?.map .update

theorem beat?_toInputWith {m : Wire.Message} {ourScript : Script} {targetFeerate : FeeRatePerKw}
    {i : Input} (h : m.toInputWith ourScript targetFeerate = some i) : i.beat? = m.beat? := by
  cases m <;> simp only [Wire.Message.toInputWith, Wire.Message.toInput] at h <;> cases h <;> rfl

theorem beat?_toInputWith_none {m : Wire.Message} {ourScript : Script} {targetFeerate : FeeRatePerKw}
    (h : m.toInputWith ourScript targetFeerate = none) : m.beat? = none := by
  cases m <;> first | rfl | cases h

theorem connected_toInputWith {m : Wire.Message} {ourScript : Script} {targetFeerate : FeeRatePerKw}
    {i : Input} (h : m.toInputWith ourScript targetFeerate = some i) : i.Connected := by
  cases m <;> simp only [Wire.Message.toInputWith, Wire.Message.toInput] at h <;> cases h <;> trivial

theorem own_toInputWith {m : Wire.Message} {ourScript : Script} {targetFeerate : FeeRatePerKw}
    {i : Input} (h : m.toInputWith ourScript targetFeerate = some i) : i.own = false := by
  cases m <;> simp only [Wire.Message.toInputWith, Wire.Message.toInput] at h <;> cases h <;> rfl

theorem beat?_own {i : Input} (h : i.own = true) : i.beat? = none := by
  cases i <;> first | rfl | cases h

theorem beat?_administrative {i : Input} (h : i.Administrative) : i.beat? = none := by
  cases i <;> first | rfl | exact h.elim

theorem beat?_update {i : Input} {u : Update} (h : i.update? = some u) : i.beat? = some (.update u) := by
  cases i <;> first | cases h; rfl | cases h

theorem beat?_of_update {m : Wire.Message} {u : Update} (h : m.update? = some u) :
    m.beat? = some (.update u) := by
  cases m <;> first | cases h; rfl | cases h

theorem party_revoked (L : Ledger) (ch : Channel) (pending : PendingCounterpartyCommitment)
    (secrets : Shachain.SecretStore) (point : PublicKey) :
    L.revoke.party (ch.revoked pending secrets point) = (L.party ch).revoke := by
  simp [Ledger.party, Party.revoke, Ledger.revoke, revoked, processed, gcHtlcs, acceptRevocation]

section
variable {L : Ledger} {r : Party Update} {w v : List (Beat Update)}

/-- What is sent joins the link, and the ledger follows. -/
theorem Speaks.joint {m : Wire.Message} (hs : Speaks C ch m ch') (hk : InOrder C g L ch)
    (hj : Joint (L.party ch) r w v) :
    ∃ L', InOrder C g L' ch' ∧ Joint (L'.party ch') r (w ++ m.beat?.toList) v := by
  cases hs with
  | update hu hm =>
    obtain ⟨L', hk', hparty⟩ := hk.makes hm
    refine ⟨L', hk', hparty ▸ ?_⟩
    rw [beat?_of_update hu]
    exact hj.push hm.idle _
  | sign hs => exact ⟨_, hk.sign hs, hj.sign hs.idle⟩

theorem Talks.joint {ms : List Wire.Message} (ht : Talks C ch ms ch') :
    ∀ {L w}, InOrder C g L ch → Joint (L.party ch) r w v →
      ∃ L', InOrder C g L' ch' ∧ Joint (L'.party ch') r (w ++ beats ms) v := by
  induction ht with
  | nil => exact fun hk hj => ⟨_, hk, by simpa [beats] using hj⟩
  | cons hs _ ih =>
    intro L w hk hj
    obtain ⟨L', hk', hj'⟩ := hs.joint hk hj
    rw [beats_cons, ← List.append_assoc]
    exact ih hk' hj'

/-- A call that succeeds takes its message from the link and puts what it sends on the link. -/
theorem Deals.joint {i : Input} {ms : List Wire.Message} (hd : Deals C ch i ms ch') (hk : InOrder C g L ch)
    (hj : Joint (L.party ch) r w (i.beat?.toList ++ v)) :
    ∃ L', InOrder C g L' ch' ∧ Joint (L'.party ch') r (w ++ beats ms) v := by
  cases hd with
  | aside hadm ha hms _ =>
    obtain ⟨hk', hparty⟩ := hk.aside ha
    rw [beat?_administrative hadm] at hj
    rw [hms, List.append_nil]
    exact ⟨_, hk', hparty ▸ hj⟩
  | parked op hown _ =>
    rw [beat?_own hown] at hj
    rw [beats, List.filterMap_nil, List.append_nil]
    exact ⟨_, hk.setCell _, hj⟩
  | spoke hown hs =>
    rw [beat?_own hown] at hj
    exact (Talks.one hs).joint hk hj
  | heard hu ht =>
    rw [beat?_update hu] at hj
    obtain ⟨L', hk', hparty⟩ := hk.takes ht
    rw [beats, List.filterMap_nil, List.append_nil]
    exact ⟨L', hk', hparty ▸ hj.symm.hear.symm⟩
  | accepted msg b hb => exact ⟨_, hk.accept msg hb, (hj.symm.accept _).symm⟩
  | revoked msg pending secrets ha hp ht =>
    refine ht.joint (hk.revoke ha hp secrets _) ?_
    rw [party_revoked]
    exact hj.symm.revoke.symm

end

theorem opener_of_charter (h : ch'.charter = ch.charter) : ch'.opener = ch.opener :=
  congrArg (fun t : Charter => decide (t.role = .opener)) h

end Channel

namespace Pair

variable {C : Crypto} {g : Genesis} {L : Side → Ledger} {p p' : Pair}

/-! ## Steps -/

/-- The input `i` of the end `s` is a command, or the oldest message; `v` is left on the link. -/
inductive Arrives (p : Pair) (s : Side) (i : Channel.Input) : List Wire.Message → Prop
  | command : i.own = true → Arrives p s i (p.inbox s)
  | message {m : Wire.Message} {v : List Wire.Message} (ourScript : Script)
      (targetFeerate : FeeRatePerKw) : p.inbox s = m :: v →
      m.toInputWith ourScript targetFeerate = some i → Arrives p s i v

/-- What a step of honest owners makes of the pair. -/
inductive Played (C : Crypto) (p : Pair) : Pair → Prop
  | same : Played C p p
  | called (s : Side) {i : Channel.Input} {ms v : List Wire.Message} {ch' : Channel} :
      Arrives p s i v → Channel.Deals C (p.chan s) i ms ch' →
      Played C p (((p.setInbox s v).setChan s ch').send s.other ms)
  | refused (s : Side) {i : Channel.Input} {ch' : Channel} : i.own = true →
      Channel.Aside C (p.chan s) i ch' → Played C p (p.setChan s ch')
  | dropped (s : Side) {m : Wire.Message} {v : List Wire.Message} : p.inbox s = m :: v →
      m.beat? = none → Played C p (p.setInbox s v)

theorem setInbox_self (p : Pair) (s : Side) : p.setInbox s (p.inbox s) = p := by
  cases s <;> rfl

theorem Arrives.connected {s : Side} {i : Channel.Input} {v : List Wire.Message} (h : Arrives p s i v) :
    i.Connected := by
  cases h with
  | command hi => cases i <;> first | exact trivial | cases hi
  | message _ _ _ hm => exact Channel.connected_toInputWith hm

/-- What arrives is what the link loses. -/
theorem Arrives.beats {s : Side} {i : Channel.Input} {v : List Wire.Message} (h : Arrives p s i v) :
    beats (p.inbox s) = i.beat?.toList ++ beats v := by
  cases h with
  | command hi => rw [Channel.beat?_own hi]; rfl
  | message _ _ hin hm => rw [hin, beats_cons, Channel.beat?_toInputWith hm]

/-- A call at the end `s`. -/
theorem onSide_played {s : Side} {i : Channel.Input} {v : List Wire.Message} (ha : Arrives p s i v)
    (hown : i.own = true ∨ Act.wp (onSide s (Channel.step C i)) (p.setInbox s v) (fun _ _ => True)
      fun _ _ => False) :
    Act.wp (onSide s (Channel.step C i)) (p.setInbox s v) (fun _ p' => Played C p p')
      fun _ p' => Played C p p' := by
  have hdeals := (Act.wp_map (Channel.perform C i) i.toSend).2 (Channel.perform_deals ha.connected (p.chan s))
  simp only [Act.wp, onSide, chan_setInbox] at hown ⊢
  cases hx : Channel.step C i (p.chan s) with
  | ok ms ch' => exact .called s ha (Act.wp_ok hdeals hx)
  | error e ch' =>
    rw [hx] at hown
    obtain hi : i.own = true := hown.resolve_right id
    have hv : v = p.inbox s := by
      cases ha with
      | command => rfl
      | message _ _ _ hm =>
        rw [Channel.own_toInputWith hm] at hi
        cases hi
    subst hv
    rw [setInbox_self]
    exact .refused s hi (Act.wp_error hdeals hx hi)

theorem wp_of_refuses {s : Side} {ourScript : Script} {targetFeerate : FeeRatePerKw}
    (h : refuses C p (.deliver s ourScript targetFeerate) = false) :
    Act.wp (play C (.deliver s ourScript targetFeerate)) p (fun _ _ => True) fun _ _ => False := by
  simp only [refuses, Act.wp] at h ⊢
  cases hx : play C (.deliver s ourScript targetFeerate) p with
  | ok ms p' => trivial
  | error e p' =>
    rw [hx] at h
    cases h

theorem play_played {e : Event} (hh : Honest C p e) : Act.Ends (play C e) p (Played C p) := by
  cases e with
  | command s i =>
    have hside := onSide_played (C := C) (p := p) (s := s) (.command hh.1) (.inl hh.1)
    rw [setInbox_self] at hside
    exact Act.wp_mono hside (fun _ _ h => h) fun _ _ h _ _ => h
  | deliver s ourScript targetFeerate =>
    have hok := wp_of_refuses hh.2
    simp only [Act.Ends, play, Act.wp_bind, Act.wp_get] at hok ⊢
    rcases hin : p.inbox s with _ | ⟨m, v⟩
    · exact .same
    · rw [hin] at hok
      simp only [Act.wp_bind, Act.wp_set] at hok ⊢
      rcases hm : m.toInputWith ourScript targetFeerate with _ | i
      · exact .dropped s hin (Channel.beat?_toInputWith_none hm)
      · rw [hm] at hok
        exact Act.wp_mono (onSide_played (.message ourScript targetFeerate hin hm) (.inr hok))
          (fun _ _ h => h) fun _ _ h _ _ => h

/-! ## The invariant -/

/-- Each end kept a ledger, and with the links the two are in lockstep. -/
structure Coupled (C : Crypto) (g : Genesis) (L : Side → Ledger) (p : Pair) : Prop where
  inOrder : ∀ s, Channel.InOrder C g (L s) (p.chan s)
  opener : ∀ s, (p.chan s).opener = decide (s = .a)
  joint : ∀ s, Joint ((L s).party (p.chan s)) ((L s.other).party (p.chan s.other))
    (beats (p.inbox s.other)) (beats (p.inbox s))

/-- The channels are in step. -/
def InStep (C : Crypto) (p : Pair) : Prop := ∃ g L, Coupled C g L p

theorem InStep.rank (h : InStep C p) (s : Side) : 2 ≤ (p.chan s).state.rank := by
  obtain ⟨_, _, h⟩ := h
  exact (h.inOrder s).opened

/-- An opening. -/
theorem Opening.inStep (h : Opening C p) : InStep C p := by
  cases h with
  | intro ho =>
    obtain ⟨g, ha, hb⟩ := ho.born
    obtain ⟨hcp, -, -⟩ := ho.counterparts
    refine ⟨g, fun _ => {}, fun s => ?_, fun s => ?_, fun s => ?_⟩
    · cases s
      · exact ha.inOrder
      · exact hb.inOrder
    · cases s
      · exact decide_eq_true hcp.opener
      · exact decide_eq_false (by simp [chan, hcp.accepter])
    · cases s
      · simpa [chan, inbox, Side.other, ha.party, hb.party, beats] using joint_empty
      · simpa [chan, inbox, Side.other, ha.party, hb.party, beats] using joint_empty

/-- A change at the end `s`. -/
theorem Coupled.set (h : Coupled C g L p) (s : Side) {L' : Ledger} {ch' : Channel}
    {w v : List Wire.Message} (hk : Channel.InOrder C g L' ch') (hop : ch'.opener = (p.chan s).opener)
    (hj : Joint (L'.party ch') ((L s.other).party (p.chan s.other)) (beats w) (beats v)) :
    Coupled C g (Function.update L s L') (((p.setInbox s v).setChan s ch').setInbox s.other w) where
  inOrder t := by
    by_cases ht : t = s
    · subst ht
      simpa using hk
    · simpa [ht] using h.inOrder t
  opener t := by
    by_cases ht : t = s
    · subst ht
      simpa using hop.trans (h.opener t)
    · simpa [ht] using h.opener t
  joint t := by
    have hsymm := hj.symm
    cases s <;> cases t <;> simpa [Side.other, setChan, setInbox, chan, inbox] using ‹_›

/-- A step keeps it. -/
theorem Played.inStep (hp : Played C p p') (h : InStep C p) : InStep C p' := by
  obtain ⟨g, L, h⟩ := h
  cases hp with
  | same => exact ⟨g, L, h⟩
  | called s ha hd =>
    have hj := h.joint s
    rw [ha.beats] at hj
    obtain ⟨L', hk', hj'⟩ := hd.joint (h.inOrder s) hj
    rw [← beats_append] at hj'
    have hset := h.set s hk' (Channel.opener_of_charter (hd.charter (h.inOrder s).opened)) hj'
    refine ⟨g, Function.update L s L', ?_⟩
    convert hset using 1
    cases s <;> rfl
  | @refused s i ch' _ haside =>
    have hstanding := (haside.moves.standing (h.inOrder s).opened).2
    obtain ⟨hk', hparty⟩ := (h.inOrder s).aside haside
    have hset := h.set s hk' (Channel.opener_of_charter (congrArg Channel.Standing.toCharter hstanding))
      (w := p.inbox s.other) (v := p.inbox s) (by rw [hparty]; exact h.joint s)
    refine ⟨g, Function.update L s (L s), ?_⟩
    convert hset using 1
    cases s <;> rfl
  | @dropped s m v hin hm =>
    have hj := h.joint s
    rw [hin, beats_cons, hm] at hj
    have hset := h.set s (h.inOrder s) rfl (w := p.inbox s.other) (v := v) hj
    refine ⟨g, Function.update L s (L s), ?_⟩
    convert hset using 1
    cases s <;> rfl

end Pair
