import Keraunos.Node.Proof.Steps

/-!
# The history of a node

Facts about the history that hold in every run: every channel has a serial number of its own
(`Numbered`), the entries are about channels opened before (`Past`), a move records one call or one
broadcast of a commitment (`Move.records`), and what is broadcast is recorded (`Recorded`). `Lawful R` says that every entry was allowed by `R` when it was made; it
holds along moves whose rule is `R` (`Moves.lawful`).
-/

open Bitcoin

/-- The channel an entry of the history is about. -/
def Happening.serial : Happening → Option Nat
  | .opened s _ | .rekeyed s _ _ | .spoke s _ => some s
  | .acted e _ _ | .forceClosed e | .published e _ => some e.serial
  | .failedBack _ | .ordered _ | .polled => none

namespace Node

variable {E : Env}

/-! ## Serial numbers -/

/-- Every entry has a serial number of its own, given before now. -/
structure Numbered (n : Node E) : Prop where
  bound : ∀ id e, n.channels.lookup id = some e → e.serial < n.history.length
  inj : ∀ id₁ id₂ e₁ e₂, n.channels.lookup id₁ = some e₁ → n.channels.lookup id₂ = some e₂ →
    e₁.serial = e₂.serial → id₁ = id₂

section
variable {P : Node E → Happening → Prop} {n n' : Node E}

/-- An entry after `insert`. -/
theorem lookup_insert_eq {id k : ChannelId} {e e' : ChannelEntry} {t : Table ChannelId ChannelEntry}
    (h : (t.insert id e).lookup k = some e') : k = id ∧ e' = e ∨ k ≠ id ∧ t.lookup k = some e' := by
  by_cases hk : k = id
  · subst hk
    rw [AList.lookup_insert] at h
    exact .inl ⟨rfl, (Option.some.inj h).symm⟩
  · rw [AList.lookup_insert_ne hk] at h
    exact .inr ⟨hk, h⟩

/-- Replacing an entry keeps the numbering. -/
theorem Numbered.update {id : ChannelId} {e : ChannelEntry} (h : Numbered n)
    (he : n.channels.lookup id = some e) (e' : ChannelEntry) (hs : e'.serial = e.serial)
    (hc : n'.channels = n.channels.insert id e') (hh : n.history <+: n'.history) : Numbered n' := by
  have hold : ∀ k x, n'.channels.lookup k = some x →
      ∃ y, n.channels.lookup k = some y ∧ y.serial = x.serial := by
    intro k x hx
    rw [hc] at hx
    rcases lookup_insert_eq hx with ⟨rfl, rfl⟩ | ⟨-, hx⟩
    · exact ⟨e, he, hs.symm⟩
    · exact ⟨x, hx, rfl⟩
  constructor
  · intro k x hx
    obtain ⟨y, hy, hyx⟩ := hold k x hx
    exact hyx ▸ (h.bound k y hy).trans_le hh.length_le
  · intro k₁ k₂ x₁ x₂ hx₁ hx₂ heq
    obtain ⟨y₁, hy₁, hs₁⟩ := hold k₁ x₁ hx₁
    obtain ⟨y₂, hy₂, hs₂⟩ := hold k₂ x₂ hx₂
    exact h.inj k₁ k₂ y₁ y₂ hy₁ hy₂ (hs₁.trans (heq.trans hs₂.symm))

theorem Move.numbered (hm : Move P n n') (h : Numbered n) : Numbered n' := by
  have hsame : n'.channels = n.channels → Numbered n' := fun hc =>
    ⟨fun id e he => (h.bound id e (hc ▸ he)).trans_le hm.history.length_le,
      fun id₁ id₂ e₁ e₂ h₁ h₂ => h.inj id₁ id₂ e₁ e₂ (hc ▸ h₁) (hc ▸ h₂)⟩
  cases hm with
  | idle hc | link hc | spoke _ _ _ hc | failedBack _ hc | ordered _ hc | polled hc => exact hsame hc
  | forceClosed _ _ _ _ _ _ hc | published _ _ _ _ _ _ _ hc => exact hsame hc
  | edit id e e' he _ _ hs hc hh => exact h.update he e' hs hc (hh ▸ List.prefix_refl _)
  | act id e i a ch he _ _ hc hh =>
    exact h.update he { e with channel := ch } rfl hc (hh ▸ List.prefix_append _ _)
  | refuse id e i err ch he _ hc hh =>
    exact h.update he { e with channel := ch } rfl hc (hh ▸ List.prefix_append _ _)
  | opened id e _ _ hs hc hh =>
    have hlen : n'.history.length = n.history.length + 1 := by simp [hh]
    have hnew : ∀ k x, n.channels.lookup k = some x → x.serial ≠ e.serial := fun k x hx =>
      hs ▸ (h.bound k x hx).ne
    constructor
    · intro k x hx
      rw [hc] at hx
      rcases lookup_insert_eq hx with ⟨rfl, rfl⟩ | ⟨-, hx⟩
      · omega
      · have := h.bound k x hx
        omega
    · intro k₁ k₂ x₁ x₂ hx₁ hx₂ heq
      rw [hc] at hx₁ hx₂
      rcases lookup_insert_eq hx₁ with ⟨hk₁, rfl⟩ | ⟨-, hy₁⟩ <;>
        rcases lookup_insert_eq hx₂ with ⟨hk₂, rfl⟩ | ⟨-, hy₂⟩
      · exact hk₁.trans hk₂.symm
      · exact absurd heq.symm (hnew k₂ x₂ hy₂)
      · exact absurd heq (hnew k₁ x₁ hy₁)
      · exact h.inj k₁ k₂ x₁ x₂ hy₁ hy₂ heq
  | fund id e e' i a ch he _ _ _ _ hs hlook hh =>
    -- Every entry after the move has the serial number of one before, under another key only if it
    -- is the one that was moved.
    have hold : ∀ k x, n'.channels.lookup k = some x → ∃ k' y, n.channels.lookup k' = some y ∧
        y.serial = x.serial ∧ (k = ch.channelId ∧ k' = id ∨ k ≠ ch.channelId ∧ k ≠ id ∧ k' = k) := by
      intro k x hx
      rw [hlook] at hx
      by_cases hk : k = ch.channelId
      · rw [if_pos hk] at hx
        obtain rfl := Option.some.inj hx
        exact ⟨id, e, he, hs.symm, .inl ⟨hk, rfl⟩⟩
      · rw [if_neg hk] at hx
        by_cases hid : k = id
        · rw [if_pos hid] at hx
          cases hx
        · rw [if_neg hid] at hx
          exact ⟨k, x, hx, rfl, .inr ⟨hk, hid, rfl⟩⟩
    constructor
    · intro k x hx
      obtain ⟨k', y, hy, hyx, -⟩ := hold k x hx
      have := h.bound k' y hy
      have hlen : n'.history.length = n.history.length + 2 := by simp [hh]
      omega
    · intro k₁ k₂ x₁ x₂ hx₁ hx₂ heq
      obtain ⟨j₁, y₁, hy₁, hs₁, hk₁⟩ := hold k₁ x₁ hx₁
      obtain ⟨j₂, y₂, hy₂, hs₂, hk₂⟩ := hold k₂ x₂ hx₂
      have hj : j₁ = j₂ := h.inj j₁ j₂ y₁ y₂ hy₁ hy₂ (hs₁.trans (heq.trans hs₂.symm))
      rcases hk₁ with ⟨rfl, rfl⟩ | ⟨-, hne₁, rfl⟩ <;> rcases hk₂ with ⟨rfl, rfl⟩ | ⟨-, hne₂, rfl⟩
      · rfl
      · exact absurd hj.symm hne₂
      · exact absurd hj hne₁
      · exact hj

end

/-- The history is about channels opened before now. -/
def Past (n : Node E) : Prop := ∀ h ∈ n.history, ∀ s, h.serial = some s → s < n.history.length

section
variable {P : Node E → Happening → Prop} {n n' : Node E}

theorem Past.append {l : List Happening} (hp : Past n) (hh : n'.history = n.history ++ l)
    (hl : ∀ h ∈ l, ∀ s, h.serial = some s → s < n.history.length + l.length) : Past n' := by
  intro h hmem s hs
  rw [hh, List.length_append]
  rw [hh] at hmem
  rcases List.mem_append.1 hmem with hmem | hmem
  · have := hp h hmem s hs
    omega
  · exact hl h hmem s hs

/-- One entry about a channel of the node. -/
theorem Past.snoc {h : Happening} (hp : Past n) (hh : n'.history = n.history ++ [h])
    (hs : ∀ s, h.serial = some s → s ≤ n.history.length) : Past n' := by
  refine hp.append hh fun x hx s hxs => ?_
  obtain rfl := List.mem_singleton.1 hx
  exact Nat.lt_succ_of_le (hs s hxs)

theorem Move.past (hm : Move P n n') (hp : Past n) (hnum : Numbered n) : Past n' := by
  -- The serial number of an entry is in the past.
  have hentry : ∀ id e, n.channels.lookup id = some e → ∀ s, some e.serial = some s →
      s ≤ n.history.length := fun id e he s hs => Option.some.inj hs ▸ (hnum.bound id e he).le
  cases hm with
  | idle _ hh | link _ hh | edit _ _ _ _ _ _ _ _ hh => rw [Past, hh]; exact hp
  | act id e _ _ _ he _ _ _ hh => exact hp.snoc hh (hentry id e he)
  | refuse id e _ _ _ he _ _ hh => exact hp.snoc hh (hentry id e he)
  | spoke s msg hsaid _ hh =>
    obtain ⟨e, i, a, hmem, rfl, -⟩ := hsaid
    exact hp.snoc hh fun s hs => Option.some.inj hs ▸ (hp _ hmem _ rfl).le
  | forceClosed id e _ _ he _ _ hh => exact hp.snoc hh (hentry id e he)
  | published id e e' _ he _ hs _ hh => exact hp.snoc hh fun s hes => hentry id e' he s (hs ▸ hes)
  | failedBack _ _ hh | ordered _ _ hh | polled _ hh => exact hp.snoc hh nofun
  | opened id e _ _ hs _ hh => exact hp.snoc hh fun s hes => (Option.some.inj hes ▸ hs).le
  | fund id e _ _ _ _ he _ _ _ _ _ _ hh =>
    refine hp.append hh fun x hx s hxs => ?_
    have hlt := hnum.bound id e he
    rcases List.mem_cons.1 hx with rfl | hx
    · obtain rfl := Option.some.inj hxs
      simp only [List.length_cons]
      omega
    · obtain rfl := List.mem_singleton.1 hx
      obtain rfl := Option.some.inj hxs
      simp only [List.length_cons]
      omega

end

/-! ## What a move records -/

/-- A call of a channel that returned, or a broadcast of a commitment; a move records one of these
or none. -/
inductive Records (P : Node E → Happening → Prop) (n n' : Node E) (l : List Happening) : Prop
  | none : (∀ e i a, .acted e i (.ok a) ∉ l) → (∀ e, .forceClosed e ∉ l) → Records P n n' l
  | call (id k : ChannelId) (e x' : ChannelEntry) (i : Channel.Input) (a : i.Outcome) :
      n.channels.lookup id = some e → Channel.perform E.C i e.channel = .ok a x'.channel →
      P n (.acted e i (.ok a)) → n'.channels.lookup k = some x' → x'.serial = e.serial →
      (∀ e' i' a', .acted e' i' (.ok a') ∈ l → Happening.acted e' i' (.ok a') = .acted e i (.ok a)) →
      (∀ e, .forceClosed e ∉ l) → Records P n n' l
  | close (id : ChannelId) (e : ChannelEntry) (tx : Transaction) : n.channels.lookup id = some e →
      e.channel.signedHolderCommitmentTx E.C = .ok tx → n'.channels = n.channels →
      l = [.forceClosed e] → Records P n n' l

theorem Move.records {P : Node E → Happening → Prop} {n n' : Node E} (hm : Move P n n') :
    ∃ l, n'.history = n.history ++ l ∧ Records P n n' l := by
  cases hm with
  | idle _ hh | link _ hh | edit _ _ _ _ _ _ _ _ hh =>
    exact ⟨[], by simpa using hh, .none (by simp) (by simp)⟩
  | act id e i a ch he _ hrun hc hh _ hP =>
    refine ⟨_, hh, .call id id e { e with channel := ch } i a he hrun hP ?_ rfl ?_ (by simp)⟩
    · rw [hc, AList.lookup_insert]
    · exact fun _ _ _ hmem => List.mem_singleton.1 hmem
  | fund id e e' i a ch he _ hrun hch _ hs hlook hh _ hP _ =>
    refine ⟨_, hh, .call id ch.channelId e e' i a he (hch ▸ hrun) hP ?_ hs ?_ (by simp)⟩
    · rw [hlook, if_pos rfl]
    · intro _ _ _ hmem
      rcases List.mem_cons.1 hmem with hmem | hmem
      · exact hmem
      · cases List.mem_singleton.1 hmem
  | forceClosed id e tx _ he htx hc hh => exact ⟨_, hh, .close id e tx he htx hc rfl⟩
  | refuse _ _ _ _ _ _ _ _ hh =>
    refine ⟨_, hh, .none (fun _ _ _ hmem => ?_) (by simp)⟩
    obtain ⟨-, rfl, hr⟩ := Happening.acted.inj (List.mem_singleton.1 hmem)
    cases eq_of_heq hr
  | spoke _ _ _ _ hh | published _ _ _ _ _ _ _ _ hh | failedBack _ _ hh
  | ordered _ _ hh | opened _ _ _ _ _ _ hh | polled _ hh => exact ⟨_, hh, .none (by simp) (by simp)⟩

/-- What every method of a channel keeps holds of every channel of the node. -/
theorem Move.channels {P : Node E → Happening → Prop} {J : Channel → Prop} {n n' : Node E}
    (hfresh : ∀ ch, Channel.Fresh E.C ch → J ch)
    (hperform : ∀ i ch, J ch → Act.Ends (Channel.perform E.C i) ch J)
    (hm : Move P n n') (h : ∀ id x, n.channels.lookup id = some x → J x.channel) :
    ∀ id x, n'.channels.lookup id = some x → J x.channel := by
  have hupdate : ∀ id e', n'.channels = n.channels.insert id e' → J e'.channel →
      ∀ k x, n'.channels.lookup k = some x → J x.channel := by
    intro id e' hc hJ k x hx
    rw [hc] at hx
    rcases lookup_insert_eq hx with ⟨rfl, rfl⟩ | ⟨-, hx⟩
    · exact hJ
    · exact h k x hx
  cases hm with
  | idle hc | link hc | spoke _ _ _ hc | failedBack _ hc | ordered _ hc | polled hc =>
    exact fun id x hx => h id x (hc ▸ hx)
  | forceClosed _ _ _ _ _ _ hc | published _ _ _ _ _ _ _ hc => exact fun id x hx => h id x (hc ▸ hx)
  | edit id e e' he hch _ _ hc => exact hupdate id e' hc (hch ▸ h id e he)
  | act id e i a ch he _ hrun hc =>
    have hJ := Act.wp_ok (hperform i e.channel (h id e he)) hrun
    exact hupdate id _ hc hJ
  | refuse id e i err ch he hrun hc =>
    have hJ := Act.wp_error (hperform i e.channel (h id e he)) hrun err rfl
    exact hupdate id _ hc hJ
  | opened id e hf _ _ hc => exact hupdate id e hc (hfresh _ hf)
  | fund id e e' i a ch he _ hrun hch _ _ hlook =>
    have hJ := Act.wp_ok (hperform i e.channel (h id e he)) hrun
    intro k x hx
    rw [hlook] at hx
    split at hx
    · obtain rfl := Option.some.inj hx
      exact hch ▸ hJ
    · split at hx
      · cases hx
      · exact h k x hx

/-! ## Broadcasts -/

/-- The transaction is one of a channel, and that it was broadcast is recorded. -/
def Recorded (C : Crypto) (hs : List Happening) (tx : Transaction) : Prop :=
  (∃ e, .published e tx ∈ hs) ∨
    ∃ e, .forceClosed e ∈ hs ∧ e.channel.signedHolderCommitmentTx C = .ok tx

/-- Every broadcast that waits for the embedder is recorded. -/
def RecordsBroadcasts (n : Node E) : Prop :=
  ∀ tx, .broadcast tx ∈ n.outputs → Recorded E.C n.history tx

section
variable {P : Node E → Happening → Prop} {n n' : Node E}

theorem Recorded.mono {C : Crypto} {hs hs' : List Happening} {tx : Transaction}
    (h : Recorded C hs tx) (hp : hs <+: hs') : Recorded C hs' tx := by
  rcases h with ⟨e, he⟩ | ⟨e, he, htx⟩
  · exact .inl ⟨e, hp.subset he⟩
  · exact .inr ⟨e, hp.subset he, htx⟩

theorem Move.recordsBroadcasts (hm : Move P n n') (h : RecordsBroadcasts n) :
    RecordsBroadcasts n' := by
  have hhist := hm.history
  -- A new output that is a broadcast is recorded in this move.
  have hemits : ∀ {Q : Output E.Data → Prop}, Emits Q n n' →
      (∀ tx, Q (.broadcast tx) → Recorded E.C n'.history tx) → RecordsBroadcasts n' := by
    intro Q ho hQ tx htx
    obtain ⟨new, hnew, hall⟩ := ho
    rw [hnew] at htx
    rcases List.mem_append.1 htx with htx | htx
    · exact (h tx htx).mono hhist
    · exact hQ tx (hall _ htx)
  cases hm with
  | idle _ _ hc | edit _ _ _ _ _ _ _ _ _ hc | act _ _ _ _ _ _ _ _ _ _ hc
  | refuse _ _ _ _ _ _ _ _ _ hc | spoke _ _ _ _ _ hc | failedBack _ _ _ hc | ordered _ _ _ hc
  | opened _ _ _ _ _ _ _ hc | fund _ _ _ _ _ _ _ _ _ _ _ _ _ _ hc =>
    exact hemits hc.outputs fun _ hplain => hplain.elim
  | link _ _ _ ho _ => exact hemits ho fun _ hplain => hplain.elim
  | forceClosed id e tx reason he htx _ hh ho =>
    refine hemits (.two (Q := fun o => ∀ tx', o = .broadcast tx' → tx' = tx) ho (by simp) (by simp)) ?_
    intro tx' htx'
    rw [htx' tx' rfl, hh]
    exact .inr ⟨e, List.mem_append_right _ (List.mem_singleton_self _), htx⟩
  | published id e e' tx he _ _ _ hh ho =>
    refine hemits ho fun tx' htx' => ?_
    rcases htx' with hplain | heq | ⟨_, _, heq⟩
    · exact hplain.elim
    · obtain rfl := Output.broadcast.inj heq
      rw [hh]
      exact .inl ⟨e, List.mem_append_right _ (List.mem_singleton_self _)⟩
    · cases heq
  | polled _ hh ho =>
    intro tx htx
    rw [ho] at htx
    exact (h tx (List.mem_of_mem_tail htx)).mono hhist

end

/-! ## Rules about the past -/

/-- Every entry was allowed by `R` when it was made. -/
def Lawful (R : List Happening → Happening → Prop) (hs : List Happening) : Prop :=
  ∀ l h l', hs = l ++ h :: l' → R l h

section
variable {R : List Happening → Happening → Prop} {n n' : Node E}

theorem lawful_nil : Lawful R [] := fun l h l' heq => by simp at heq

theorem Lawful.snoc {hs : List Happening} {h : Happening} (hl : Lawful R hs) (hR : R hs h) :
    Lawful R (hs ++ [h]) := by
  intro l x l' heq
  rcases List.eq_nil_or_concat l' with rfl | ⟨l'', y, rfl⟩
  · obtain ⟨rfl, hx⟩ := List.append_inj' heq rfl
    obtain rfl := List.singleton_inj.1 hx
    exact hR
  · rw [List.concat_eq_append, ← List.cons_append, ← List.append_assoc] at heq
    exact hl l x l'' (List.append_inj' heq rfl).1

/-- Along moves every entry is allowed by `R`, if the rule of the moves implies it. -/
theorem Move.lawful {P : Node E → Happening → Prop} (hm : Move P n n') (h : Lawful R n.history)
    (hR : ∀ x, P n x → (∀ s msg, x ≠ .spoke s msg) → R n.history x)
    (hspoke : ∀ s msg, Said n.history s msg → R n.history (.spoke s msg))
    (hrekey : ∀ hs s id newId, R hs (.rekeyed s id newId)) : Lawful R n'.history := by
  cases hm with
  | idle _ hh | link _ hh | edit _ _ _ _ _ _ _ _ hh => rw [hh]; exact h
  | act _ _ _ _ _ _ _ _ _ hh _ hP => rw [hh]; exact h.snoc (hR _ hP nofun)
  | refuse _ _ _ _ _ _ _ _ hh _ hP => rw [hh]; exact h.snoc (hR _ hP nofun)
  | spoke s msg hsaid _ hh => rw [hh]; exact h.snoc (hspoke s msg hsaid)
  | forceClosed _ _ _ _ _ _ _ hh _ _ _ hP => rw [hh]; exact h.snoc (hR _ hP nofun)
  | published _ _ _ _ _ _ _ _ hh _ _ _ hP => rw [hh]; exact h.snoc (hR _ hP nofun)
  | failedBack _ _ hh _ hP | ordered _ _ hh _ hP => rw [hh]; exact h.snoc (hR _ hP nofun)
  | opened _ _ _ _ _ _ hh _ hP => rw [hh]; exact h.snoc (hR _ hP nofun)
  | fund _ e _ i a ch _ _ _ _ _ _ _ hh _ hP _ =>
    rw [hh, List.append_cons]
    exact (h.snoc (hR _ hP nofun)).snoc (hrekey _ _ _ _)
  | polled _ hh _ _ _ hP => rw [hh]; exact h.snoc (hR _ hP nofun)

end

end Node
