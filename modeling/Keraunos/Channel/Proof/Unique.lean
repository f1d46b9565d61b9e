import Keraunos.Channel.Proof.Rollback
import Keraunos.Channel.Proof.Shape

/-!
# The ids of HTLCs

In each direction the HTLCs of a channel are numbered in the order of arrival, and those our
commitment does not include yet are the newest (`Numbered`). A disconnect forgets some of these and
lowers the counter to the least id forgotten, so the ids stay unique exactly as long as it forgets
the newest (`ids_unique`).
-/

open Bitcoin

namespace Htlc

/-- The peer's add, not in our commitment yet. -/
def unlocked (h : Htlc) : Bool := !h.outbound && h.phaseHolder = .pending

/-- What the numbering depends on. -/
def mark (h : Htlc) : (Bool × HtlcId) × Bool := (h.key, h.unlocked)

theorem mark_process (h : Htlc) : h.process.mark = h.mark := by
  unfold process
  split <;> rfl

theorem mark_lockIncluded (h : Htlc) : h.lockIncluded.mark = h.mark := by
  unfold lockIncluded
  simp only
  split <;> split <;> simp_all [mark, key, unlocked]

theorem mark_lockRemoved (h : Htlc) : h.lockRemoved.mark = h.mark := by
  unfold lockRemoved
  simp only
  split <;> split <;> simp_all [mark, key, unlocked]

/-- Our next commitment includes every add of the peer. -/
theorem mark_lockHolder_acknowledge (h : Htlc) :
    h.lockHolder.acknowledge.mark = (h.key, false) := by
  have hack : h.lockHolder.acknowledge.mark = h.lockHolder.mark := by
    unfold acknowledge
    split
    · rfl
    · split <;> rfl
  rw [hack]
  unfold lockHolder
  split <;> simp_all [mark, key, unlocked]

end Htlc

namespace Channel

variable {C : Crypto} {ch ch' ch₀ : Channel}

/-- The numbers of `a`, before `b` in the list. -/
def Numbers (a b : (Bool × HtlcId) × Bool) : Prop :=
  a.1.1 = b.1.1 → a.1.2 < b.1.2 ∧ (a.2 = true → b.2 = true)

/-- The HTLCs of each direction are numbered in order, the unlocked ones last. -/
structure Numbered (ch : Channel) : Prop where
  order : (ch.htlcs.map Htlc.mark).Pairwise Numbers
  below : ∀ m ∈ ch.htlcs.map Htlc.mark, m.1.2 < ch.nextId m.1.1

namespace Numbered

/-- Only marks and counters matter, and HTLCs may go. -/
theorem sub (h : Numbered ch) (hs : (ch'.htlcs.map Htlc.mark).Sublist (ch.htlcs.map Htlc.mark))
    (hid : ∀ m, ch.nextId m ≤ ch'.nextId m) : Numbered ch' where
  order := h.order.sublist hs
  below m hm := Nat.lt_of_lt_of_le (h.below m (hs.subset hm)) (hid _)

/-- A new HTLC, unlocked if it is the peer's, takes the next number. -/
theorem concat (h : Numbered ch) {x : Htlc} (hx : x.mark = ((x.outbound, ch.nextId x.outbound),
    !x.outbound)) (hs : ch'.htlcs = ch.htlcs ++ [x])
    (hid : ∀ m, ch'.nextId m = if m = x.outbound then ch.nextId m + 1 else ch.nextId m) :
    Numbered ch' := by
  refine ⟨?_, fun m hm => ?_⟩
  · rw [hs, List.map_append, List.pairwise_append]
    refine ⟨h.order, List.pairwise_singleton _ _, fun a ha b hb hab => ?_⟩
    obtain rfl : b = x.mark := by simpa using hb
    have hlt := h.below a ha
    rw [hx] at hab ⊢
    have hout : a.1.1 = x.outbound := hab
    rw [hout] at hlt
    refine ⟨hlt, fun hua => ?_⟩
    obtain ⟨y, -, rfl⟩ := List.mem_map.1 ha
    simp only [Htlc.mark, Htlc.unlocked, Bool.and_eq_true] at hua
    exact (show y.outbound = x.outbound from hout) ▸ hua.1
  · rw [hid]
    rw [hs, List.map_append] at hm
    rcases List.mem_append.1 hm with hm | hm
    · have hlt := h.below m hm
      split
      · exact Nat.lt_succ_of_lt hlt
      · exact hlt
    · obtain rfl : m = x.mark := by simpa using hm
      rw [hx, if_pos rfl]
      exact Nat.lt_succ_self _

/-- Mutating an HTLC that is locked. -/
theorem resolve (h : Numbered ch) {k : Bool × HtlcId} {f : Htlc → Htlc}
    (hf : ∀ x, x.key = k → (f x).mark = x.mark) (hs : ch'.htlcs = htlcMut k f ch.htlcs)
    (hid : ∀ m, ch'.nextId m = ch.nextId m) : Numbered ch' := by
  refine h.sub ?_ fun m => Nat.le_of_eq (hid m).symm
  rw [hs]
  unfold htlcMut
  rw [List.map_mutFirst fun x hx => hf x (of_decide_eq_true hx)]

theorem accept (h : Numbered ch) (number : Nat) (b : Built) (msg : Wire.CommitmentSigned) :
    Numbered (ch.acceptCommitment number b msg).gcHtlcs := by
  have hmarks : (ch.acceptCommitment number b msg).htlcs.map Htlc.mark =
      (ch.htlcs.map Htlc.mark).map fun m => (m.1, false) := by
    show ((ch.htlcs.map Htlc.lockHolder).map Htlc.acknowledge).map Htlc.mark = _
    rw [List.map_map, List.map_map, List.map_map]
    exact List.map_congr_left fun x _ => x.mark_lockHolder_acknowledge
  have hmid : Numbered (ch.acceptCommitment number b msg) := by
    refine ⟨?_, fun m hm => ?_⟩
    · rw [hmarks, List.pairwise_map]
      exact h.order.imp fun hab he => ⟨(hab he).1, nofun⟩
    · rw [hmarks] at hm
      obtain ⟨m', hm', rfl⟩ := List.mem_map.1 hm
      exact h.below m' hm'
  exact hmid.sub (List.filter_sublist.map _) fun _ => Nat.le_refl _

theorem revoke (h : Numbered ch) (pending : PendingCounterpartyCommitment)
    (secrets : Shachain.SecretStore) (nextPoint : PublicKey) :
    Numbered (ch.acceptRevocation pending secrets nextPoint).gcHtlcs.processed := by
  have hmarks : (ch.acceptRevocation pending secrets nextPoint).htlcs.map Htlc.mark =
      ch.htlcs.map Htlc.mark := by
    show (pending.removed.foldl (fun hs k => htlcMut k Htlc.lockRemoved hs)
      (pending.included.foldl (fun hs k => htlcMut k Htlc.lockIncluded hs) ch.htlcs)).map _ = _
    unfold htlcMut
    rw [List.map_foldl_mutFirst Htlc.mark_lockRemoved, List.map_foldl_mutFirst Htlc.mark_lockIncluded]
  refine h.sub ?_ fun _ => Nat.le_refl _
  show ((List.filter _ (ch.acceptRevocation pending secrets nextPoint).htlcs).map Htlc.process).map
    Htlc.mark |>.Sublist _
  rw [List.map_map, show Htlc.mark ∘ Htlc.process = Htlc.mark from funext Htlc.mark_process, ← hmarks]
  exact List.filter_sublist.map _

end Numbered

theorem Initial.numbered (h : Initial ch) : Numbered ch := by
  constructor <;> simp [h.htlcs]

theorem Move.numbered (hm : Move C ch ch') (h : Numbered ch) : Numbered ch' := by
  cases hm with
  | offer amountMsat paymentHash cltvExpiry onion source =>
    exact h.concat rfl rfl fun m => by cases m <;> rfl
  | resolveInbound id r =>
    refine h.resolve ?_ rfl fun _ => rfl
    exact fun _ _ => rfl
  | receive msg hc =>
    have hid : msg.id = ch.nextCounterpartyHtlcId := by
      simp only [checkUpdateAddHtlc, Fault.bind_eq_ok, Fault.require_eq_ok] at hc
      obtain ⟨_, -, _, -, _, hid, -⟩ := hc
      exact hid
    refine h.concat ?_ rfl fun m => by cases m <;> rfl
    simp [Htlc.mark, Htlc.key, Htlc.unlocked, hid, nextId]
  | resolveOutbound id r =>
    refine h.resolve (fun x hx => ?_) rfl fun _ => rfl
    have hout : x.outbound = true := congrArg Prod.fst hx
    simp [Htlc.mark, Htlc.key, Htlc.unlocked, hout]
  | revoke pending secret point secrets nextPoint => exact h.revoke pending secrets nextPoint
  | _ => exact h.sub (List.Sublist.refl _) fun _ => Nat.le_refl _

/-- An unlocked HTLC is newer than those that are locked. -/
theorem Numbered.lt_of_unlocked (h : Numbered ch) {x z : Htlc} (hx : x ∈ ch.htlcs)
    (hz : z ∈ ch.htlcs) (ho : x.outbound = false) (hu : x.unlocked = false)
    (huz : z.unlocked = true) : x.id < z.id := by
  have hout : x.outbound = z.outbound := by
    simp only [Htlc.unlocked, Bool.and_eq_true, Bool.not_eq_true'] at huz
    exact ho.trans huz.1.symm
  have hpair := List.pairwise_iff_getElem.1 (List.pairwise_map.1 h.order)
  obtain ⟨i, hi, rfl⟩ := List.getElem_of_mem hx
  obtain ⟨j, hj, rfl⟩ := List.getElem_of_mem hz
  rcases Nat.lt_trichotomy i j with hij | rfl | hji
  · exact (hpair i j hi hj hij hout).1
  · cases hu.symm.trans huz
  · cases hu.symm.trans ((hpair j i hj hi hji hout.symm).2 huz)

/-! ## Disconnects -/

/-- The ids that a disconnect forgets. -/
def forgets (ch : Channel) (h : Htlc) : Bool := h.unlocked && !ch.inOurCurrent h

/-- Every unlocked HTLC that looks like one of our current commitment is older than those that do
not. -/
def ForgetsNewest (ch : Channel) : Prop :=
  ∀ h ∈ ch.htlcs, ∀ h' ∈ ch.htlcs, h.unlocked = true → ch.inOurCurrent h = true →
    ch.forgets h' = true → h.id < h'.id

instance : Decidable (ForgetsNewest ch) :=
  inferInstanceAs (Decidable (∀ h ∈ ch.htlcs, ∀ h' ∈ ch.htlcs, _))

/-- The only HTLCs dropped are ours that no one signed and the peer's that are forgotten. -/
theorem RollsBack.marks {h : Htlc} {r : Rollback} (hr : RollsBack ch h r) :
    (∀ x, r.keep = some x → x.mark = h.mark) ∧
      r.forgotten = (if ch.forgets h then some h.id else none) ∧
      (h.outbound = false → r.keep = none → ch.forgets h = true) := by
  cases hr with
  | keep _ _ _ hcur =>
    refine ⟨fun x hx => Option.some.inj hx ▸ rfl, ?_, nofun⟩
    by_cases hu : h.unlocked = true
    · have hu' := hu
      simp only [Htlc.unlocked, Bool.and_eq_true, Bool.not_eq_true', decide_eq_true_eq] at hu'
      simp [forgets, hcur hu'.1 hu'.2]
    · simp [forgets, hu]
  | unoffer _ ho => simp [forgets, Htlc.unlocked, ho]
  | unacknowledge ho hh | unresolve ho hh =>
    refine ⟨fun x hx => Option.some.inj hx ▸ rfl, ?_, nofun⟩
    simp [forgets, Htlc.unlocked, hh]
  | unacknowledgeRemoval ho hh | unremove ho hh =>
    refine ⟨fun x hx => ?_, by simp [forgets, Htlc.unlocked, ho], nofun⟩
    obtain rfl := Option.some.inj hx
    simp [Htlc.mark, Htlc.key, Htlc.unlocked, ho]
  | forget ho hh _ hcur => simp [forgets, Htlc.unlocked, ho, hh, hcur]

theorem lt_foldl_min {n k : Nat} {ks : List Nat} :
    n < ks.foldl min k ↔ n < k ∧ ∀ j ∈ ks, n < j := by
  induction ks generalizing k with
  | nil => simp
  | cons j ks ih =>
    rw [List.foldl_cons, ih, Nat.lt_min, List.forall_mem_cons]
    exact and_assoc

section
variable {rs : List Rollback}

/-- The counter after a disconnect. -/
theorem Phased.lt_nextId (h : Phased ch) (hrs : ch.htlcs.mapM ch.rollback = some rs) {n : Nat} :
    n < (ch.rolledBack rs).nextCounterpartyHtlcId ↔
      n < ch.nextCounterpartyHtlcId ∧ ∀ x ∈ ch.htlcs, ch.forgets x = true → n < x.id := by
  show n < (rs.filterMap (·.forgotten)).foldl min ch.nextCounterpartyHtlcId ↔ _
  rw [lt_foldl_min, List.filterMap_of_mapM hrs]
  refine and_congr_right' ⟨fun hall x hx hf => ?_, fun hall k hk => ?_⟩
  · obtain ⟨r, hr, hrb⟩ := rollback_spec ch (h.disciplined x hx) (h.sourced x hx)
    refine hall x.id (List.mem_filterMap.2 ⟨x, hx, ?_⟩)
    rw [hr, Option.bind_some, hrb.marks.2.1, if_pos hf]
  · obtain ⟨x, hx, hxk⟩ := List.mem_filterMap.1 hk
    obtain ⟨r, hr, hk⟩ := Option.bind_eq_some_iff.1 hxk
    rw [(h.rollsBack hx hr).marks.2.1] at hk
    split at hk
    · next hf => exact Option.some.inj hk ▸ hall x hx hf
    · cases hk

/-- What a disconnect keeps. -/
theorem Phased.kept (h : Phased ch) (hrs : ch.htlcs.mapM ch.rollback = some rs) {y : Htlc}
    (hy : y ∈ (ch.rolledBack rs).htlcs) :
    ∃ x ∈ ch.htlcs, y.mark = x.mark ∧ ch.forgets x = false := by
  have hlist : (ch.rolledBack rs).htlcs = ch.htlcs.filterMap fun x => (ch.rollback x).bind (·.keep) :=
    List.filterMap_of_mapM hrs
  rw [hlist] at hy
  obtain ⟨x, hx, hxy⟩ := List.mem_filterMap.1 hy
  obtain ⟨r, hr, hk⟩ := Option.bind_eq_some_iff.1 hxy
  have hrb := h.rollsBack hx hr
  refine ⟨x, hx, hrb.marks.1 y hk, ?_⟩
  cases hf : ch.forgets x with
  | false => rfl
  | true =>
    have hne := hrb.marks.2.1
    rw [hf, if_pos rfl] at hne
    cases hrb with
    | forget => cases hk
    | _ => cases hne

theorem Numbered.rolledBack (hn : Numbered ch) (h : Phased ch)
    (hrs : ch.htlcs.mapM ch.rollback = some rs) (hnew : ch.ForgetsNewest) :
    Numbered (ch.rolledBack rs) := by
  have hlist : (ch.rolledBack rs).htlcs = ch.htlcs.filterMap fun x => (ch.rollback x).bind (·.keep) :=
    List.filterMap_of_mapM hrs
  refine ⟨?_, fun m hm => ?_⟩
  · rw [hlist, List.pairwise_map, List.pairwise_filterMap]
    refine List.Pairwise.imp_of_mem ?_ (List.pairwise_map.1 hn.order)
    intro a b ha hb hab a' ha' b' hb'
    obtain ⟨ra, hra, hka⟩ := Option.bind_eq_some_iff.1 ha'
    obtain ⟨rb, hrb, hkb⟩ := Option.bind_eq_some_iff.1 hb'
    rw [(h.rollsBack ha hra).marks.1 a' hka, (h.rollsBack hb hrb).marks.1 b' hkb]
    exact hab
  · obtain ⟨y, hy, rfl⟩ := List.mem_map.1 hm
    obtain ⟨x, hx, hmark, hkept⟩ := h.kept hrs hy
    rw [hmark]
    have hlt := hn.below _ (List.mem_map_of_mem hx)
    show x.id < (ch.rolledBack rs).nextId x.outbound
    cases ho : x.outbound with
    | true =>
      rw [show x.mark.1.1 = true from ho] at hlt
      exact hlt
    | false =>
      refine (h.lt_nextId hrs).2 ⟨?_, fun z hz hf => ?_⟩
      · rw [show x.mark.1.1 = false from ho] at hlt
        exact hlt
      · cases hu : x.unlocked with
        | true => exact hnew x hx z hz hu (by simpa [forgets, hu] using hkept) hf
        | false => exact hn.lt_of_unlocked hx hz ho hu (by simp_all [forgets])

end

/-! ## Runs -/

/-- No two HTLCs of one direction share an id, all ids are below the counters, and looking an HTLC up
by direction and id finds it. -/
structure IdsUnique (ch : Channel) : Prop where
  distinct : (ch.htlcs.map Htlc.key).Nodup
  outbound : ∀ h ∈ ch.htlcs, h.outbound = true → h.id < ch.nextHolderHtlcId
  inbound : ∀ h ∈ ch.htlcs, h.outbound = false → h.id < ch.nextCounterpartyHtlcId
  found : ∀ h ∈ ch.htlcs, ch.findHtlc h.key = some h

theorem findHtlc_of_distinct (hd : (ch.htlcs.map Htlc.key).Nodup) {h : Htlc} (hh : h ∈ ch.htlcs) :
    ch.findHtlc h.key = some h := by
  obtain ⟨x, hx⟩ := Option.isSome_iff_exists.1 (List.find?_isSome.2
    ⟨h, hh, decide_eq_true (Eq.refl h.key)⟩ : (ch.findHtlc h.key).isSome)
  have hk := List.find?_some hx
  obtain rfl : x = h := List.inj_on_of_nodup_map hd (List.mem_of_find?_eq_some hx) hh
    (of_decide_eq_true hk)
  exact hx

theorem Numbered.idsUnique (h : Numbered ch) : IdsUnique ch := by
  have hd : (ch.htlcs.map Htlc.key).Nodup := by
    refine List.pairwise_map.2 ((List.pairwise_map.1 h.order).imp fun {a b} hab he => ?_)
    exact Nat.lt_irrefl _ ((congrArg Prod.snd he : a.id = b.id) ▸ (hab (congrArg Prod.fst he)).1)
  refine ⟨hd, fun x hx ho => ?_, fun x hx ho => ?_, fun x hx => findHtlc_of_distinct hd hx⟩
  · have hlt := h.below _ (List.mem_map_of_mem hx)
    rwa [show x.mark.1.1 = true from ho] at hlt
  · have hlt := h.below _ (List.mem_map_of_mem hx)
    rwa [show x.mark.1.1 = false from ho] at hlt

theorem numbered_of_run {tr : Trace Input ChannelError (List Wire.Message)} (h₀ : Fresh C ch₀)
    (hr : Run.Within (step C) (fun ch i => i.disconnects = true → ch.ForgetsNewest) ch₀ tr ch) :
    Numbered ch := by
  refine hr.invariant_of_run h₀.initial.numbered ?_
  intro tr ch i hrun hA h
  refine (step_stepped i ch).mono fun ch' hs => ?_
  cases hs with
  | moves _ hm => exact hm.invariant (fun _ _ hm => hm.numbered) h
  | refused => exact h
  | accepted msg b => exact h.accept _ b msg
  | rolledBack rs hrs => exact h.rolledBack (phased_of_run h₀ hrun) hrs (hA rfl)

/-- The ids are unique as long as every disconnect forgets the newest of the peer's HTLCs; a
disconnect that does not leaves an id that the peer is to use again. -/
theorem ids_unique {tr : Trace Input ChannelError (List Wire.Message)} (h₀ : Fresh C ch₀)
    (hr : Run.Within (step C) (fun ch i => i.disconnects = true → ch.ForgetsNewest) ch₀ tr ch) :
    IdsUnique ch ∧ ∃ ch', onDisconnect ch = .ok () ch' ∧ (IdsUnique ch' ↔ ch.ForgetsNewest) := by
  have hn := numbered_of_run h₀ hr
  have hph := phased_of_run h₀ hr.run
  obtain ⟨rs, hrs, -⟩ := hph.rollbacks
  refine ⟨hn.idsUnique, ch.rolledBack rs, onDisconnect_ok hrs, fun hu => ?_, fun hnew =>
    (hn.rolledBack hph hrs hnew).idsUnique⟩
  intro x hx z hz hxu hcur hf
  -- `x` is kept, so its id is below the counter, which is at most the id of `z`.
  obtain ⟨r, hr', hrb⟩ := rollback_spec ch (hph.disciplined x hx) (hph.sourced x hx)
  have hout : x.outbound = false := by
    simp only [Htlc.unlocked, Bool.and_eq_true, Bool.not_eq_true'] at hxu
    exact hxu.1
  cases hk : r.keep with
  | none =>
    have hforgot := hrb.marks.2.2 hout hk
    simp [forgets, hxu, hcur] at hforgot
  | some y =>
    have hmark := hrb.marks.1 y hk
    have hlt := hu.inbound y (mem_rolledBack hrs hx hr' hk)
      ((congrArg (·.1.1) hmark : y.outbound = x.outbound).trans hout)
    rw [show y.id = x.id from congrArg (·.1.2) hmark] at hlt
    exact ((hph.lt_nextId hrs).1 hlt).2 z hz hf

/-- The accepter loses the connection before the signature over an add. -/
theorem ids_unique_bob :
    ∃ tr ch, Run.Within (step Demo.C) (fun ch i => i.disconnects = true → ch.ForgetsNewest)
      Demo.bob.1 tr ch ∧ ch.htlcs.map (·.id) = [0, 1] ∧ IdsUnique ch := by
  obtain ⟨tr, ch, hr, hids⟩ := Run.Within.exists_of_exec (f := step Demo.C)
    (A := fun ch i => i.disconnects = true → ch.ForgetsNewest) (s := Demo.bob.1)
    (Pair.inputs Demo.C .b Demo.start
      (Demo.handshake ++ Demo.payment ++ [.command .b (.updateAddHtlc (Demo.add 1 4)),
        .command .b .disconnect, .command .b (.updateAddHtlc (Demo.add 1 5))]))
    (·.htlcs.map (·.id) = [0, 1]) (by
      rw [Demo.bob_tabled, Demo.start_tabled]
      decide +kernel)
  exact ⟨tr, ch, hr, hids, (ids_unique Demo.bob_fresh hr).1⟩

/-- Two adds, the second with the hash, amount and expiry of an HTLC of our commitment: a disconnect
forgets the first only, and the peer, numbering on from it, reuses the id of the second. -/
theorem ids_collide :
    ∃ tr ch, Run (step Demo.C) Demo.bob.1 tr ch ∧ ch.htlcs.map (·.id) = [0, 2, 1, 2] ∧
      ¬ IdsUnique ch := by
  obtain ⟨tr, ch, hr, hkeys, -⟩ := Demo.exists_chan
    (Demo.handshake ++ Demo.payment ++ [.command .b (.updateAddHtlc (Demo.add 1 4)),
      .command .b (.updateAddHtlc (Demo.add 2 3)), .command .b .disconnect,
      .command .b (.updateAddHtlc (Demo.add 1 4)), .command .b (.updateAddHtlc (Demo.add 2 4))]) .b
    (·.htlcs.map Htlc.key = [(false, 0), (false, 2), (false, 1), (false, 2)]) (by decide +kernel)
  refine ⟨tr, ch, hr, ?_, fun hu => ?_⟩
  · simpa [Htlc.key, Function.comp_def] using congrArg (List.map Prod.snd) hkeys
  · have hd := hu.distinct
    rw [hkeys] at hd
    exact absurd hd (by decide)

end Channel
