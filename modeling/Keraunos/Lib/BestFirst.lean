import Mathlib.Algebra.BigOperators.Group.Finset.Basic
import Mathlib.Algebra.GroupWithZero.Nat
import Mathlib.Algebra.Order.BigOperators.Group.Finset
import Mathlib.Data.List.Nodup
import Mathlib.Logic.Function.Basic
import Mathlib.Order.Defs.LinearOrder

/-!
# Best-first search

A search keeps the best label found for each node, and a queue of nodes with the costs they had when
they were entered. It expands the nodes in the order of their costs; an entry whose node has got a
better label since is stale. Where an expansion never lowers the cost (`Grows`), a node that was
expanded keeps its label, so the labels of a finished search fit together (`Sound.grown`) and are
the least (`Sound.least`).
-/

namespace BestFirst

/-- The labels found, and the nodes that wait, with their costs. -/
structure Search (ν L κ : Type) where
  best : ν → Option L
  queue : List (κ × ν)

/-- Taking an entry of least cost out of a queue. -/
structure Pops {ν κ : Type} [LE κ] (pop : List (κ × ν) → Option ((κ × ν) × List (κ × ν))) : Prop where
  none : ∀ q, pop q = none → q = []
  perm : ∀ q e q', pop q = some (e, q') → q.Perm (e :: q')
  least : ∀ q e q', pop q = some (e, q') → ∀ e' ∈ q, e.1 ≤ e'.1

section
variable {ν L κ : Type} [DecidableEq ν] [LinearOrder κ] (cost : L → κ)

/-- Label the node, if it has no label that is as good. -/
def offer (s : Search ν L κ) (x : ν × L) : Search ν L κ :=
  if (s.best x.1).all fun l => cost x.2 < cost l then
    ⟨Function.update s.best x.1 (some x.2), (cost x.2, x.1) :: s.queue⟩
  else s

variable (pop : List (κ × ν) → Option ((κ × ν) × List (κ × ν))) (next : ν → L → List (ν × L))

def expand (s : Search ν L κ) (v : ν) (l : L) : Search ν L κ := (next v l).foldl (offer cost) s

/-- Search until the queue is empty; the nodes expanded, in order. -/
def run : Nat → Search ν L κ → List (ν × L) → Search ν L κ × List (ν × L)
  | 0, s, settled => (s, settled)
  | n + 1, s, settled =>
    match pop s.queue with
    | none => (s, settled)
    | some ((c, v), q) =>
      match s.best v with
      | none => run n ⟨s.best, q⟩ settled
      | some l =>
        if cost l < c then run n ⟨s.best, q⟩ settled
        else run n (expand cost next ⟨s.best, q⟩ v l) (settled ++ [(v, l)])

/-- An expansion never lowers the cost. -/
def Grows (Good : L → Prop) : Prop :=
  ∀ v l, Good l → ∀ x ∈ next v l, cost l ≤ cost x.2 ∧ Good x.2

/-- Each of the list is the start, or comes from the expansion of one before it. -/
inductive Grown (start : ν × L) : List (ν × L) → Prop
  | nil : Grown start []
  | snoc {xs : List (ν × L)} {x : ν × L} : Grown start xs →
      (x = start ∨ ∃ y ∈ xs, x ∈ next y.1 y.2) → Grown start (xs ++ [x])

/-- What expansions by `ref` derive from the start. -/
inductive Derives (ref : ν → L → List (ν × L)) (start : ν × L) : ν → L → Prop
  | start : Derives ref start start.1 start.2
  | step {w : ν} {m : L} {v : ν} {l : L} : Derives ref start w m → (v, l) ∈ ref w m →
      Derives ref start v l

/-- What holds of a search that has expanded `settled`. -/
structure Sound (Good : L → Prop) (start : ν × L) (s : Search ν L κ) (settled : List (ν × L)) :
    Prop where
  good : ∀ v l, s.best v = some l → Good l
  /-- A node that waits has a label, and the label is as good as its entry. -/
  labelled : ∀ c v, (c, v) ∈ s.queue → ∃ l, s.best v = some l ∧ cost l ≤ c
  queued : ∀ v l, s.best v = some l → (v, l) ∈ settled ∨ (cost l, v) ∈ s.queue
  /-- A node that was expanded keeps its label, and does not wait any more. -/
  final : ∀ v l, (v, l) ∈ settled → s.best v = some l
  gone : ∀ v l, (v, l) ∈ settled → (cost l, v) ∉ s.queue
  nodup : s.queue.Nodup
  once : (settled.map Prod.fst).Nodup
  sorted : settled.Pairwise fun x y => cost x.2 ≤ cost y.2
  ahead : ∀ x ∈ settled, ∀ e ∈ s.queue, cost x.2 ≤ e.1
  origin : ∀ v l, s.best v = some l → (v, l) = start ∨ ∃ y ∈ settled, (v, l) ∈ next y.1 y.2
  grown : Grown next start settled

/-- What the nodes of `settled` lead to has a label that is as good. -/
def Closed (s : Search ν L κ) (settled : List (ν × L)) : Prop :=
  ∀ y ∈ settled, ∀ x ∈ next y.1 y.2, ∃ l, s.best x.1 = some l ∧ cost l ≤ cost x.2

end

section
variable {ν L κ : Type} [DecidableEq ν] [LinearOrder κ] {cost : L → κ} {next : ν → L → List (ν × L)}
  {Good : L → Prop} {start : ν × L} {s : Search ν L κ} {settled : List (ν × L)}

theorem Sound.initial (hgood : Good start.2) :
    Sound cost next Good start
      ⟨Function.update (fun _ => none) start.1 (some start.2), [(cost start.2, start.1)]⟩ [] := by
  have hbest : ∀ v l, Function.update (fun _ => none) start.1 (some start.2) v = some l →
      (v, l) = start := by
    intro v l h
    by_cases hv : v = start.1
    · subst hv
      rw [Function.update_self] at h
      rw [← Option.some.inj h]
    · rw [Function.update_of_ne hv] at h
      cases h
  refine ⟨fun v l h => ?_, fun c v h => ?_, fun v l h => ?_, fun _ _ => nofun, fun _ _ => nofun,
    List.nodup_singleton _, List.nodup_nil, .nil, fun _ => nofun, fun v l h => .inl (hbest v l h), .nil⟩
  · rw [← hbest v l h] at hgood
    exact hgood
  · obtain ⟨rfl, rfl⟩ := Prod.mk.inj (List.mem_singleton.1 h)
    refine ⟨start.2, ?_, le_rfl⟩
    exact Function.update_self (f := fun _ => none) ..
  · rw [← hbest v l h]
    exact .inr (List.mem_singleton_self _)

omit [DecidableEq ν] [LinearOrder κ] in
/-- What an expansion raises by one at most is below the length of the list. -/
theorem Grown.rank_lt {xs : List (ν × L)} (h : Grown next start xs) (rank : L → Nat)
    (hstart : rank start.2 = 0) (hnext : ∀ v l, ∀ x ∈ next v l, rank x.2 ≤ rank l + 1) :
    ∀ x ∈ xs, rank x.2 < xs.length := by
  induction h with
  | nil => exact fun _ => nofun
  | @snoc xs x _ hx ih =>
    intro y hy
    rw [List.length_append, List.length_singleton]
    rcases List.mem_append.1 hy with hy | hy
    · exact Nat.lt_succ_of_lt (ih y hy)
    · obtain rfl := List.mem_singleton.1 hy
      rcases hx with rfl | ⟨z, hz, hx⟩
      · rw [hstart]
        exact Nat.succ_pos _
      · have hrank := hnext _ _ _ hx
        have hbefore := ih z hz
        omega

omit [DecidableEq ν] [LinearOrder κ] in
theorem Grown.derives {xs : List (ν × L)} (h : Grown next start xs) :
    ∀ x ∈ xs, Derives next start x.1 x.2 := by
  induction h with
  | nil => exact fun _ => nofun
  | @snoc xs x _ hx ih =>
    intro y hy
    rcases List.mem_append.1 hy with hy | hy
    · exact ih y hy
    · obtain rfl := List.mem_singleton.1 hy
      rcases hx with rfl | ⟨z, hz, hx⟩
      · exact .start
      · exact (ih z hz).step hx

omit [DecidableEq ν] [LinearOrder κ] in
theorem Derives.mono {ref : ν → L → List (ν × L)} (hsub : ∀ v l, next v l ⊆ ref v l) {v : ν} {l : L}
    (h : Derives next start v l) : Derives ref start v l := by
  induction h with
  | start => exact .start
  | step _ hx ih => exact ih.step (hsub _ _ hx)

/-! ## One entry of the queue -/

omit [DecidableEq ν] in
/-- A stale entry is dropped. -/
theorem Sound.skip (hs : Sound cost next Good start s settled) {c : κ} {v : ν} {l : L}
    {q : List (κ × ν)} (hq : s.queue.Perm ((c, v) :: q)) (hl : s.best v = some l) (hc : cost l < c) :
    Sound cost next Good start ⟨s.best, q⟩ settled := by
  have hmem : ∀ e ∈ q, e ∈ s.queue := fun e he => hq.mem_iff.2 (List.mem_cons_of_mem _ he)
  refine ⟨hs.good, fun c' v' h => hs.labelled c' v' (hmem _ h), fun v' l' h => ?_, hs.final,
    fun v' l' h h' => hs.gone v' l' h (hmem _ h'), (List.nodup_cons.1 (hq.nodup_iff.1 hs.nodup)).2,
    hs.once, hs.sorted, fun x hx e he => hs.ahead x hx e (hmem e he), hs.origin, hs.grown⟩
  refine (hs.queued v' l' h).imp_right fun hin => ?_
  refine (List.mem_cons.1 (hq.mem_iff.1 hin)).resolve_left fun heq => ?_
  obtain ⟨hcost, rfl⟩ := Prod.mk.inj heq
  obtain rfl := Option.some.inj (hl.symm.trans h)
  exact absurd hcost hc.ne

omit [DecidableEq ν] in
/-- An entry of least cost that is not stale settles its node. -/
theorem Sound.settle (hs : Sound cost next Good start s settled) {c : κ} {v : ν} {l : L}
    {q : List (κ × ν)} (hq : s.queue.Perm ((c, v) :: q)) (hleast : ∀ e ∈ s.queue, c ≤ e.1)
    (hl : s.best v = some l) (hc : ¬ cost l < c) :
    Sound cost next Good start ⟨s.best, q⟩ (settled ++ [(v, l)]) := by
  have hin : (c, v) ∈ s.queue := hq.mem_iff.2 List.mem_cons_self
  have hcost : cost l = c := by
    obtain ⟨l', hl', hle⟩ := hs.labelled c v hin
    obtain rfl := Option.some.inj (hl.symm.trans hl')
    exact le_antisymm hle (not_lt.1 hc)
  have hmem : ∀ e ∈ q, e ∈ s.queue := fun e he => hq.mem_iff.2 (List.mem_cons_of_mem _ he)
  have hnew : v ∉ settled.map Prod.fst := by
    intro h
    obtain ⟨⟨v', l'⟩, hx, rfl⟩ := List.mem_map.1 h
    obtain rfl := Option.some.inj (hl.symm.trans (hs.final _ _ hx))
    exact hs.gone _ _ hx (hcost ▸ hin)
  refine ⟨hs.good, fun c' v' h => hs.labelled c' v' (hmem _ h), fun v' l' h => ?_, fun v' l' h => ?_,
    fun v' l' h h' => ?_, (List.nodup_cons.1 (hq.nodup_iff.1 hs.nodup)).2, ?_, ?_, fun x hx e he => ?_,
    fun v' l' h => ?_, hs.grown.snoc (hs.origin v l hl)⟩
  · rcases hs.queued v' l' h with hset | hque
    · exact .inl (List.mem_append_left _ hset)
    · rcases List.mem_cons.1 (hq.mem_iff.1 hque) with heq | hrest
      · obtain rfl := (Prod.mk.inj heq).2
        obtain rfl := Option.some.inj (hl.symm.trans h)
        exact .inl (List.mem_append_right _ (List.mem_singleton_self _))
      · exact .inr hrest
  · rcases List.mem_append.1 h with h | h
    · exact hs.final v' l' h
    · obtain ⟨rfl, rfl⟩ := Prod.mk.inj (List.mem_singleton.1 h)
      exact hl
  · rcases List.mem_append.1 h with h | h
    · exact hs.gone v' l' h (hmem _ h')
    · obtain ⟨rfl, rfl⟩ := Prod.mk.inj (List.mem_singleton.1 h)
      exact (List.nodup_cons.1 (hq.nodup_iff.1 hs.nodup)).1 (hcost ▸ h')
  · rw [List.map_append, List.nodup_append]
    refine ⟨hs.once, List.nodup_singleton _, fun a ha b hb hab => hnew ?_⟩
    obtain rfl : b = v := List.mem_singleton.1 hb
    exact hab ▸ ha
  · refine List.pairwise_append.2 ⟨hs.sorted, List.pairwise_singleton .., fun x hx y hy => ?_⟩
    rw [List.mem_singleton.1 hy, hcost]
    exact hs.ahead x hx _ hin
  · rcases List.mem_append.1 hx with hx | hx
    · exact hs.ahead x hx e (hmem e he)
    · rw [List.mem_singleton.1 hx, hcost]
      exact hleast e (hmem e he)
  · exact (hs.origin v' l' h).imp_right fun ⟨y, hy, hn⟩ => ⟨y, List.mem_append_left _ hy, hn⟩

/-! ## One expansion -/

/-- The labels of `s'` are as good as those of `s`. -/
def Improves (cost : L → κ) (s s' : Search ν L κ) : Prop :=
  ∀ v l, s.best v = some l → ∃ l', s'.best v = some l' ∧ cost l' ≤ cost l

omit [DecidableEq ν] in
theorem Improves.rfl : Improves cost s s := fun _ l h => ⟨l, h, le_rfl⟩

omit [DecidableEq ν] in
theorem Improves.trans {s' s'' : Search ν L κ} (h : Improves cost s s') (h' : Improves cost s' s'') :
    Improves cost s s'' := by
  intro v l hl
  obtain ⟨l', hl', hle⟩ := h v l hl
  obtain ⟨l'', hl'', hle'⟩ := h' v l' hl'
  exact ⟨l'', hl'', hle'.trans hle⟩

/-- Every label of a node is beaten by a better one. -/
theorem beats_iff {o : Option L} {l : L} :
    (o.all fun l' => cost l < cost l') = true ↔ ∀ l', o = some l' → cost l < cost l' := by
  cases o with
  | none => simp
  | some l' => simp

theorem offer_improves (x : ν × L) : Improves cost s (offer cost s x) := by
  intro v l hl
  unfold offer
  split
  · next hbeats =>
    by_cases hv : v = x.1
    · subst hv
      exact ⟨x.2, Function.update_self .., (beats_iff.1 hbeats l hl).le⟩
    · exact ⟨l, (Function.update_of_ne hv ..).trans hl, le_rfl⟩
  · exact ⟨l, hl, le_rfl⟩

variable (cost s) in
/-- Afterwards the node has a label that is as good as the one offered. -/
theorem offer_closed (x : ν × L) : ∃ l, (offer cost s x).best x.1 = some l ∧ cost l ≤ cost x.2 := by
  unfold offer
  split
  · exact ⟨x.2, Function.update_self .., le_rfl⟩
  · next hbeats =>
    rw [Bool.not_eq_true, ← Bool.not_eq_true, beats_iff, not_forall] at hbeats
    obtain ⟨l, hbeats⟩ := hbeats
    rw [Classical.not_imp, not_lt] at hbeats
    exact ⟨l, hbeats⟩

theorem Sound.offer (hs : Sound cost next Good start s settled) {x : ν × L}
    (hx : ∃ y ∈ settled, x ∈ next y.1 y.2) (hgood : Good x.2)
    (hle : ∀ y ∈ settled, cost y.2 ≤ cost x.2) :
    Sound cost next Good start (BestFirst.offer cost s x) settled := by
  unfold BestFirst.offer
  split
  swap
  · exact hs
  next hbeats =>
  rw [beats_iff] at hbeats
  obtain ⟨v, l⟩ := x
  have hopen : ∀ l', (v, l') ∉ settled := fun l' h =>
    absurd (hle _ h) (not_le.2 (hbeats l' (hs.final v l' h)))
  have hother : ∀ u, u ≠ v → Function.update s.best v (some l) u = s.best u :=
    fun u hu => Function.update_of_ne hu ..
  have hself : Function.update s.best v (some l) v = some l := Function.update_self ..
  refine ⟨fun u m h => ?_, fun c u h => ?_, fun u m h => ?_, fun u m h => ?_, fun u m h h' => ?_, ?_,
    hs.once, hs.sorted, fun y hy e he => ?_, fun u m h => ?_, hs.grown⟩
  · by_cases hu : u = v
    · subst hu
      exact Option.some.inj (hself.symm.trans h) ▸ hgood
    · exact hs.good u m (hother u hu ▸ h)
  · rcases List.mem_cons.1 h with heq | h
    · obtain ⟨rfl, rfl⟩ := Prod.mk.inj heq
      exact ⟨l, hself, le_rfl⟩
    · obtain ⟨m, hm, hc⟩ := hs.labelled c u h
      by_cases hu : u = v
      · subst hu
        exact ⟨l, hself, (hbeats m hm).le.trans hc⟩
      · exact ⟨m, (hother u hu).trans hm, hc⟩
  · by_cases hu : u = v
    · subst hu
      obtain rfl := Option.some.inj (hself.symm.trans h)
      exact .inr List.mem_cons_self
    · exact (hs.queued u m (hother u hu ▸ h)).imp_right (List.mem_cons_of_mem _)
  · have hu : u ≠ v := fun heq => hopen m (heq ▸ h)
    exact (hother u hu).trans (hs.final u m h)
  · rcases List.mem_cons.1 h' with heq | h'
    · obtain rfl : u = v := (Prod.mk.inj heq).2
      exact hopen m h
    · exact hs.gone u m h h'
  · refine List.nodup_cons.2 ⟨fun h => ?_, hs.nodup⟩
    obtain ⟨m, hm, hc⟩ := hs.labelled _ v h
    exact absurd hc (not_le.2 (hbeats m hm))
  · rcases List.mem_cons.1 he with heq | he
    · rw [heq]
      exact hle y hy
    · exact hs.ahead y hy e he
  · by_cases hu : u = v
    · subst hu
      obtain rfl := Option.some.inj (hself.symm.trans h)
      exact .inr hx
    · exact hs.origin u m (hother u hu ▸ h)

theorem Sound.offers (xs : List (ν × L)) (hs : Sound cost next Good start s settled)
    (hx : ∀ x ∈ xs, (∃ y ∈ settled, x ∈ next y.1 y.2) ∧ Good x.2 ∧
      ∀ y ∈ settled, cost y.2 ≤ cost x.2) :
    Sound cost next Good start (xs.foldl (BestFirst.offer cost) s) settled ∧
      Improves cost s (xs.foldl (BestFirst.offer cost) s) ∧
      ∀ x ∈ xs, ∃ l, (xs.foldl (BestFirst.offer cost) s).best x.1 = some l ∧ cost l ≤ cost x.2 := by
  induction xs generalizing s with
  | nil => exact ⟨hs, .rfl, fun _ => nofun⟩
  | cons x xs ih =>
    obtain ⟨hfrom, hgood, hle⟩ := hx x List.mem_cons_self
    obtain ⟨hsound, himp, hclosed⟩ := ih (hs.offer hfrom hgood hle) fun y hy =>
      hx y (List.mem_cons_of_mem _ hy)
    refine ⟨hsound, (offer_improves x).trans himp, fun y hy => ?_⟩
    rcases List.mem_cons.1 hy with rfl | hy
    · obtain ⟨l, hl, hc⟩ := offer_closed cost s y
      obtain ⟨l', hl', hc'⟩ := himp _ l hl
      exact ⟨l', hl', hc'.trans hc⟩
    · exact hclosed y hy

/-- A node is settled and expanded. -/
theorem Sound.step (hg : Grows cost next Good) (hs : Sound cost next Good start s settled)
    (hc : Closed cost next s settled) {c : κ} {v : ν} {l : L} {q : List (κ × ν)}
    (hq : s.queue.Perm ((c, v) :: q)) (hleast : ∀ e ∈ s.queue, c ≤ e.1) (hl : s.best v = some l)
    (hstale : ¬ cost l < c) :
    Sound cost next Good start (expand cost next ⟨s.best, q⟩ v l) (settled ++ [(v, l)]) ∧
      Closed cost next (expand cost next ⟨s.best, q⟩ v l) (settled ++ [(v, l)]) ∧
      Improves cost s (expand cost next ⟨s.best, q⟩ v l) := by
  have hset := hs.settle hq hleast hl hstale
  have hlast : ∀ y ∈ settled ++ [(v, l)], cost y.2 ≤ cost l := by
    intro y hy
    rcases List.mem_append.1 hy with h | h
    · exact (List.pairwise_append.1 hset.sorted).2.2 y h _ (List.mem_singleton_self _)
    · rw [List.mem_singleton.1 h]
  obtain ⟨hsound, himp, hclosed⟩ := hset.offers (next v l) fun x hx => by
    obtain ⟨hle, hgood⟩ := hg v l (hs.good v l hl) x hx
    exact ⟨⟨_, List.mem_append_right _ (List.mem_singleton_self _), hx⟩, hgood,
      fun y hy => (hlast y hy).trans hle⟩
  refine ⟨hsound, fun y hy x hx => ?_, himp⟩
  rcases List.mem_append.1 hy with hy | hy
  · obtain ⟨m, hm, hle⟩ := hc y hy x hx
    obtain ⟨m', hm', hle'⟩ := himp _ m hm
    exact ⟨m', hm', hle'.trans hle⟩
  · obtain rfl := List.mem_singleton.1 hy
    exact hclosed x hx

/-! ## Whole searches -/

theorem run_sound {pop : List (κ × ν) → Option ((κ × ν) × List (κ × ν))} (hpop : Pops pop)
    (hg : Grows cost next Good) (n : Nat) (hs : Sound cost next Good start s settled)
    (hc : Closed cost next s settled) :
    Sound cost next Good start (run cost pop next n s settled).1 (run cost pop next n s settled).2 ∧
      Closed cost next (run cost pop next n s settled).1 (run cost pop next n s settled).2 ∧
      Improves cost s (run cost pop next n s settled).1 := by
  induction n generalizing s settled with
  | zero => exact ⟨hs, hc, .rfl⟩
  | succ n ih =>
    unfold run
    cases hp : pop s.queue with
    | none => exact ⟨hs, hc, .rfl⟩
    | some r =>
      obtain ⟨⟨c, v⟩, q⟩ := r
      have hq := hpop.perm _ _ _ hp
      obtain ⟨l, hl, -⟩ := hs.labelled c v (hq.mem_iff.2 List.mem_cons_self)
      dsimp only
      rw [hl]
      dsimp only
      split
      · next hstale => exact ih (hs.skip hq hl hstale) hc
      · next hstale =>
        obtain ⟨hsound, hclosed, himp⟩ := hs.step hg hc hq (hpop.least _ _ _ hp) hl hstale
        obtain ⟨hsound, hclosed, himp'⟩ := ih hsound hclosed
        exact ⟨hsound, hclosed, himp.trans himp'⟩

variable (cost s) in
theorem length_offers (xs : List (ν × L)) :
    (xs.foldl (offer cost) s).queue.length ≤ s.queue.length + xs.length := by
  induction xs generalizing s with
  | nil => exact le_rfl
  | cons x xs ih =>
    have hone : (offer cost s x).queue.length ≤ s.queue.length + 1 := by
      unfold offer
      split
      · exact le_rfl
      · exact Nat.le_succ _
    have hrest := ih (s := offer cost s x)
    rw [List.foldl_cons, List.length_cons]
    omega

/-- Nodes are settled once, so what they add to the queue is bounded. -/
theorem Sound.spent_le (hs : Sound cost next Good start s settled) {deg : ν → Nat} {V : Finset ν}
    (hV : ∀ v ∉ V, deg v = 0) : (settled.map fun x => deg x.1).sum ≤ ∑ v ∈ V, deg v := by
  have hsum : (settled.map fun x => deg x.1).sum = ∑ v ∈ (settled.map Prod.fst).toFinset, deg v := by
    rw [List.sum_toFinset _ hs.once, List.map_map]
    rfl
  rw [hsum, ← Finset.sum_filter_add_sum_filter_not _ (· ∈ V)]
  have hout : ∑ v ∈ (settled.map Prod.fst).toFinset with v ∉ V, deg v = 0 :=
    Finset.sum_eq_zero fun v hv => hV v (Finset.mem_filter.1 hv).2
  rw [hout, Nat.add_zero]
  exact Finset.sum_le_sum_of_subset fun v hv => (Finset.mem_filter.1 hv).2

/-- A search finishes: each node adds at most `deg` entries to the queue, once. -/
theorem run_finishes {pop : List (κ × ν) → Option ((κ × ν) × List (κ × ν))} (hpop : Pops pop)
    (hg : Grows cost next Good) (deg : ν → Nat) {V : Finset ν} (hdeg : ∀ v l, (next v l).length ≤ deg v)
    (hV : ∀ v ∉ V, deg v = 0) (n : Nat) (hs : Sound cost next Good start s settled)
    (hc : Closed cost next s settled)
    (hn : s.queue.length + ∑ v ∈ V, deg v ≤ n + (settled.map fun x => deg x.1).sum) :
    (run cost pop next n s settled).1.queue = [] := by
  induction n generalizing s settled with
  | zero =>
    have hspent := hs.spent_le hV
    exact List.length_eq_zero_iff.1 (show s.queue.length = 0 by omega)
  | succ n ih =>
    unfold run
    cases hp : pop s.queue with
    | none => exact hpop.none _ hp
    | some r =>
      obtain ⟨⟨c, v⟩, q⟩ := r
      have hq := hpop.perm _ _ _ hp
      have hlen := hq.length_eq
      rw [List.length_cons] at hlen
      obtain ⟨l, hl, -⟩ := hs.labelled c v (hq.mem_iff.2 List.mem_cons_self)
      dsimp only
      rw [hl]
      dsimp only
      split
      · next hstale =>
        refine ih (hs.skip hq hl hstale) hc ?_
        show q.length + _ ≤ _
        omega
      · next hstale =>
        obtain ⟨hsound, hclosed, -⟩ := hs.step hg hc hq (hpop.least _ _ _ hp) hl hstale
        refine ih hsound hclosed ?_
        have hpush := length_offers cost ⟨s.best, q⟩ (next v l)
        have hd := hdeg v l
        rw [List.map_append, List.sum_append, List.map_singleton, List.sum_singleton]
        show ((next v l).foldl (offer cost) ⟨s.best, q⟩).queue.length + _ ≤ _
        dsimp only at hpush ⊢
        omega

omit [DecidableEq ν] in
/-- The first settled node of a kind has the least cost of its kind. -/
theorem Sound.find_le (hs : Sound cost next Good start s settled) {p : ν × L → Bool} {x y : ν × L}
    (hx : settled.find? p = some x) (hy : y ∈ settled) (hp : p y = true) : cost x.2 ≤ cost y.2 := by
  obtain ⟨-, xs, ys, rfl, hno⟩ := List.find?_eq_some_iff_append.1 hx
  rcases List.mem_append.1 hy with h | h
  · have hfalse := hno y h
    rw [hp] at hfalse
    cases hfalse
  · rcases List.mem_cons.1 h with rfl | h
    · exact le_rfl
    · exact List.rel_of_pairwise_cons (List.pairwise_append.1 hs.sorted).2.1 h

/-! ## A finished search -/

section
variable (hs : Sound cost next Good start s settled) (hq : s.queue = [])
include hs hq

omit [DecidableEq ν] in
/-- Every node that has a label was expanded. -/
theorem Sound.mem_iff {v : ν} {l : L} : (v, l) ∈ settled ↔ s.best v = some l := by
  refine ⟨hs.final v l, fun h => (hs.queued v l h).resolve_right ?_⟩
  rw [hq]
  nofun

omit [DecidableEq ν] in
/-- Where expansions are monotone in the cost, no derivation beats the label of its node. -/
theorem Sound.least (hc : Closed cost next s settled) {ref : ν → L → List (ν × L)}
    (hstart : ∃ l, s.best start.1 = some l ∧ cost l ≤ cost start.2)
    (hmono : ∀ w m m', (w, m) ∈ settled → Derives ref start w m' → cost m ≤ cost m' →
      ∀ x ∈ ref w m', ∃ l, (x.1, l) ∈ next w m ∧ cost l ≤ cost x.2) {v : ν} {l : L}
    (hd : Derives ref start v l) :
    ∃ l', s.best v = some l' ∧ cost l' ≤ cost l := by
  induction hd with
  | start => exact hstart
  | @step w m v l hw hx ih =>
    obtain ⟨m₀, hm₀, hle⟩ := ih
    have hset := (hs.mem_iff hq).2 hm₀
    obtain ⟨l₀, hl₀, hle₀⟩ := hmono w m₀ m hset hw hle _ hx
    obtain ⟨l', hl', hle'⟩ := hc _ hset _ hl₀
    exact ⟨l', hl', hle'.trans hle₀⟩

end

end

end BestFirst
