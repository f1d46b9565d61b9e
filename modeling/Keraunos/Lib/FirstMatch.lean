import Mathlib.Data.List.Basic
import Mathlib.Data.List.Forall2

/-!
# Loops over a vector

`mutFirst p f l` is what `iter_mut().find(p)` followed by a mutation does to a vector. Where at
most one element matches it is a map (`mutFirst_eq_map`), and so is a loop of such mutations over
a list of keys (`foldl_mutFirst`). Where several may match, `mem_mutFirst` and `find?_mutFirst` say
what changes, and what a mutation keeps of its elements it keeps of the list (`map_mutFirst`). A
loop whose passes may fail is `mapM`; the last section says what its results hold.
-/

namespace List

variable {α κ : Type}

theorem forall₂_trans {R : α → α → Prop} (htrans : ∀ a b c, R a b → R b c → R a c)
    {l₁ l₂ l₃ : List α} (h : Forall₂ R l₁ l₂) (h' : Forall₂ R l₂ l₃) : Forall₂ R l₁ l₃ := by
  induction h generalizing l₃ with
  | nil => exact h'
  | cons hab _ ih =>
    obtain ⟨c, l, hbc, hl, rfl⟩ := forall₂_cons_left_iff.1 h'
    exact .cons (htrans _ _ _ hab hbc) (ih hl)

/-- Mutate the first element that satisfies `p`. -/
def mutFirst (p : α → Bool) (f : α → α) : List α → List α
  | [] => []
  | a :: l => if p a then f a :: l else a :: mutFirst p f l

/-- What the elements of a list lose elementwise, the list loses. -/
theorem filterMap_sublist_of_forall₂ {R : α → α → Prop} {γ : Type} {g : α → Option γ} {l l' : List α}
    (h : Forall₂ R l l') (hg : ∀ a ∈ l, ∀ b, R a b → ∀ c, g b = some c → g a = some c) :
    (l'.filterMap g).Sublist (l.filterMap g) := by
  induction h with
  | nil => exact Sublist.refl _
  | @cons a b l l' hab _ ih =>
    have hrest := ih fun x hx => hg x (mem_cons_of_mem _ hx)
    rw [filterMap_cons, filterMap_cons]
    cases hb : g b with
    | some c =>
      rw [hg a mem_cons_self b hab c hb]
      exact hrest.cons_cons c
    | none =>
      cases g a with
      | none => exact hrest
      | some c => exact hrest.cons c

section
variable {p q : α → Bool} {f : α → α} {l : List α}

/-- Only the first match changes. -/
theorem mem_mutFirst {b : α} (h : b ∈ mutFirst p f l) :
    b ∈ l ∨ ∃ a, l.find? p = some a ∧ b = f a := by
  induction l with
  | nil => exact .inl h
  | cons a l ih =>
    unfold mutFirst at h
    cases hp : p a with
    | true =>
      rw [if_pos hp] at h
      rcases mem_cons.1 h with rfl | h
      · exact .inr ⟨a, by simp [hp], rfl⟩
      · exact .inl (mem_cons_of_mem _ h)
    | false =>
      rw [if_neg (by simp [hp])] at h
      rcases mem_cons.1 h with rfl | h
      · exact .inl mem_cons_self
      · rcases ih h with h | ⟨c, hc, rfl⟩
        · exact .inl (mem_cons_of_mem _ h)
        · exact .inr ⟨c, by simp [hp, hc], rfl⟩

/-- What the mutation keeps of the first match. -/
theorem map_mutFirst_of_find? {g : α → κ} (hg : ∀ a, l.find? p = some a → g (f a) = g a) :
    (mutFirst p f l).map g = l.map g := by
  induction l with
  | nil => rfl
  | cons a l ih =>
    unfold mutFirst
    cases hp : p a with
    | true => simp [hg a (by simp [hp])]
    | false => simp [ih fun b hb => hg b (by simp [hp, hb])]

theorem map_mutFirst {g : α → κ} (hg : ∀ a, p a = true → g (f a) = g a) :
    (mutFirst p f l).map g = l.map g :=
  map_mutFirst_of_find? fun a ha => hg a (find?_some ha)

/-- The first match of `p` is mutated; that of a condition no match of `p` meets is not. -/
theorem find?_mutFirst_self (hf : ∀ a, p (f a) = p a) :
    (mutFirst p f l).find? p = (l.find? p).map f := by
  induction l with
  | nil => rfl
  | cons a l ih =>
    unfold mutFirst
    cases hp : p a with
    | true => simp [hf, hp]
    | false => simp [hp, ih]

theorem find?_mutFirst_other (hf : ∀ a, q (f a) = q a) (hpq : ∀ a, p a = true → q a = false) :
    (mutFirst p f l).find? q = l.find? q := by
  induction l with
  | nil => rfl
  | cons a l ih =>
    unfold mutFirst
    cases hp : p a with
    | true => simp [hf, hpq a hp]
    | false => simp [List.find?_cons, ih]

/-- The first match is not dropped, so it is the first one of what is left. -/
theorem find?_filter_of_find? {a : α} (h : l.find? p = some a) (hq : q a = true) :
    (l.filter q).find? p = some a := by
  induction l with
  | nil => cases h
  | cons b l ih =>
    cases hp : p b with
    | true =>
      obtain rfl : b = a := by simpa [hp] using h
      simp [hq, hp]
    | false =>
      rw [find?_cons, hp] at h
      cases hb : q b with
      | true => simp [hb, hp, ih h]
      | false => simp [hb, ih h]

/-- Elementwise, where the mutation of the first match is related to it. -/
theorem forall₂_mutFirst {R : α → α → Prop} (hrefl : ∀ a, R a a)
    (h : ∀ a, l.find? p = some a → R a (f a)) : Forall₂ R l (mutFirst p f l) := by
  induction l with
  | nil => exact .nil
  | cons a l ih =>
    unfold mutFirst
    cases hp : p a with
    | true =>
      rw [if_pos rfl]
      exact .cons (h a (by simp [hp])) (forall₂_same.2 fun b _ => hrefl b)
    | false =>
      rw [if_neg (by simp)]
      exact .cons (hrefl a) (ih fun b hb => h b (by simp [hp, hb]))

end

variable [DecidableEq κ] {key : α → κ}

/-- With distinct keys, the first match of a key is its only match. -/
theorem mutFirst_eq_map {k : κ} {f : α → α} {l : List α} (h : (l.map key).Nodup) :
    mutFirst (fun a => key a = k) f l = l.map fun a => if key a = k then f a else a := by
  induction l with
  | nil => rfl
  | cons a l ih =>
    rw [map_cons, nodup_cons] at h
    simp only [mutFirst, decide_eq_true_eq, map_cons]
    split
    · next hk =>
      have hl : ∀ b ∈ l, key b ≠ k := fun b hb he => h.1 (hk ▸ he ▸ mem_map_of_mem hb)
      have hid : (l.map fun b => if key b = k then f b else b) = l.map id :=
        map_congr_left fun b hb => if_neg (hl b hb)
      rw [hid, map_id]
    · rw [ih h.2]

/-- Every element whose key is listed is mutated once. -/
theorem foldl_mutFirst {f : α → α} (hf : ∀ a, key (f a) = key a) {ks : List κ} (hks : ks.Nodup)
    {l : List α} (h : (l.map key).Nodup) {p : α → Bool} (hp : ∀ a ∈ l, p a = true ↔ key a ∈ ks) :
    ks.foldl (fun l k => mutFirst (fun a => key a = k) f l) l =
      l.map fun a => if p a then f a else a := by
  have hmem : ks.foldl (fun l k => mutFirst (fun a => key a = k) f l) l =
      l.map fun a => if key a ∈ ks then f a else a := by
    clear hp
    induction ks generalizing l with
    | nil => simp
    | cons k ks ih =>
      rw [nodup_cons] at hks
      have hkey : (l.map fun a => if key a = k then f a else a).map key = l.map key := by
        rw [map_map]
        refine map_congr_left fun a _ => ?_
        simp only [Function.comp_apply]
        split
        · exact hf a
        · rfl
      rw [foldl_cons, mutFirst_eq_map h, ih hks.2 (hkey ▸ h), map_map]
      refine map_congr_left fun a _ => ?_
      by_cases hk : key a = k
      · simp [hk, hf, hks.1]
      · simp [hk]
  rw [hmem]
  refine map_congr_left fun a ha => ?_
  simp only [hp a ha]

/-- A loop over keys keeps what `f` keeps. -/
theorem map_foldl_mutFirst {γ : Type} {g : α → γ} {f : α → α} (hg : ∀ a, g (f a) = g a) (ks : List κ)
    (l : List α) :
    (ks.foldl (fun l k => mutFirst (fun a => key a = k) f l) l).map g = l.map g := by
  induction ks generalizing l with
  | nil => rfl
  | cons k ks ih =>
    rw [foldl_cons, ih]
    exact map_mutFirst fun a _ => hg a

/-- A loop over keys, elementwise. -/
theorem forall₂_foldl_mutFirst {R : α → α → Prop} (hrefl : ∀ a, R a a)
    (htrans : ∀ a b c, R a b → R b c → R a c) {f : α → α} (hf : ∀ a, R a (f a)) (ks : List κ)
    (l : List α) :
    Forall₂ R l (ks.foldl (fun l k => mutFirst (fun a => key a = k) f l) l) := by
  induction ks generalizing l with
  | nil => exact forall₂_same.2 fun a _ => hrefl a
  | cons k ks ih =>
    have hfirst := forall₂_mutFirst (p := fun a => key a = k) (l := l) hrefl fun a _ => hf a
    rw [foldl_cons]
    exact forall₂_trans htrans hfirst (ih _)

/-! ## Loops that may fail -/

section
variable {β γ : Type} {f : α → Option β} {l : List α} {rs : List β}

/-- A loop whose passes all succeed. -/
theorem exists_mapM (h : ∀ x ∈ l, ∃ y, f x = some y) :
    ∃ ys, l.mapM f = some ys ∧ ∀ y, y ∈ ys ↔ ∃ x ∈ l, f x = some y := by
  induction l with
  | nil => exact ⟨[], rfl, by simp⟩
  | cons x l ih =>
    obtain ⟨y, hy⟩ := h x mem_cons_self
    obtain ⟨ys, hys, hmem⟩ := ih fun z hz => h z (mem_cons_of_mem _ hz)
    refine ⟨y :: ys, by simp [hy, hys], fun z => ?_⟩
    simp [hy, hmem, eq_comm]

/-- What is collected from the results of a loop. -/
theorem filterMap_of_mapM {g : β → Option γ} (h : l.mapM f = some rs) :
    rs.filterMap g = l.filterMap fun a => (f a).bind g := by
  induction l generalizing rs with
  | nil =>
    obtain rfl : [] = rs := by simpa using h
    rfl
  | cons a l ih =>
    rw [mapM_cons] at h
    obtain ⟨r, hr, rs', hrs, rfl⟩ : ∃ r, f a = some r ∧ ∃ rs', l.mapM f = some rs' ∧ r :: rs' = rs := by
      simpa [Option.bind_eq_some_iff] using h
    rw [filterMap_cons, filterMap_cons, hr, Option.bind_some, ih hrs]

/-- What `g` sees in the elements that are kept. -/
theorem map_filterMap_of_some {h : α → Option α} {g : α → γ}
    (hg : ∀ a ∈ l, ∀ b, h a = some b → g b = g a) :
    (l.filterMap h).map g = (l.filter fun a => (h a).isSome).map g := by
  induction l with
  | nil => rfl
  | cons a l ih =>
    have hl := ih fun b hb => hg b (mem_cons_of_mem _ hb)
    cases ha : h a with
    | none => simp [ha, hl]
    | some b => simp [ha, hl, hg a mem_cons_self b ha]

/-- The passes that leave the state alone can be left out. -/
theorem foldlM_filter_of_skip {q : α → Bool} {g : γ → α → Option γ} {c : γ}
    (hq : ∀ a ∈ l, q a = false → ∀ c, g c a = some c) :
    (l.filter q).foldlM g c = l.foldlM g c := by
  induction l generalizing c with
  | nil => rfl
  | cons a l ih =>
    have hl := fun c => ih (c := c) fun b hb => hq b (mem_cons_of_mem _ hb)
    cases ha : q a with
    | true => simp [ha, hl]
    | false => simp [ha, hl, hq a mem_cons_self ha]

theorem flatMap_of_mapM {g : β → List γ} (h : l.mapM f = some rs) :
    rs.flatMap g = l.flatMap fun a => ((f a).map g).getD [] := by
  induction l generalizing rs with
  | nil =>
    obtain rfl : [] = rs := by simpa using h
    rfl
  | cons a l ih =>
    rw [mapM_cons] at h
    obtain ⟨r, hr, rs', hrs, rfl⟩ : ∃ r, f a = some r ∧ ∃ rs', l.mapM f = some rs' ∧ r :: rs' = rs := by
      simpa [Option.bind_eq_some_iff] using h
    rw [flatMap_cons, flatMap_cons, hr, ih hrs]
    rfl

end

section
variable {β : Type} {f g : α → List β} {l : List α}

theorem length_flatMap_le (h : ∀ a ∈ l, (f a).length ≤ (g a).length) :
    (l.flatMap f).length ≤ (l.flatMap g).length := by
  induction l with
  | nil => simp
  | cons a l ih =>
    have ha := h a mem_cons_self
    have hl := ih fun b hb => h b (mem_cons_of_mem _ hb)
    simp only [flatMap_cons, length_append]
    omega

/-- Two loops whose passes append, the one leaving out what the other appends or not: they append the
same only if nothing is left out. -/
theorem flatMap_eq_iff (h : ∀ a ∈ l, f a = g a ∨ f a = []) :
    l.flatMap f = l.flatMap g ↔ ∀ a ∈ l, f a = g a := by
  have hlen : ∀ a ∈ l, (f a).length ≤ (g a).length := by
    intro a ha
    rcases h a ha with h | h <;> simp [h]
  induction l with
  | nil => simp
  | cons a l ih =>
    have hrest := length_flatMap_le fun b hb => hlen b (mem_cons_of_mem _ hb)
    have ha := hlen a mem_cons_self
    have ih' := ih (fun b hb => h b (mem_cons_of_mem _ hb)) fun b hb => hlen b (mem_cons_of_mem _ hb)
    rw [forall_mem_cons, flatMap_cons, flatMap_cons]
    constructor
    · intro heq
      have htot := congrArg length heq
      rw [length_append, length_append] at htot
      obtain ⟨h1, h2⟩ := append_inj heq (by omega)
      exact ⟨h1, ih'.1 h2⟩
    · intro ⟨h1, h2⟩
      rw [h1, ih'.2 h2]

end

end List
