import Mathlib.Data.List.Basic

/-!
# Fallible actions on a state

`Act ε σ α`: a method that mutates a state `σ` in place and returns `Result α ε`. What was
written before an error stays written (`EStateM` without backtracking), and a failed assertion or
an out-of-range access is the outcome `Fault.panic`, which no caller catches.

`wp x s Q E` says that `x` run from `s` either returns a value and a state in `Q` or fails in
`E`. The `wp_*` lemmas are its simp set: they turn a do block into the proposition its branches
have to satisfy. `Ends x s Q` is the special case of a postcondition on the state alone, whether
`x` returns or fails.
-/

/-- An error value, or a panic. -/
inductive Fault (ε : Type) where
  | err (e : ε)
  | panic
  deriving Repr, DecidableEq

namespace Fault

variable {ε α : Type}

/-- `expect`: the value of an option, a panic when there is none. -/
def expect : Option α → Except (Fault ε) α
  | some a => .ok a
  | none => .error .panic

/-- `ok_or`: the value of an option, the error `e` when there is none. -/
def okOr (o : Option α) (e : ε) : Except (Fault ε) α :=
  match o with
  | some a => .ok a
  | none => .error (.err e)

/-- The error `e` unless `c` holds. -/
def require (c : Prop) [Decidable c] (e : ε) : Except (Fault ε) Unit :=
  if c then .ok () else .error (.err e)

@[simp] theorem expect_eq_ok {o : Option α} {a : α} :
    (expect o : Except (Fault ε) α) = .ok a ↔ o = some a := by
  cases o <;> simp [expect]

@[simp] theorem okOr_eq_ok {o : Option α} {e : ε} {a : α} : okOr o e = .ok a ↔ o = some a := by
  cases o <;> simp [okOr]

@[simp] theorem require_eq_ok {c : Prop} [Decidable c] {e : ε} {u : Unit} :
    require c e = .ok u ↔ c := by
  simp [require]

theorem require_of {c : Prop} [Decidable c] {e : ε} (h : c) : require c e = .ok () := if_pos h

theorem toOption_eq_some {x : Except (Fault ε) α} {a : α} : x.toOption = some a ↔ x = .ok a := by
  cases x <;> simp [Except.toOption]

/-- A sequence that succeeds, both parts succeed. -/
@[simp] theorem bind_eq_ok {β : Type} {x : Except (Fault ε) α} {f : α → Except (Fault ε) β} {b : β} :
    x >>= f = .ok b ↔ ∃ a, x = .ok a ∧ f a = .ok b := by
  cases x <;> simp [bind, Except.bind]

@[simp] theorem okOr_eq_error {o : Option α} {e : ε} {f : Fault ε} :
    okOr o e = .error f ↔ o = none ∧ f = .err e := by
  cases o <;> simp [okOr, eq_comm]

@[simp] theorem require_eq_error {c : Prop} [Decidable c] {e : ε} {f : Fault ε} :
    require c e = .error f ↔ ¬ c ∧ f = .err e := by
  by_cases hc : c <;> simp [require, hc, eq_comm]

theorem expect_eq_error {o : Option α} {f : Fault ε} :
    (expect o : Except (Fault ε) α) = .error f ↔ o = none ∧ f = .panic := by
  cases o <;> simp [expect, eq_comm]

/-- A sequence that fails, the first or the second part fails. -/
@[simp] theorem bind_eq_error {β : Type} {x : Except (Fault ε) α} {g : α → Except (Fault ε) β}
    {f : Fault ε} : x >>= g = .error f ↔ x = .error f ∨ ∃ a, x = .ok a ∧ g a = .error f := by
  cases x <;> simp [bind, Except.bind]

/-- A loop that succeeds, every pass of it succeeds. -/
theorem forM_eq_ok {f : α → Except (Fault ε) Unit} {xs : List α} :
    xs.forM f = .ok () ↔ ∀ x ∈ xs, f x = .ok () := by
  induction xs with
  | nil => simp [pure, Except.pure]
  | cons x xs ih =>
    rw [List.forM_eq_forM] at ih ⊢
    simp only [List.forM_cons, bind_eq_ok, ih, List.forall_mem_cons]
    constructor
    · intro ⟨_, hx, hxs⟩
      exact ⟨hx, hxs⟩
    · intro ⟨hx, hxs⟩
      exact ⟨(), hx, hxs⟩

/-- A sequence panics in its first or in its second part. -/
theorem bind_ne_panic {β : Type} {x : Except (Fault ε) α} {f : α → Except (Fault ε) β}
    (hx : x ≠ .error .panic) (hf : ∀ a, x = .ok a → f a ≠ .error .panic) :
    x >>= f ≠ .error .panic := by
  intro h
  rcases bind_eq_error.1 h with h | ⟨a, ha, h⟩
  · exact hx h
  · exact hf a ha h

/-- A loop panics in one of its passes. -/
theorem forM_ne_panic {f : α → Except (Fault ε) Unit} {xs : List α}
    (h : ∀ x ∈ xs, f x ≠ .error .panic) : xs.forM f ≠ .error .panic := by
  induction xs with
  | nil => nofun
  | cons x xs ih =>
    rw [List.forM_eq_forM, List.forM_cons]
    refine bind_ne_panic (h x List.mem_cons_self) fun _ _ => ?_
    exact ih fun y hy => h y (List.mem_cons_of_mem _ hy)

theorem okOr_ne_panic (o : Option α) (e : ε) : okOr o e ≠ .error .panic := by
  cases o <;> nofun

theorem require_ne_panic (c : Prop) [Decidable c] (e : ε) : require c e ≠ .error .panic := by
  intro h
  cases (require_eq_error.1 h).2

theorem expect_ne_panic {o : Option α} (h : ∃ a, o = some a) :
    (expect o : Except (Fault ε) α) ≠ .error .panic := by
  obtain ⟨a, rfl⟩ := h
  nofun

end Fault

/-- A mutating method returning a `Result`. -/
abbrev Act (ε σ α : Type) : Type := EStateM (Fault ε) σ α

namespace Act

variable {ε σ α β : Type}

/-- Return an error. -/
def fail (e : ε) : Act ε σ α := throw (.err e)

/-- Panic. -/
def panic : Act ε σ α := throw .panic

/-- `expect`: the value of an option, a panic when there is none. -/
def expect : Option α → Act ε σ α
  | some a => pure a
  | none => panic

/-- `ok_or`: the value of an option, the error `e` when there is none. -/
def okOr (o : Option α) (e : ε) : Act ε σ α :=
  match o with
  | some a => pure a
  | none => fail e

/-- A pure fallible computation. -/
def lift : Except (Fault ε) α → Act ε σ α
  | .ok a => pure a
  | .error e => throw e

/-- A `match` on the result of `x`: errors become values, a panic does not. -/
def attempt (x : Act ε σ α) : Act ε σ (Except ε α) := fun s =>
  match x s with
  | .ok a s' => .ok (.ok a) s'
  | .error (.err e) s' => .ok (.error e) s'
  | .error .panic s' => .error .panic s'

/-! What follows a computation matters where it returns. -/

theorem bind_of_ok {x : Act ε σ β} {f : β → Act ε σ α} {s s' : σ} {b : β} (h : x s = .ok b s') :
    (x >>= f) s = f b s' := by
  show EStateM.bind x f s = _
  simp only [EStateM.bind, h]

theorem lift_bind_congr {x : Except (Fault ε) β} {f g : β → Act ε σ α} {s : σ}
    (h : ∀ b, x = .ok b → f b s = g b s) : (lift x >>= f) s = (lift x >>= g) s := by
  cases x with
  | ok b => exact h b rfl
  | error e => rfl

theorem expect_bind_congr {o : Option β} {f g : β → Act ε σ α} {s : σ}
    (h : ∀ b, o = some b → f b s = g b s) : (expect o >>= f) s = (expect o >>= g) s := by
  cases o with
  | some b => exact h b rfl
  | none => rfl

/-- `x` run from `s` returns in `Q` or fails in `E`. -/
def wp (x : Act ε σ α) (s : σ) (Q : α → σ → Prop) (E : Fault ε → σ → Prop) : Prop :=
  match x s with
  | .ok a s' => Q a s'
  | .error e s' => E e s'

section
variable {s : σ} {Q : α → σ → Prop} {E : Fault ε → σ → Prop}

@[simp] theorem wp_pure (a : α) : wp (pure a : Act ε σ α) s Q E ↔ Q a s := Iff.rfl

@[simp] theorem wp_bind (x : Act ε σ β) (f : β → Act ε σ α) :
    wp (x >>= f) s Q E ↔ wp x s (fun b s' => wp (f b) s' Q E) E := by
  simp only [wp, bind, EStateM.bind]
  cases x s <;> rfl

@[simp] theorem wp_map (x : Act ε σ β) (f : β → α) :
    wp (f <$> x) s Q E ↔ wp x s (fun b s' => Q (f b) s') E := by
  simp only [wp, Functor.map, EStateM.map]
  cases x s <;> rfl

theorem map_eq_ok {x : Act ε σ β} {f : β → α} {a : α} {s' : σ} :
    (f <$> x) s = .ok a s' ↔ ∃ b, x s = .ok b s' ∧ f b = a := by
  simp only [Functor.map, EStateM.map]
  cases x s <;> simp [and_comm, eq_comm]

theorem map_eq_error {x : Act ε σ β} {f : β → α} {e : Fault ε} {s' : σ} :
    (f <$> x) s = .error e s' ↔ x s = .error e s' := by
  simp only [Functor.map, EStateM.map]
  cases x s <;> simp

@[simp] theorem wp_throw (e : Fault ε) : wp (throw e : Act ε σ α) s Q E ↔ E e s := Iff.rfl

@[simp] theorem wp_fail (e : ε) : wp (fail e : Act ε σ α) s Q E ↔ E (.err e) s := Iff.rfl

@[simp] theorem wp_panic : wp (panic : Act ε σ α) s Q E ↔ E .panic s := Iff.rfl

@[simp] theorem wp_get {Q : σ → σ → Prop} : wp (get : Act ε σ σ) s Q E ↔ Q s s := Iff.rfl

@[simp] theorem wp_set {Q : PUnit → σ → Prop} (s' : σ) :
    wp (set s' : Act ε σ PUnit) s Q E ↔ Q ⟨⟩ s' := Iff.rfl

@[simp] theorem wp_modify {Q : PUnit → σ → Prop} (f : σ → σ) :
    wp (modify f : Act ε σ PUnit) s Q E ↔ Q ⟨⟩ (f s) := Iff.rfl

@[simp] theorem wp_ite (c : Prop) [Decidable c] (x y : Act ε σ α) :
    wp (if c then x else y) s Q E ↔ (c → wp x s Q E) ∧ (¬ c → wp y s Q E) := by
  split <;> simp_all

@[simp] theorem wp_expect (o : Option α) :
    wp (expect o : Act ε σ α) s Q E ↔ (∀ a, o = some a → Q a s) ∧ (o = none → E .panic s) := by
  cases o <;> simp [expect]

@[simp] theorem wp_okOr (o : Option α) (e : ε) :
    wp (okOr o e : Act ε σ α) s Q E ↔
      (∀ a, o = some a → Q a s) ∧ (o = none → E (.err e) s) := by
  cases o <;> simp [okOr]

@[simp] theorem wp_lift (x : Except (Fault ε) α) :
    wp (lift x : Act ε σ α) s Q E ↔
      (∀ a, x = .ok a → Q a s) ∧ (∀ e, x = .error e → E e s) := by
  cases x <;> simp [lift]

@[simp] theorem wp_attempt {Q : Except ε α → σ → Prop} (x : Act ε σ α) :
    wp (attempt x) s Q E ↔ wp x s (fun a s' => Q (.ok a) s')
      (fun f s' => (∀ e, f = .err e → Q (.error e) s') ∧ (f = .panic → E .panic s')) := by
  simp only [wp, attempt]
  rcases x s with ⟨a, s'⟩ | ⟨_ | _, s'⟩ <;> simp

theorem wp_mono {x : Act ε σ α} {Q' : α → σ → Prop} {E' : Fault ε → σ → Prop}
    (h : wp x s Q E) (hq : ∀ a s', Q a s' → Q' a s') (he : ∀ e s', E e s' → E' e s') :
    wp x s Q' E' := by
  unfold wp at *
  split
  · next h' => rw [h'] at h; exact hq _ _ h
  · next h' => rw [h'] at h; exact he _ _ h

theorem wp_and {x : Act ε σ α} {Q' : α → σ → Prop} {E' : Fault ε → σ → Prop} (h : wp x s Q E)
    (h' : wp x s Q' E') : wp x s (fun a s' => Q a s' ∧ Q' a s') (fun e s' => E e s' ∧ E' e s') := by
  unfold wp at *
  split <;> simp_all

theorem wp_ok {x : Act ε σ α} {a : α} {s' : σ} (h : wp x s Q E) (hx : x s = .ok a s') : Q a s' := by
  simpa [wp, hx] using h

theorem wp_error {x : Act ε σ α} {e : Fault ε} {s' : σ} (h : wp x s Q E)
    (hx : x s = .error e s') : E e s' := by
  simpa [wp, hx] using h

/-- A call that cannot fail returns. -/
theorem wp_total {x : Act ε σ α} (h : wp x s Q fun _ _ => False) : ∃ a s', x s = .ok a s' ∧ Q a s' := by
  cases hx : x s with
  | ok a s' => exact ⟨a, s', rfl, wp_ok h hx⟩
  | error e s' => exact (wp_error h hx).elim

theorem wp_iff {x : Act ε σ α} :
    wp x s Q E ↔ (∀ a s', x s = .ok a s' → Q a s') ∧ (∀ e s', x s = .error e s' → E e s') := by
  unfold wp
  cases x s <;> simp

instance [∀ a s, Decidable (Q a s)] [∀ e s, Decidable (E e s)] (x : Act ε σ α) :
    Decidable (wp x s Q E) :=
  show Decidable (match x s with | .ok a s' => Q a s' | .error e s' => E e s') from
  match x s with
  | .ok _ _ => inferInstance
  | .error _ _ => inferInstance

/-- `x` run from `s` ends in a state in `Q`, unless it panics. -/
def Ends (x : Act ε σ α) (s : σ) (Q : σ → Prop) : Prop :=
  wp x s (fun _ s' => Q s') (fun e s' => ∀ e', e = .err e' → Q s')

theorem ends_pure {Q : σ → Prop} {a : α} (h : Q s) : Ends (pure a : Act ε σ α) s Q := h

theorem ends_fail {Q : σ → Prop} {e : ε} (h : Q s) : Ends (fail e : Act ε σ α) s Q :=
  fun _ _ => h

theorem ends_panic {Q : σ → Prop} : Ends (panic : Act ε σ α) s Q :=
  fun _ he => nomatch he

theorem Ends.mono {x : Act ε σ α} {Q Q' : σ → Prop} (h : Ends x s Q) (hq : ∀ s', Q s' → Q' s') :
    Ends x s Q' :=
  wp_mono h (fun _ _ => hq _) fun _ _ h e' he => hq _ (h e' he)

theorem Ends.and {x : Act ε σ α} {Q Q' : σ → Prop} (h : Ends x s Q) (h' : Ends x s Q') :
    Ends x s fun s' => Q s' ∧ Q' s' :=
  wp_mono (wp_and h h') (fun _ _ h => h) fun _ _ h e' he => ⟨h.1 e' he, h.2 e' he⟩

/-- A sequence, given what is known of the first part. -/
theorem ends_bind {x : Act ε σ β} {f : β → Act ε σ α} {Q : σ → Prop}
    (h : wp x s (fun b s' => Ends (f b) s' Q) (fun e s' => ∀ e', e = .err e' → Q s')) :
    Ends (x >>= f) s Q := (wp_bind x f).2 h

theorem ends_map {x : Act ε σ β} {f : β → α} {Q : σ → Prop} (h : Ends x s Q) :
    Ends (f <$> x) s Q := (wp_map x f).2 h

theorem ends_get_bind {f : σ → Act ε σ α} {Q : σ → Prop} (h : Ends (f s) s Q) :
    Ends (get >>= f) s Q := (wp_bind _ f).2 h

theorem ends_set_bind {s' : σ} {f : PUnit → Act ε σ α} {Q : σ → Prop} (h : Ends (f ⟨⟩) s' Q) :
    Ends (set s' >>= f) s Q := (wp_bind _ f).2 h

theorem ends_modify_bind {g : σ → σ} {f : PUnit → Act ε σ α} {Q : σ → Prop}
    (h : Ends (f ⟨⟩) (g s) Q) : Ends (modify g >>= f) s Q := (wp_bind _ f).2 h

theorem ends_okOr_bind {o : Option β} {e : ε} {f : β → Act ε σ α} {Q : σ → Prop}
    (hf : ∀ b, o = some b → Ends (f b) s Q) (hq : o = none → Q s) :
    Ends (okOr o e >>= f) s Q :=
  (wp_bind _ f).2 ((wp_okOr o e).2 ⟨hf, fun h _ _ => hq h⟩)

theorem ends_expect_bind {o : Option β} {f : β → Act ε σ α} {Q : σ → Prop}
    (hf : ∀ b, o = some b → Ends (f b) s Q) : Ends (expect o >>= f) s Q :=
  (wp_bind _ f).2 ((wp_expect o).2 ⟨hf, fun _ _ he => nomatch he⟩)

theorem ends_ite {c : Prop} [Decidable c] {x y : Act ε σ α} {Q : σ → Prop}
    (hx : c → Ends x s Q) (hy : ¬ c → Ends y s Q) : Ends (if c then x else y) s Q :=
  (wp_ite c x y).2 ⟨hx, hy⟩

/-- `x` returns in a state that is not in `Q`. -/
theorem not_ends {x : Act ε σ α} {Q : σ → Prop}
    (h : wp x s (fun _ s' => ¬ Q s') (fun e s' => (∃ e', e = .err e') ∧ ¬ Q s')) : ¬ Ends x s Q := by
  intro hq
  have := wp_and h hq
  unfold wp at this
  split at this
  · exact this.1 this.2
  · obtain ⟨⟨⟨e', he⟩, hn⟩, hq⟩ := this
    exact hn (hq e' he)

theorem ends_attempt {x : Act ε σ α} {Q : σ → Prop} (h : Ends x s Q) : Ends (attempt x) s Q := by
  refine (wp_attempt x).2 (wp_mono h (fun _ _ h => h) fun f s' h => ⟨h, fun _ _ he => nomatch he⟩)

end

end Act
