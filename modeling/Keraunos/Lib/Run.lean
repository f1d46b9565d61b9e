import Keraunos.Lib.Act

/-!
# Runs

`Run f s₀ tr s`: from `s₀`, the inputs of `tr` take the machine `f` to `s`, with the outcomes `tr`
records. An error is an outcome like any other and the run goes on; a panic ends it.

`Run.induct` is the induction rule: a property of trace and state that holds at the start and that
every step keeps, whatever the outcome, holds of every run. `Run.Within f A` are the runs whose
steps all meet a condition. `Run.exec` and `Run.execWithin` compute runs.
-/

section
variable {ι ε σ α : Type}

/-- The outcomes of the inputs of a run, in order. -/
abbrev Trace (ι ε α : Type) : Type := List (ι × Except ε α)

inductive Run (f : ι → Act ε σ α) (s₀ : σ) : Trace ι ε α → σ → Prop
  | nil : Run f s₀ [] s₀
  | ok {tr : Trace ι ε α} {s s' : σ} {i : ι} {a : α} :
      Run f s₀ tr s → f i s = .ok a s' → Run f s₀ (tr ++ [(i, .ok a)]) s'
  | err {tr : Trace ι ε α} {s s' : σ} {i : ι} {e : ε} :
      Run f s₀ tr s → f i s = .error (.err e) s' → Run f s₀ (tr ++ [(i, .error e)]) s'

namespace Run

variable {f : ι → Act ε σ α} {s₀ s : σ} {tr : Trace ι ε α}

theorem induct {P : Trace ι ε α → σ → Prop} (h₀ : P [] s₀)
    (hstep : ∀ tr s i, P tr s → Act.wp (f i) s (fun a s' => P (tr ++ [(i, .ok a)]) s')
      (fun e s' => ∀ e', e = .err e' → P (tr ++ [(i, .error e')]) s'))
    (hr : Run f s₀ tr s) : P tr s := by
  induction hr with
  | nil => exact h₀
  | @ok tr s s' i a _ hf ih => exact (Act.wp_iff.1 (hstep tr s i ih)).1 a s' hf
  | @err tr s s' i e _ hf ih => exact (Act.wp_iff.1 (hstep tr s i ih)).2 (.err e) s' hf e rfl

/-- The rule for an invariant of the state, for runs whose inputs are all in `A`. -/
theorem invariant {I : σ → Prop} {A : ι → Prop} (h₀ : I s₀)
    (hstep : ∀ s i, A i → I s → Act.wp (f i) s (fun _ s' => I s')
      (fun e s' => ∀ e', e = .err e' → I s'))
    (hr : Run f s₀ tr s) (hA : ∀ x ∈ tr, A x.1) : I s := by
  refine induct (P := fun tr s => (∀ x ∈ tr, A x.1) → I s) (fun _ => h₀) ?_ hr hA
  intro tr s i ih
  by_cases hi : (∀ x ∈ tr, A x.1) ∧ A i
  · exact Act.wp_mono (hstep s i hi.2 (ih hi.1)) (fun _ _ h _ => h)
      (fun e s' h e' he _ => h e' he)
  · have hcon : ∀ o, ¬ ∀ x ∈ tr ++ [(i, o)], A x.1 := fun o h =>
      hi ⟨fun x hx => h x (List.mem_append_left _ hx), h (i, o) (by simp)⟩
    exact Act.wp_iff.2 ⟨fun a s' _ h => absurd h (hcon _), fun e s' _ e' _ h => absurd h (hcon _)⟩

/-- A run in which every input meets `A` in the state it finds. -/
inductive Within (f : ι → Act ε σ α) (A : σ → ι → Prop) (s₀ : σ) : Trace ι ε α → σ → Prop
  | nil : Within f A s₀ [] s₀
  | ok {tr : Trace ι ε α} {s s' : σ} {i : ι} {a : α} :
      Within f A s₀ tr s → A s i → f i s = .ok a s' → Within f A s₀ (tr ++ [(i, .ok a)]) s'
  | err {tr : Trace ι ε α} {s s' : σ} {i : ι} {e : ε} :
      Within f A s₀ tr s → A s i → f i s = .error (.err e) s' →
      Within f A s₀ (tr ++ [(i, .error e)]) s'

/-- The rule for an invariant of the steps that meet `A`. -/
theorem Within.invariant {A : σ → ι → Prop} {I : σ → Prop} (h₀ : I s₀)
    (hstep : ∀ s i, A s i → I s → Act.Ends (f i) s I) (hr : Within f A s₀ tr s) : I s := by
  induction hr with
  | nil => exact h₀
  | @ok tr s s' i a _ hA hf ih => exact Act.wp_ok (hstep s i hA ih) hf
  | @err tr s s' i e _ hA hf ih => exact Act.wp_error (hstep s i hA ih) hf e rfl

theorem Within.run {A : σ → ι → Prop} (hr : Within f A s₀ tr s) : Run f s₀ tr s := by
  induction hr with
  | nil => exact .nil
  | ok _ _ hf ih => exact ih.ok hf
  | err _ _ hf ih => exact ih.err hf

/-- The same rule, where the run so far counts. -/
theorem Within.invariant_of_run {A : σ → ι → Prop} {I : σ → Prop} (h₀ : I s₀)
    (hstep : ∀ tr s i, Run f s₀ tr s → A s i → I s → Act.Ends (f i) s I)
    (hr : Within f A s₀ tr s) : I s := by
  induction hr with
  | nil => exact h₀
  | @ok tr s s' i a hr hA hf ih => exact Act.wp_ok (hstep tr s i hr.run hA ih) hf
  | @err tr s s' i e hr hA hf ih => exact Act.wp_error (hstep tr s i hr.run hA ih) hf e rfl

/-- What a machine returns of its calls does not matter to where it goes. -/
theorem relabel {β : Type} {O : ι → Type} {p : (i : ι) → Act ε σ (O i)} {a : (i : ι) → O i → α}
    {b : (i : ι) → O i → β} (hr : Run (fun i => a i <$> p i) s₀ tr s) :
    ∃ tr', Run (fun i => b i <$> p i) s₀ tr' s ∧ tr'.map Prod.fst = tr.map Prod.fst := by
  induction hr with
  | nil => exact ⟨[], .nil, rfl⟩
  | @ok tr s s' i x _ hf ih =>
    obtain ⟨tr', hr', hin⟩ := ih
    obtain ⟨y, hy, -⟩ := Act.map_eq_ok.1 hf
    exact ⟨_, hr'.ok (Act.map_eq_ok.2 ⟨y, hy, rfl⟩), by simp [hin]⟩
  | @err tr s s' i e _ hf ih =>
    obtain ⟨tr', hr', hin⟩ := ih
    exact ⟨_, hr'.err (Act.map_eq_error.2 (Act.map_eq_error.1 hf)), by simp [hin]⟩

theorem Within.relabel {β : Type} {O : ι → Type} {p : (i : ι) → Act ε σ (O i)}
    {a : (i : ι) → O i → α} {b : (i : ι) → O i → β} {A B : σ → ι → Prop} (hAB : ∀ s i, A s i → B s i)
    (hr : Within (fun i => a i <$> p i) A s₀ tr s) :
    ∃ tr', Within (fun i => b i <$> p i) B s₀ tr' s := by
  induction hr with
  | nil => exact ⟨[], .nil⟩
  | @ok tr s s' i x _ hA hf ih =>
    obtain ⟨tr', hr'⟩ := ih
    obtain ⟨y, hy, -⟩ := Act.map_eq_ok.1 hf
    exact ⟨_, hr'.ok (hAB s i hA) (Act.map_eq_ok.2 ⟨y, hy, rfl⟩)⟩
  | @err tr s s' i e _ hA hf ih =>
    obtain ⟨tr', hr'⟩ := ih
    exact ⟨_, hr'.err (hAB s i hA) (Act.map_eq_error.2 (Act.map_eq_error.1 hf))⟩

/-- One run after another. -/
theorem append {t : σ} {tr' : Trace ι ε α} (h : Run f s₀ tr s) (h' : Run f s tr' t) :
    Run f s₀ (tr ++ tr') t := by
  induction h' with
  | nil => simpa using h
  | ok _ hf ih =>
    rw [← List.append_assoc]
    exact ih.ok hf
  | err _ hf ih =>
    rw [← List.append_assoc]
    exact ih.err hf

/-- The first step, then the rest. -/
theorem cons {s' t : σ} {i : ι} {a : α} (hf : f i s = .ok a s') (hr : Run f s' tr t) :
    Run f s ((i, .ok a) :: tr) t := by
  induction hr with
  | nil => exact .ok .nil hf
  | ok _ hf' ih => exact .ok ih hf'
  | err _ hf' ih => exact .err ih hf'

theorem cons_err {s' t : σ} {i : ι} {e : ε} (hf : f i s = .error (.err e) s') (hr : Run f s' tr t) :
    Run f s ((i, .error e) :: tr) t := by
  induction hr with
  | nil => exact .err .nil hf
  | ok _ hf' ih => exact .ok ih hf'
  | err _ hf' ih => exact .err ih hf'

/-- Run the inputs: the trace and the last state, unless there was a panic. -/
def exec (f : ι → Act ε σ α) (s : σ) : List ι → Option (Trace ι ε α × σ)
  | [] => some ([], s)
  | i :: is =>
    match f i s with
    | .ok a s' => (exec f s' is).map fun r => ((i, .ok a) :: r.1, r.2)
    | .error (.err e) s' => (exec f s' is).map fun r => ((i, .error e) :: r.1, r.2)
    | .error .panic _ => none

/-- The trace of an execution has its inputs, in order. -/
theorem exec_inputs {is : List ι} {r : Trace ι ε α × σ} (h : exec f s is = some r) :
    r.1.map Prod.fst = is := by
  induction is generalizing s r with
  | nil =>
    obtain rfl := Option.some.inj h
    rfl
  | cons i is ih =>
    rw [exec] at h
    split at h
    · obtain ⟨r', hr', rfl⟩ := Option.map_eq_some_iff.1 h
      simp [ih hr']
    · obtain ⟨r', hr', rfl⟩ := Option.map_eq_some_iff.1 h
      simp [ih hr']
    · cases h

theorem of_exec {is : List ι} {r : Trace ι ε α × σ} (h : exec f s is = some r) :
    Run f s r.1 r.2 := by
  induction is generalizing s r with
  | nil =>
    obtain rfl := Option.some.inj h
    exact .nil
  | cons i is ih =>
    rw [exec] at h
    split at h
    · next a s' hf =>
      obtain ⟨r', hr', rfl⟩ := Option.map_eq_some_iff.1 h
      exact cons hf (ih hr')
    · next e s' hf =>
      obtain ⟨r', hr', rfl⟩ := Option.map_eq_some_iff.1 h
      exact cons_err hf (ih hr')
    · cases h

/-- A run that computes to a state with `p`. -/
theorem exists_of_exec (is : List ι) (p : σ → Prop) [DecidablePred p]
    (h : (exec f s is).any (fun r => p r.2) = true) : ∃ tr t, Run f s tr t ∧ p t := by
  obtain ⟨r, hr, hp⟩ := (Option.any_eq_true _ _).1 h
  exact ⟨r.1, r.2, of_exec hr, by simpa using hp⟩

/-- Run the inputs as long as they meet `A`; `none` when one does not. -/
def execWithin (f : ι → Act ε σ α) (A : σ → ι → Prop) [∀ s i, Decidable (A s i)] (s : σ) :
    List ι → Option (Trace ι ε α × σ)
  | [] => some ([], s)
  | i :: is =>
    if A s i then
      match f i s with
      | .ok a s' => (execWithin f A s' is).map fun r => ((i, .ok a) :: r.1, r.2)
      | .error (.err e) s' => (execWithin f A s' is).map fun r => ((i, .error e) :: r.1, r.2)
      | .error .panic _ => none
    else none

section
variable {A : σ → ι → Prop} {s' t : σ} {i : ι}

theorem Within.cons {a : α} (hA : A s i) (hf : f i s = .ok a s') (hr : Within f A s' tr t) :
    Within f A s ((i, .ok a) :: tr) t := by
  induction hr with
  | nil => exact .ok .nil hA hf
  | ok _ hA' hf' ih => exact .ok ih hA' hf'
  | err _ hA' hf' ih => exact .err ih hA' hf'

theorem Within.cons_err {e : ε} (hA : A s i) (hf : f i s = .error (.err e) s')
    (hr : Within f A s' tr t) : Within f A s ((i, .error e) :: tr) t := by
  induction hr with
  | nil => exact .err .nil hA hf
  | ok _ hA' hf' ih => exact .ok ih hA' hf'
  | err _ hA' hf' ih => exact .err ih hA' hf'

theorem Within.of_exec [∀ s i, Decidable (A s i)] {is : List ι} {r : Trace ι ε α × σ}
    (h : execWithin f A s is = some r) : Within f A s r.1 r.2 := by
  induction is generalizing s r with
  | nil =>
    obtain rfl := Option.some.inj h
    exact .nil
  | cons i is ih =>
    rw [execWithin] at h
    split at h
    · next hA =>
      split at h
      · next a s' hf =>
        obtain ⟨r', hr', rfl⟩ := Option.map_eq_some_iff.1 h
        exact .cons hA hf (ih hr')
      · next e s' hf =>
        obtain ⟨r', hr', rfl⟩ := Option.map_eq_some_iff.1 h
        exact .cons_err hA hf (ih hr')
      · cases h
    · cases h

/-- A run within `A` that computes to a state with `p`. -/
theorem Within.exists_of_exec [∀ s i, Decidable (A s i)] (is : List ι) (p : σ → Prop)
    [DecidablePred p] (h : (execWithin f A s is).any (fun r => p r.2) = true) :
    ∃ tr t, Within f A s tr t ∧ p t := by
  obtain ⟨r, hr, hp⟩ := (Option.any_eq_true _ _).1 h
  exact ⟨r.1, r.2, of_exec hr, by simpa using hp⟩

end

end Run

end
