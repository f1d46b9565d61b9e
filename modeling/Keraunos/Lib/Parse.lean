import Keraunos.Lib.Bytes

/-!
# Parsers

A parser consumes the front of a list of tokens and may fail. These relations say what it does with
what a writer wrote:

* `Reads p w a`: `p` reads `w` as `a` and leaves what follows; `ReadsAll` when nothing follows.
* `Exact p w`: everything `p` accepts is what `w` writes, followed by the unread rest; `Accepts p w P`
  when what was read also has the property `P`.

All compose along `>>=`, repetition and the `while` loop over a non-empty input.
-/

namespace Parse

/-- The state is the unread rest. -/
abbrev Parser (τ ε α : Type) : Type := StateT (List τ) (Except ε) α

section
variable {τ ε α β σ : Type}

theorem run_bind_ok {p : Parser τ ε α} {f : α → Parser τ ε β} {s s' : List τ} {a : α}
    (h : p.run s = .ok (a, s')) : (p >>= f).run s = (f a).run s' := by
  rw [StateT.run_bind, h]
  rfl

/-- A sequence that succeeds: both its parts do. -/
theorem of_run_bind {p : Parser τ ε α} {f : α → Parser τ ε β} {s s'' : List τ} {b : β}
    (h : (p >>= f).run s = .ok (b, s'')) :
    ∃ a s', p.run s = .ok (a, s') ∧ (f a).run s' = .ok (b, s'') := by
  rw [StateT.run_bind] at h
  cases hp : p.run s with
  | error e =>
    rw [hp] at h
    cases h
  | ok r =>
    rw [hp] at h
    exact ⟨r.1, r.2, rfl, h⟩

/-! ## Primitives -/

/-- The next `n` tokens, or the error `e`. -/
def take (e : ε) (n : Nat) : Parser τ ε (List τ) := fun s =>
  if s.length < n then .error e else .ok (s.take n, s.drop n)

/-- All remaining tokens. -/
def rest : Parser τ ε (List τ) := fun s => .ok (s, [])

/-- A computation that reads nothing. -/
def lift (x : Except ε α) : Parser τ ε α := fun s => x.map fun a => (a, s)

/-- `n` times the same parser. -/
def times (p : Parser τ ε α) : Nat → Parser τ ε (List α)
  | 0 => pure []
  | n + 1 => do
    let a ← p
    let as ← times p n
    return a :: as

/-! ## Reading what was written -/

/-- `p` reads `w` as `a`, whatever follows. -/
def Reads (p : Parser τ ε α) (w : List τ) (a : α) : Prop :=
  ∀ s, p.run (w ++ s) = .ok (a, s)

/-- `p` reads the whole input `w` as `a`. -/
def ReadsAll (p : Parser τ ε α) (w : List τ) (a : α) : Prop := p.run w = .ok (a, [])

namespace Reads

theorem all {p : Parser τ ε α} {w : List τ} {a : α} (h : Reads p w a) : ReadsAll p w a := by
  have hs := h []
  rwa [List.append_nil] at hs

theorem pure (a : α) : Reads (Pure.pure a : Parser τ ε α) [] a := fun _ => rfl

theorem bind {p : Parser τ ε α} {f : α → Parser τ ε β} {u v : List τ} {a : α} {b : β}
    (hp : Reads p u a) (hf : Reads (f a) v b) : Reads (p >>= f) (u ++ v) b := by
  intro s
  rw [List.append_assoc, run_bind_ok (hp (v ++ s))]
  exact hf s

/-- The last field of a record. -/
theorem last {p : Parser τ ε α} {g : α → β} {u : List τ} {a : α} (hp : Reads p u a) :
    Reads (p >>= fun x => Pure.pure (g x)) u (g a) := by
  intro s
  rw [run_bind_ok (hp s)]
  rfl

theorem last_eq {p : Parser τ ε α} {g : α → β} {u : List τ} {a : α} {b : β} (hp : Reads p u a)
    (hg : g a = b) : Reads (p >>= fun x => Pure.pure (g x)) u b := by
  subst hg
  exact hp.last

theorem bindAll {p : Parser τ ε α} {f : α → Parser τ ε β} {u v : List τ} {a : α} {b : β}
    (hp : Reads p u a) (hf : ReadsAll (f a) v b) : ReadsAll (p >>= f) (u ++ v) b := by
  rw [ReadsAll, run_bind_ok (hp v)]
  exact hf

theorem take {e : ε} {w : List τ} {n : Nat} (h : w.length = n) :
    Reads (Parse.take e n) w w := by
  intro s
  subst h
  simp [Parse.take, StateT.run]

theorem lift {x : Except ε α} {a : α} (h : x = .ok a) : Reads (τ := τ) (Parse.lift x) [] a := by
  intro s
  rw [h]
  rfl

/-- A list of elements, written one after the other. -/
theorem times {p : Parser τ ε α} {w : α → List τ} {as : List α}
    (h : ∀ a ∈ as, Reads p (w a) a) : Reads (Parse.times p as.length) (as.flatMap w) as := by
  induction as with
  | nil => exact pure []
  | cons a as ih =>
    rw [List.flatMap_cons]
    exact (h a List.mem_cons_self).bind (ih fun x hx => h x (List.mem_cons_of_mem _ hx)).last

end Reads

namespace ReadsAll

theorem last {p : Parser τ ε α} {g : α → β} {w : List τ} {a : α} (h : ReadsAll p w a) :
    ReadsAll (p >>= fun x => Pure.pure (g x)) w (g a) := by
  rw [ReadsAll, run_bind_ok h]
  rfl

theorem rest {f : List τ → Parser τ ε β} {w : List τ} {b : β} (h : ReadsAll (f w) [] b) :
    ReadsAll (Parse.rest >>= f) w b := by
  rw [ReadsAll, run_bind_ok (show Parse.rest.run w = .ok (w, []) from rfl)]
  exact h

theorem lift {x : Except ε α} {f : α → Parser τ ε β} {a : α} {b : β} {w : List τ} (hx : x = .ok a)
    (h : ReadsAll (f a) w b) : ReadsAll (Parse.lift x >>= f) w b :=
  (Reads.lift hx).bindAll h

end ReadsAll

/-! ## Accepting nothing else -/

/-- Everything `p` accepts is what `w` writes. -/
def Exact (p : Parser τ ε α) (w : α → List τ) : Prop :=
  ∀ s a s', p.run s = .ok (a, s') → s = w a ++ s'

namespace Exact

theorem take (e : ε) (n : Nat) : Exact (τ := τ) (Parse.take e n) id := by
  intro s a s' h
  simp only [Parse.take, StateT.run] at h
  split at h
  · cases h
  · cases h
    exact (List.take_append_drop n s).symm

/-- The first part of a sequence that succeeds. -/
theorem of_bind {p : Parser τ ε α} {w : α → List τ} {f : α → Parser τ ε β} {s s'' : List τ} {b : β}
    (hp : Exact p w) (h : (p >>= f).run s = .ok (b, s'')) :
    ∃ a s', s = w a ++ s' ∧ (f a).run s' = .ok (b, s'') := by
  obtain ⟨a, s', hs, hf⟩ := of_run_bind h
  exact ⟨a, s', hp s a s' hs, hf⟩

end Exact

/-- Everything `p` accepts is what `w` writes of a value with the property `P`. -/
def Accepts (p : Parser τ ε α) (w : α → List τ) (P : α → Prop) : Prop :=
  ∀ s a s', p.run s = .ok (a, s') → s = w a ++ s' ∧ P a

/-- A sequence that succeeds on what its first part reads. -/
theorem Reads.of_run {p : Parser τ ε α} {f : α → Parser τ ε β} {u s s' : List τ} {a : α} {b : β}
    (hp : Reads p u a) (h : (p >>= f).run (u ++ s) = .ok (b, s')) : (f a).run s = .ok (b, s') := by
  rwa [run_bind_ok (hp s)] at h

/-- A computation that reads nothing and succeeds. -/
theorem of_run_lift {x : Except ε α} {f : α → Parser τ ε β} {s s' : List τ} {b : β}
    (h : (lift x >>= f).run s = .ok (b, s')) : ∃ a, x = .ok a ∧ (f a).run s = .ok (b, s') := by
  cases x with
  | error e => cases h
  | ok a => exact ⟨a, rfl, h⟩

/-- A parser under a constructor. -/
theorem of_run_last {p : Parser τ ε α} {g : α → β} {s s' : List τ} {b : β}
    (h : (p >>= fun x => pure (g x)).run s = .ok (b, s')) : ∃ a, p.run s = .ok (a, s') ∧ g a = b := by
  obtain ⟨a, s1, hp, hg⟩ := of_run_bind h
  cases hg
  exact ⟨a, hp, rfl⟩

theorem length_of_take {e : ε} {n : Nat} {s a s' : List τ} (h : (take e n).run s = .ok (a, s')) :
    a.length = n := by
  simp only [take, StateT.run] at h
  split at h
  · cases h
  · cases h
    rw [List.length_take]
    omega

namespace Accepts

variable {p : Parser τ ε α} {w : α → List τ} {P : α → Prop}

/-- The first part of a sequence that succeeds. -/
theorem of_bind {f : α → Parser τ ε β} {s s'' : List τ} {b : β} (hp : Accepts p w P)
    (h : (p >>= f).run s = .ok (b, s'')) :
    ∃ a s', s = w a ++ s' ∧ P a ∧ (f a).run s' = .ok (b, s'') := by
  obtain ⟨a, s', hrun, hf⟩ := of_run_bind h
  obtain ⟨hs, ha⟩ := hp s a s' hrun
  exact ⟨a, s', hs, ha, hf⟩

/-- The last part of a sequence that succeeds. -/
theorem of_last {g : α → β} {s s' : List τ} {b : β} (hp : Accepts p w P)
    (h : (p >>= fun x => Pure.pure (g x)).run s = .ok (b, s')) :
    ∃ a, g a = b ∧ s = w a ++ s' ∧ P a := by
  obtain ⟨a, hrun, hg⟩ := of_run_last h
  exact ⟨a, hg, hp s a s' hrun⟩

theorem take (e : ε) (n : Nat) : Accepts (τ := τ) (Parse.take e n) id (·.length = n) :=
  fun s a s' h => ⟨Exact.take e n s a s' h, length_of_take h⟩

/-- A list of elements, one after the other. -/
theorem times (hp : Accepts p w P) (n : Nat) : Accepts (Parse.times p n) (fun as => as.flatMap w)
    (fun as => as.length = n ∧ ∀ a ∈ as, P a) := by
  induction n with
  | zero =>
    intro s as s' h
    cases h
    exact ⟨rfl, rfl, fun a ha => nomatch ha⟩
  | succ n ih =>
    intro s as s' h
    obtain ⟨a, s₁, rfl, ha, h₁⟩ := hp.of_bind h
    obtain ⟨as', rfl, rfl, hlen, has⟩ := ih.of_last h₁
    refine ⟨?_, congrArg (· + 1) hlen, List.forall_mem_cons.2 ⟨ha, has⟩⟩
    show _ = (a :: as').flatMap w ++ s'
    rw [List.flatMap_cons, List.append_assoc]

end Accepts

/-! ## Cut inputs -/

/-- What `p` reads does not depend on what follows. -/
def Local (p : Parser τ ε α) : Prop :=
  ∀ s a s', p.run s = .ok (a, s') → ∀ t, p.run (s ++ t) = .ok (a, s' ++ t)

namespace Local

theorem pure (a : α) : Local (Pure.pure a : Parser τ ε α) := by
  intro s b s' hr t
  cases hr
  rfl

theorem throw (e : ε) : Local (MonadExcept.throw e : Parser τ ε α) := by
  intro s a s' hr
  cases hr

theorem take (e : ε) (n : Nat) : Local (Parse.take e n : Parser τ ε (List τ)) := by
  intro s a s' hr t
  have hs := Exact.take e n s a s' hr
  have ha := length_of_take hr
  rw [hs, List.append_assoc]
  exact Reads.take ha (s' ++ t)

theorem bind {p : Parser τ ε α} {f : α → Parser τ ε β} (hp : Local p) (hf : ∀ a, Local (f a)) :
    Local (p >>= f) := by
  intro s b s'' hr t
  obtain ⟨a, s', h1, h2⟩ := of_run_bind hr
  rw [run_bind_ok (hp s a s' h1 t)]
  exact hf a s' b s'' h2 t

theorem ite {c : Prop} [Decidable c] {p q : Parser τ ε α} (hp : Local p) (hq : Local q) :
    Local (if c then p else q) := by
  split
  · exact hp
  · exact hq

theorem times {p : Parser τ ε α} (hp : Local p) (n : Nat) : Local (Parse.times p n) := by
  induction n with
  | zero => exact pure []
  | succ n ih => exact hp.bind fun _ => ih.bind fun _ => pure _

/-- No proper front of what is read is read to its end. -/
theorem ne_of_cut {p : Parser τ ε α} {u v : List τ} {a b : α} (hp : Local p)
    (h : Reads p (u ++ v) a) (hv : v ≠ []) : p.run u ≠ .ok (b, []) := by
  intro hu
  have h1 := hp u b [] hu v
  have h2 := h.all
  rw [ReadsAll, h1] at h2
  cases h2
  exact hv rfl

end Local

/-! ## Consuming tokens -/

/-- A run of `p` that succeeds consumes at least `n` tokens. -/
def Costs (n : Nat) (p : Parser τ ε α) : Prop :=
  ∀ s a s', p.run s = .ok (a, s') → s'.length + n ≤ s.length

namespace Costs

theorem mono {m n : Nat} {p : Parser τ ε α} (h : Costs m p) (hle : n ≤ m) : Costs n p := by
  intro s a s' hr
  have hs := h s a s' hr
  omega

theorem pure (a : α) : Costs 0 (Pure.pure a : Parser τ ε α) := by
  intro s b s' hr
  cases hr
  exact Nat.le_refl _

theorem throw {n : Nat} (e : ε) : Costs n (MonadExcept.throw e : Parser τ ε α) := by
  intro s a s' hr
  cases hr

theorem take (e : ε) (n : Nat) : Costs n (Parse.take e n : Parser τ ε (List τ)) := by
  intro s a s' hr
  have hs := congrArg List.length (Exact.take e n s a s' hr)
  have ha := length_of_take hr
  simp only [id, List.length_append] at hs
  omega

theorem bind {m n : Nat} {p : Parser τ ε α} {f : α → Parser τ ε β} (hp : Costs m p)
    (hf : ∀ a, Costs n (f a)) : Costs (m + n) (p >>= f) := by
  intro s b s'' hr
  obtain ⟨a, s', h1, h2⟩ := of_run_bind hr
  have hs := hp s a s' h1
  have hs' := hf a s' b s'' h2
  omega

/-- What follows consumes nothing back. -/
theorem bind_left {n : Nat} {p : Parser τ ε α} {f : α → Parser τ ε β} (hp : Costs n p)
    (hf : ∀ a, Costs 0 (f a)) : Costs n (p >>= f) := hp.bind hf

theorem ite {n : Nat} {c : Prop} [Decidable c] {p q : Parser τ ε α} (hp : Costs n p)
    (hq : Costs n q) : Costs n (if c then p else q) := by
  split
  · exact hp
  · exact hq

end Costs

/-! ## Loops over a non-empty input -/

/-- At most `fuel` passes of `while !is_empty()`; a pass that is `done` leaves the loop. -/
def loop (body : σ → Parser τ ε (ForInStep σ)) : Nat → σ → Parser τ ε σ
  | 0, a => pure a
  | fuel + 1, a => fun s =>
    if s.isEmpty then .ok (a, s)
    else StateT.run (do
      match ← body a with
      | .yield a' => loop body fuel a'
      | .done a' => pure a') s

/-- `while !is_empty() { body }`. Every pass of the loops here consumes a token, so the length of
the input bounds their number (`whileMore_run`). -/
def whileMore (body : σ → Parser τ ε (ForInStep σ)) (a : σ) : Parser τ ε σ := fun s =>
  (loop body s.length a).run s

/-- A body whose every pass consumes a token. -/
def Consumes (body : σ → Parser τ ε (ForInStep σ)) : Prop := ∀ a, Costs 1 (body a)

@[simp] theorem whileMore_nil (body : σ → Parser τ ε (ForInStep σ)) (a : σ) :
    (whileMore body a).run [] = .ok (a, []) := rfl

/-- More fuel than tokens changes nothing. -/
theorem loop_run {body : σ → Parser τ ε (ForInStep σ)} (hb : Consumes body) (fuel : Nat) (a : σ)
    (s : List τ) (h : s.length ≤ fuel) : (loop body fuel a).run s = (whileMore body a).run s := by
  induction fuel using Nat.strongRecOn generalizing a s with
  | ind fuel ih =>
    cases s with
    | nil =>
      cases fuel <;> rfl
    | cons t s =>
      obtain ⟨fuel, rfl⟩ : ∃ m, fuel = m + 1 := ⟨fuel - 1, by simp at h; omega⟩
      show (loop body (fuel + 1) a).run (t :: s) = (loop body (s.length + 1) a).run (t :: s)
      simp only [loop, StateT.run, List.isEmpty_cons, Bool.false_eq_true, if_false]
      cases hr : (body a).run (t :: s) with
      | error e =>
        simp only [bind, StateT.bind, Except.bind]
        simp only [StateT.run] at hr
        rw [hr]
      | ok r =>
        obtain ⟨r, s'⟩ := r
        have hs := hb _ _ _ _ hr
        simp only [List.length_cons] at h hs
        simp only [bind, StateT.bind, Except.bind]
        simp only [StateT.run] at hr
        rw [hr]
        cases r with
        | done a' => rfl
        | yield a' =>
          have h1 := ih fuel (by omega) a' s' (by omega)
          have h2 := ih s.length (by omega) a' s' (by omega)
          exact h1.trans h2.symm

/-- One pass of the loop. -/
theorem whileMore_run {body : σ → Parser τ ε (ForInStep σ)} (hb : Consumes body) (a : σ)
    {s : List τ} (h : s ≠ []) : (whileMore body a).run s =
      (body a >>= fun
        | .yield a' => whileMore body a'
        | .done a' => pure a').run s := by
  obtain ⟨t, s, rfl⟩ := List.exists_cons_of_ne_nil h
  show (loop body (s.length + 1) a).run (t :: s) = _
  simp only [loop, StateT.run, List.isEmpty_cons, Bool.false_eq_true, if_false]
  cases hr : (body a).run (t :: s) with
  | error e =>
    simp only [bind, StateT.bind, Except.bind]
    simp only [StateT.run] at hr
    rw [hr]
  | ok r =>
    obtain ⟨r, s'⟩ := r
    have hs := hb _ _ _ _ hr
    simp only [List.length_cons] at hs
    simp only [bind, StateT.bind, Except.bind]
    simp only [StateT.run] at hr
    rw [hr]
    cases r with
    | done a' => rfl
    | yield a' => exact loop_run hb s.length a' s' (by omega)

/-- A loop whose pass after `pre` reads the next element reads the whole list; `g` is the state
after a list of elements. -/
theorem ReadsAll.whileMore {body : σ → Parser τ ε (ForInStep σ)} (hb : Consumes body)
    {w : α → List τ} (g : List α → σ) {xs : List α} (hne : ∀ x, w x ≠ [])
    (hstep : ∀ pre x post, xs = pre ++ x :: post →
      Reads (body (g pre)) (w x) (.yield (g (pre ++ [x])))) :
    ReadsAll (Parse.whileMore body (g [])) (xs.flatMap w) (g xs) := by
  suffices h : ∀ post pre, xs = pre ++ post →
      ReadsAll (Parse.whileMore body (g pre)) (post.flatMap w) (g xs) from h xs [] rfl
  intro post
  induction post with
  | nil =>
    intro pre hpre
    rw [List.append_nil] at hpre
    subst hpre
    exact whileMore_nil body _
  | cons x post ih =>
    intro pre hpre
    rw [ReadsAll, List.flatMap_cons, whileMore_run hb _ (by simp [hne x]),
      run_bind_ok (hstep pre x post hpre _)]
    exact ih (pre ++ [x]) (by simp [hpre])

/-- What a pass of the loop establishes of the state before it and the tokens it consumed, a
finished loop establishes of the state it started from. -/
theorem of_run_whileMore {body : σ → Parser τ ε (ForInStep σ)} (hb : Consumes body)
    {R : σ → List τ → σ → Prop} (hnil : ∀ a, R a [] a)
    (hdone : ∀ a s a' s', (body a).run s = .ok (.done a', s') → R a s a')
    (hyield : ∀ a s a' s' a'', (body a).run s = .ok (.yield a', s') → R a' s' a'' → R a s a'')
    {a a' : σ} {s s' : List τ} (h : (whileMore body a).run s = .ok (a', s')) : R a s a' := by
  induction hn : s.length using Nat.strongRecOn generalizing a s with
  | ind n ih =>
    by_cases hs : s = []
    · subst hs
      cases h
      exact hnil _
    · rw [whileMore_run hb a hs] at h
      obtain ⟨r, s1, hr, h⟩ := of_run_bind h
      have hlt := hb a s r s1 hr
      cases r with
      | done a1 =>
        cases h
        exact hdone a s _ _ hr
      | yield a1 => exact hyield a s a1 s1 a' hr (ih s1.length (by omega) h rfl)

end

end Parse
