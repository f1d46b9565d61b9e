import Keraunos.Lib.Act
import Mathlib.Algebra.BigOperators.Group.List.Basic
import Mathlib.Algebra.GroupWithZero.Nat

/-!
# Unsigned words

Arithmetic on 64-bit words, whose values are natural numbers below `2 ^ 64`. An operation that leaves
this range panics in a checked build and wraps around in an unchecked one.

`Tracks x fits v` compares a computation on words with its exact value `v`: where `fits` holds both
builds return `v`, elsewhere the checked one panics. The rules of `Tracks` follow the do blocks of the
computations, so that `fits` can be read off a program.
-/

/-- What a build makes of an overflow. -/
inductive Overflow where
  | checked
  | unchecked
  deriving DecidableEq, Repr

namespace Overflow

variable {ε : Type}

section
variable (m : Overflow)

/-- An operation with the exact result `n`. -/
def word (n : Nat) : Except (Fault ε) Nat :=
  if n < 2 ^ 64 then .ok n
  else
    match m with
    | .checked => .error .panic
    | .unchecked => .ok (n % 2 ^ 64)

def add (a b : Nat) : Except (Fault ε) Nat := m.word (a + b)

def mul (a b : Nat) : Except (Fault ε) Nat := m.word (a * b)

def sub (a b : Nat) : Except (Fault ε) Nat :=
  if b ≤ a then .ok (a - b)
  else
    match m with
    | .checked => .error .panic
    | .unchecked => .ok (2 ^ 64 + a - b)

/-- A sum of 32-bit words. -/
def add32 (a b : Nat) : Except (Fault ε) Nat :=
  if a + b < 2 ^ 32 then .ok (a + b)
  else
    match m with
    | .checked => .error .panic
    | .unchecked => .ok ((a + b) % 2 ^ 32)

/-- A product of 32-bit words. -/
def mul32 (a b : Nat) : Except (Fault ε) Nat :=
  if a * b < 2 ^ 32 then .ok (a * b)
  else
    match m with
    | .checked => .error .panic
    | .unchecked => .ok (a * b % 2 ^ 32)

/-- An operation on 16-bit words with the exact result `n`. -/
def word16 (n : Nat) : Except (Fault ε) Nat :=
  if n < 2 ^ 16 then .ok n
  else
    match m with
    | .checked => .error .panic
    | .unchecked => .ok (n % 2 ^ 16)

/-- The sum of an iterator. -/
def sum (l : List Nat) : Except (Fault ε) Nat := l.foldlM (fun acc a => m.add acc a) 0

end

section
variable {m : Overflow} {a b : Nat}

/-- What fits is exact in both builds. -/
theorem add_of_lt (h : a + b < 2 ^ 64) : (m.add a b : Except (Fault ε) Nat) = .ok (a + b) := if_pos h

theorem mul_of_lt (h : a * b < 2 ^ 64) : (m.mul a b : Except (Fault ε) Nat) = .ok (a * b) := if_pos h

theorem add32_of_lt (h : a + b < 2 ^ 32) : (m.add32 a b : Except (Fault ε) Nat) = .ok (a + b) :=
  if_pos h

theorem mul32_of_lt (h : a * b < 2 ^ 32) : (m.mul32 a b : Except (Fault ε) Nat) = .ok (a * b) :=
  if_pos h

end

theorem word_lt {m : Overflow} {n k : Nat} (h : (m.word n : Except (Fault ε) Nat) = .ok k) :
    k < 2 ^ 64 := by
  unfold word at h
  split at h
  · next hn =>
    cases h
    exact hn
  · cases m with
    | checked => cases h
    | unchecked =>
      cases h
      exact Nat.mod_lt _ (Nat.two_pow_pos 64)

/-- An unchecked build goes on with the remainder. -/
theorem unchecked_word_eq (n : Nat) :
    (Overflow.unchecked.word n : Except (Fault ε) Nat) = .ok (n % 2 ^ 64) := by
  unfold word
  split
  · next hn => rw [Nat.mod_eq_of_lt hn]
  · rfl

theorem unchecked_word (n : Nat) : ∃ k, (Overflow.unchecked.word n : Except (Fault ε) Nat) = .ok k :=
  ⟨_, unchecked_word_eq n⟩

theorem unchecked_add32_eq (a b : Nat) :
    (Overflow.unchecked.add32 a b : Except (Fault ε) Nat) = .ok ((a + b) % 2 ^ 32) := by
  unfold add32
  split
  · next hn => rw [Nat.mod_eq_of_lt hn]
  · rfl

/-! ## Computations that track their exact value -/

/-- Both builds of `x` return `v` where `fits` holds; elsewhere the checked build panics. -/
structure Tracks {α : Type} (x : Overflow → Except (Fault ε) α) (fits : Prop)
    (v : Except (Fault ε) α) : Prop where
  exact : fits → ∀ m, x m = v
  panics : ¬ fits → x .checked = .error .panic

namespace Tracks

variable {α β : Type} {x : Overflow → Except (Fault ε) α} {v : Except (Fault ε) α} {p q : Prop}

theorem congr (h : Tracks x p v) (hpq : p ↔ q) : Tracks x q v :=
  ⟨fun hq => h.exact (hpq.2 hq), fun hq => h.panics fun hp => hq (hpq.1 hp)⟩

/-- The checked build panics exactly where the computation does not fit. -/
theorem panic_iff (h : Tracks x p v) (hv : v ≠ .error .panic) : x .checked = .error .panic ↔ ¬ p := by
  constructor
  · intro hx hp
    exact hv ((h.exact hp .checked).symm.trans hx)
  · exact h.panics

/-- Both builds return the exact value if and only if the computation fits. -/
theorem forall_iff (h : Tracks x p v) (hv : v ≠ .error .panic) : (∀ m, x m = v) ↔ p := by
  refine ⟨fun hx => not_not.1 fun hp => hv ?_, fun hp m => h.exact hp m⟩
  rw [← hx .checked, h.panics hp]

/-- No overflow, and what an unchecked build returns has the property `P`: the computation fits and
the exact value has `P`. -/
theorem exact_iff {P : α → Prop} (h : Tracks x p v) (hv : v ≠ .error .panic) :
    (x .checked ≠ .error .panic ∧ ∀ a, x .unchecked = .ok a → P a) ↔ p ∧ ∀ a, v = .ok a → P a := by
  constructor
  · intro hx
    have hp : p := not_not.1 fun hp => hx.1 (h.panics hp)
    refine ⟨hp, fun a ha => hx.2 a ?_⟩
    rw [h.exact hp, ha]
  · intro ⟨hp, hP⟩
    refine ⟨fun hx => (h.panic_iff hv).1 hx hp, fun a ha => hP a ?_⟩
    rw [← h.exact hp .unchecked, ha]

theorem pure (v : Except (Fault ε) α) : Tracks (fun _ => v) True v :=
  ⟨fun _ _ => rfl, fun h => absurd trivial h⟩

theorem bind {f : Overflow → α → Except (Fault ε) β} {a : α} {w : Except (Fault ε) β}
    (hx : Tracks x p (.ok a)) (hf : Tracks (fun m => f m a) q w) :
    Tracks (fun m => x m >>= f m) (p ∧ q) w := by
  constructor
  · intro hpq m
    rw [hx.exact hpq.1 m]
    exact hf.exact hpq.2 m
  · intro hpq
    by_cases hp : p
    · rw [hx.exact hp]
      exact hf.panics fun hq => hpq ⟨hp, hq⟩
    · rw [hx.panics hp]
      rfl

/-- A check in front, which computes nothing on words. -/
theorem check {y : Except (Fault ε) Unit} {f : Overflow → Except (Fault ε) α} {w : Except (Fault ε) α}
    (hf : y = .ok () → Tracks f q w) :
    Tracks (fun m => y >>= fun _ => f m) (y = .ok () → q) (y >>= fun _ => w) := by
  cases y with
  | error e => exact ⟨fun _ _ => rfl, fun h => absurd (fun he => nomatch he) h⟩
  | ok u =>
    have hf := hf rfl
    exact ⟨fun h m => hf.exact (h rfl) m, fun h => hf.panics fun hq => h fun _ => hq⟩

theorem require {c : Prop} [Decidable c] {e : ε} {f : Overflow → Except (Fault ε) α}
    {w : Except (Fault ε) α} (hf : c → Tracks f q w) :
    Tracks (fun m => Fault.require c e >>= fun _ => f m) (c → q)
      (Fault.require c e >>= fun _ => w) :=
  (check fun h => hf (Fault.require_eq_ok.1 h)).congr (by simp)

theorem word (n : Nat) : Tracks (fun m => (m.word n : Except (Fault ε) Nat)) (n < 2 ^ 64) (.ok n) :=
  ⟨fun h _ => if_pos h, fun h => if_neg h⟩

theorem add (a b : Nat) :
    Tracks (fun m => (m.add a b : Except (Fault ε) Nat)) (a + b < 2 ^ 64) (.ok (a + b)) := word _

theorem mul (a b : Nat) :
    Tracks (fun m => (m.mul a b : Except (Fault ε) Nat)) (a * b < 2 ^ 64) (.ok (a * b)) := word _

theorem sub (a b : Nat) :
    Tracks (fun m => (m.sub a b : Except (Fault ε) Nat)) (b ≤ a) (.ok (a - b)) :=
  ⟨fun h _ => if_pos h, fun h => if_neg h⟩

theorem add32 (a b : Nat) :
    Tracks (fun m => (m.add32 a b : Except (Fault ε) Nat)) (a + b < 2 ^ 32) (.ok (a + b)) :=
  ⟨fun h _ => if_pos h, fun h => if_neg h⟩

/-- A branch on something that both builds know. -/
theorem ite {c : Prop} [Decidable c] {y : Overflow → Except (Fault ε) α} {w : Except (Fault ε) α}
    (hx : Tracks x p v) (hy : Tracks y q w) :
    Tracks (fun m => if c then x m else y m) ((c → p) ∧ (¬ c → q)) (if c then v else w) := by
  by_cases hc : c
  · simp only [if_pos hc]
    exact hx.congr (by simp [hc])
  · simp only [if_neg hc]
    exact hy.congr (by simp [hc])

end Tracks

/-! ## Loops -/

/-- Every pass of a loop fits. -/
def FoldFits {α β : Type} (fits : β → α → Prop) (f : β → α → β) : β → List α → Prop
  | _, [] => True
  | b, a :: l => fits b a ∧ FoldFits fits f (f b a) l

/-- The pass over an element fits, from what the passes before it left. -/
theorem FoldFits.exists_of_mem {α β : Type} {fits : β → α → Prop} {f : β → α → β} {b : β}
    {l : List α} {a : α} (h : FoldFits fits f b l) (ha : a ∈ l) : ∃ b', fits b' a := by
  induction l generalizing b with
  | nil => cases ha
  | cons a' l ih =>
    rcases List.mem_cons.1 ha with rfl | ha
    · exact ⟨b, h.1⟩
    · exact ih h.2 ha

theorem Tracks.foldlM {α β : Type} {g : Overflow → β → α → Except (Fault ε) β}
    {fits : β → α → Prop} {f : β → α → β}
    (h : ∀ b a, Tracks (fun m => g m b a) (fits b a) (.ok (f b a))) (l : List α) (b : β) :
    Tracks (fun m => l.foldlM (g m) b) (FoldFits fits f b l) (.ok (l.foldl f b)) := by
  induction l generalizing b with
  | nil => exact .pure _
  | cons a l ih =>
    simp only [List.foldlM_cons, FoldFits, List.foldl_cons]
    exact (h b a).bind (ih (f b a))

theorem foldFits_add {l : List Nat} {acc : Nat} (hacc : acc < 2 ^ 64) :
    FoldFits (fun acc a => acc + a < 2 ^ 64) (· + ·) acc l ↔ acc + l.sum < 2 ^ 64 := by
  induction l generalizing acc with
  | nil => simpa [FoldFits] using hacc
  | cons a l ih =>
    rw [FoldFits, List.sum_cons, ← Nat.add_assoc]
    constructor
    · intro h
      exact (ih h.1).1 h.2
    · intro h
      have ha : acc + a < 2 ^ 64 := by omega
      exact ⟨ha, (ih ha).2 h⟩

theorem Tracks.sum (l : List Nat) :
    Tracks (fun m => (m.sum l : Except (Fault ε) Nat)) (l.sum < 2 ^ 64) (.ok l.sum) := by
  have h := Tracks.foldlM (fun acc a => Tracks.add (ε := ε) acc a) l 0
  have hfits := foldFits_add (l := l) (by decide : 0 < 2 ^ 64)
  rw [Nat.zero_add] at hfits
  rw [← List.sum_eq_foldl] at h
  exact h.congr hfits

end Overflow
