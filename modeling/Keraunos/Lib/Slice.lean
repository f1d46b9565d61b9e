import Keraunos.Lib.Act
import Mathlib.Algebra.GroupWithZero.Nat

/-!
# Slices and indices that can panic

A slice of a list out of its bounds is a panic, and so are a missing element and a difference below
zero. A string is the list of its characters; its slices are taken at byte offsets of its UTF-8
encoding, and an offset inside of a character is a panic too (`Str.split`).
-/

theorem List.mapM_congr_left {ε α β : Type} {f g : α → Except ε β} {l : List α} (h : ∀ a ∈ l, f a = g a) :
    l.mapM f = l.mapM g := by
  induction l with
  | nil => rfl
  | cons a l ih =>
    rw [List.mapM_cons, List.mapM_cons, h a List.mem_cons_self,
      ih fun b hb => h b (List.mem_cons_of_mem _ hb)]

/-- A loop that collects its results panics in one of its passes. -/
theorem Fault.mapM_ne_panic {ε α β : Type} {f : α → Except (Fault ε) β} {l : List α}
    (h : ∀ a ∈ l, f a ≠ .error .panic) : l.mapM f ≠ .error .panic := by
  induction l with
  | nil => nofun
  | cons a l ih =>
    rw [List.mapM_cons]
    refine bind_ne_panic (h a List.mem_cons_self) fun _ _ => ?_
    exact bind_ne_panic (ih fun b hb => h b (List.mem_cons_of_mem _ hb)) fun _ _ => nofun

namespace Slice

variable {ε α β : Type}

/-- `xs[i]`. -/
def index (xs : List α) (i : Nat) : Except (Fault ε) α := Fault.expect xs[i]?

/-- `&xs[..n]`. -/
def upTo (xs : List α) (n : Nat) : Except (Fault ε) (List α) :=
  if n ≤ xs.length then .ok (xs.take n) else .error .panic

/-- `&xs[n..]`. -/
def since (xs : List α) (n : Nat) : Except (Fault ε) (List α) :=
  if n ≤ xs.length then .ok (xs.drop n) else .error .panic

/-- `&xs[a..b]`. -/
def between (xs : List α) (a b : Nat) : Except (Fault ε) (List α) :=
  if a ≤ b ∧ b ≤ xs.length then .ok ((xs.take b).drop a) else .error .panic

/-- `a - b`. -/
def minus (a b : Nat) : Except (Fault ε) Nat := if b ≤ a then .ok (a - b) else .error .panic

/-- `try_into` an array of `n` elements, and `expect` it. -/
def array (n : Nat) (xs : List α) : Except (Fault ε) (List α) :=
  if xs.length = n then .ok xs else .error .panic

/-- What is in range goes on. -/
theorem ok_bind (a : α) (f : α → Except (Fault ε) β) : (Except.ok a >>= f) = f a := rfl

theorem index_of {xs : List α} {i : Nat} {a : α} (h : xs[i]? = some a) :
    (index xs i : Except (Fault ε) α) = .ok a := by
  rw [index, h]
  rfl

theorem upTo_of_le {xs : List α} {n : Nat} (h : n ≤ xs.length) :
    (upTo xs n : Except (Fault ε) (List α)) = .ok (xs.take n) := if_pos h

theorem since_of_le {xs : List α} {n : Nat} (h : n ≤ xs.length) :
    (since xs n : Except (Fault ε) (List α)) = .ok (xs.drop n) := if_pos h

theorem between_of_le {xs : List α} {a b : Nat} (hab : a ≤ b) (h : b ≤ xs.length) :
    (between xs a b : Except (Fault ε) (List α)) = .ok ((xs.take b).drop a) := if_pos ⟨hab, h⟩

theorem minus_of_le {a b : Nat} (h : b ≤ a) : (minus a b : Except (Fault ε) Nat) = .ok (a - b) :=
  if_pos h

theorem array_of_length {n : Nat} {xs : List α} (h : xs.length = n) :
    (array n xs : Except (Fault ε) (List α)) = .ok xs := if_pos h

theorem since_eq_ok {xs rest : List α} {n : Nat}
    (h : (since xs n : Except (Fault ε) (List α)) = .ok rest) :
    n ≤ xs.length ∧ rest = xs.drop n := by
  unfold since at h
  split at h
  · next hle => exact ⟨hle, (Except.ok.inj h).symm⟩
  · cases h

end Slice

namespace Str

variable {ε : Type}

/-- The length of a string in bytes. -/
def size (s : List Char) : Nat := (s.map Char.utf8Size).sum

/-- Split a string at a byte offset. -/
def split : List Char → Nat → Option (List Char × List Char)
  | s, 0 => some ([], s)
  | [], _ + 1 => none
  | c :: s, n + 1 =>
    if c.utf8Size ≤ n + 1 then
      (split s (n + 1 - c.utf8Size)).map fun halves => (c :: halves.1, halves.2)
    else none

/-- `&s[..n]`. -/
def upTo (s : List Char) (n : Nat) : Except (Fault ε) (List Char) :=
  Fault.expect ((split s n).map Prod.fst)

/-- `&s[n..]`. -/
def since (s : List Char) (n : Nat) : Except (Fault ε) (List Char) :=
  Fault.expect ((split s n).map Prod.snd)

/-- `s.rfind(c)`: the byte offset of the last occurrence. -/
def rfind (c : Char) : List Char → Option Nat
  | [] => none
  | x :: s =>
    match rfind c s with
    | some i => some (x.utf8Size + i)
    | none => if x = c then some 0 else none

theorem size_cons (c : Char) (s : List Char) : size (c :: s) = c.utf8Size + size s := rfl

theorem size_append (a b : List Char) : size (a ++ b) = size a + size b := by
  rw [size, List.map_append, List.sum_append]
  rfl

theorem size_eq_zero {s : List Char} : size s = 0 ↔ s = [] := by
  cases s with
  | nil => exact ⟨fun _ => rfl, fun _ => rfl⟩
  | cons c s =>
    have hpos := c.utf8Size_pos
    rw [size_cons]
    exact ⟨fun h => by omega, nofun⟩

/-- A string splits where one part ends. -/
theorem split_append (a b : List Char) : split (a ++ b) (size a) = some (a, b) := by
  induction a with
  | nil =>
    show split b 0 = _
    unfold split
    rfl
  | cons c a ih =>
    have hpos := c.utf8Size_pos
    obtain ⟨n, hn⟩ : ∃ n, size (c :: a) = n + 1 := ⟨size (c :: a) - 1, by rw [size_cons]; omega⟩
    have hrest : n + 1 - c.utf8Size = size a := by
      rw [← hn, size_cons]
      omega
    have hle : c.utf8Size ≤ n + 1 := by
      rw [← hn, size_cons]
      omega
    rw [List.cons_append, hn, split, if_pos hle, hrest, ih]
    rfl

theorem upTo_append (a b : List Char) : (upTo (a ++ b) (size a) : Except (Fault ε) (List Char)) = .ok a := by
  rw [upTo, split_append]
  rfl

theorem since_append (a b : List Char) :
    (since (a ++ b) (size a) : Except (Fault ε) (List Char)) = .ok b := by
  rw [since, split_append]
  rfl

theorem rfind_eq_none {c : Char} {s : List Char} : rfind c s = none ↔ c ∉ s := by
  induction s with
  | nil => exact ⟨fun _ => List.not_mem_nil, fun _ => rfl⟩
  | cons x s ih =>
    unfold rfind
    cases hs : rfind c s with
    | some i =>
      have hmem : c ∈ s := by
        by_contra h
        rw [ih.2 h] at hs
        cases hs
      simp [hmem]
    | none =>
      have hmem := ih.1 hs
      by_cases hx : x = c
      · simp [hx]
      · simp [hx, hmem, Ne.symm hx]

/-- The last occurrence is where none follows. -/
theorem rfind_append {c : Char} (a : List Char) {b : List Char} (h : c ∉ b) :
    rfind c (a ++ c :: b) = some (size a) := by
  induction a with
  | nil =>
    rw [List.nil_append, rfind, rfind_eq_none.2 h]
    exact if_pos rfl
  | cons x a ih =>
    rw [List.cons_append, rfind, ih]
    rfl

end Str
