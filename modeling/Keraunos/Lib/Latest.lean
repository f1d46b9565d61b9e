import Mathlib.Order.Lattice
import Mathlib.Data.Option.Basic
import Mathlib.Data.List.Basic

/-!
# Registers that keep the latest value

A register takes a value if the stamp of the value is above the stamp of what it holds. After any
writes it holds one of the greatest stamp (`latest_foldl`), so where stamps tell values apart the
result depends on which values were written, and not on their order or number (`Latest.unique`).
-/

section
variable {α κ : Type} [LinearOrder κ] (stamp : α → κ)

/-- Write a value to a register. -/
def writeLatest (o : Option α) (a : α) : Option α :=
  if o.any fun b => stamp a ≤ stamp b then o else some a

/-- What a register with `o` holds after these values: what it held, if that is as late as all of
them, or else a latest one of them. -/
inductive Latest (o : Option α) (values : List α) : Option α → Prop
  | held : (∀ a ∈ values, ∃ b ∈ o, stamp a ≤ stamp b) → Latest o values o
  | written {a : α} : a ∈ values → (∀ b ∈ o, stamp b < stamp a) →
      (∀ a' ∈ values, stamp a' ≤ stamp a) → Latest o values (some a)

variable {stamp} {o : Option α} {values : List α}

variable (stamp) in
/-- A write keeps what is as late, and is no earlier than what was there. -/
theorem writeLatest_cases (o : Option α) (a : α) :
    (∃ b ∈ o, stamp a ≤ stamp b ∧ writeLatest stamp o a = o) ∨
      (∀ b ∈ o, stamp b < stamp a) ∧ writeLatest stamp o a = some a := by
  unfold writeLatest
  cases o with
  | none => exact .inr ⟨fun _ => nofun, rfl⟩
  | some b =>
    by_cases h : stamp a ≤ stamp b
    · exact .inl ⟨b, rfl, h, if_pos (decide_eq_true h)⟩
    · refine .inr ⟨fun b' hb' => ?_, if_neg fun h' => h (of_decide_eq_true h')⟩
      obtain rfl := Option.some.inj hb'
      exact lt_of_not_ge h

/-- No write makes the register earlier. -/
theorem le_writeLatest {b : α} (a : α) (hb : b ∈ o) :
    ∃ b' ∈ writeLatest stamp o a, stamp b ≤ stamp b' := by
  rcases writeLatest_cases stamp o a with ⟨b', hb', hle, heq⟩ | ⟨hlt, heq⟩
  · rw [heq]
    exact ⟨b, hb, le_rfl⟩
  · rw [heq]
    exact ⟨a, rfl, (hlt b hb).le⟩

theorem latest_foldl (o : Option α) (values : List α) :
    Latest stamp o values (values.foldl (writeLatest stamp) o) := by
  induction values generalizing o with
  | nil => exact .held fun _ => nofun
  | cons a values ih =>
    rw [List.foldl_cons]
    rcases writeLatest_cases stamp o a with ⟨b, hb, hle, heq⟩ | ⟨hlt, heq⟩
    · have hrest := ih o
      rw [heq]
      generalize values.foldl (writeLatest stamp) o = r at hrest ⊢
      cases hrest with
      | held hall => exact .held (List.forall_mem_cons.2 ⟨⟨b, hb, hle⟩, hall⟩)
      | written hmem hnew hall =>
        exact .written (List.mem_cons_of_mem _ hmem) hnew
          (List.forall_mem_cons.2 ⟨hle.trans (hnew b hb).le, hall⟩)
    · have hrest := ih (some a)
      rw [heq]
      generalize values.foldl (writeLatest stamp) (some a) = r at hrest ⊢
      cases hrest with
      | held hall =>
        refine .written List.mem_cons_self hlt (List.forall_mem_cons.2 ⟨le_rfl, fun a' ha' => ?_⟩)
        obtain ⟨b, hb, hle⟩ := hall a' ha'
        exact Option.some.inj hb ▸ hle
      | written hmem hnew hall =>
        have hfirst := (hnew a rfl).le
        exact .written (List.mem_cons_of_mem _ hmem) (fun b hb => (hlt b hb).trans (hnew a rfl))
          (List.forall_mem_cons.2 ⟨hfirst, hall⟩)

/-- Only the values count, not their order or number. -/
theorem Latest.congr {values' : List α} {r : Option α} (h : Latest stamp o values r)
    (hsame : ∀ a, a ∈ values ↔ a ∈ values') : Latest stamp o values' r := by
  cases h with
  | held hall => exact .held fun a ha => hall a ((hsame a).2 ha)
  | written hmem hnew hall =>
    exact .written ((hsame _).1 hmem) hnew fun a ha => hall a ((hsame a).2 ha)

/-- Where stamps tell the values apart, there is one latest. -/
theorem Latest.unique (hinj : ∀ a ∈ values, ∀ a' ∈ values, stamp a = stamp a' → a = a')
    {r r' : Option α} (h : Latest stamp o values r) (h' : Latest stamp o values r') : r = r' := by
  cases h with
  | held hall =>
    cases h' with
    | held => rfl
    | written hmem hnew _ =>
      obtain ⟨b, hb, hle⟩ := hall _ hmem
      exact absurd (hnew b hb) (not_lt_of_ge hle)
  | written hmem hnew hall =>
    cases h' with
    | held hall' =>
      obtain ⟨b, hb, hle⟩ := hall' _ hmem
      exact absurd (hnew b hb) (not_lt_of_ge hle)
    | written hmem' _ hall' =>
      rw [hinj _ hmem _ hmem' (le_antisymm (hall' _ hmem) (hall _ hmem'))]

end
