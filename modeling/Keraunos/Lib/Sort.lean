import Mathlib.Data.List.Sort

/-!
# Sorting by a key

`SortsBy le key`: a Boolean comparison that orders elements by their key. A list is then sorted by
its insertion sort, and permuted lists have the same keys in the same places when sorted
(`SortsBy.map_key_eq`), however many elements share a key.
-/

/-- Any two elements compare, both ways exactly where their keys are equal. -/
structure SortsBy {α κ : Type} (le : α → α → Bool) (key : α → κ) : Prop where
  total : ∀ a b, le a b = true ∨ le b a = true
  trans : ∀ a b c, le a b = true → le b c = true → le a c = true
  key_iff : ∀ a b, key a = key b ↔ le a b = true ∧ le b a = true

namespace SortsBy

variable {α κ : Type} {le : α → α → Bool} {key : α → κ} {l l' : List α}

theorem pairwise (h : SortsBy le key) (l : List α) :
    (l.insertionSort fun a b => le a b).Pairwise fun a b => le a b = true :=
  have : Std.Total fun a b => le a b = true := ⟨h.total⟩
  have : IsTrans α fun a b => le a b = true := ⟨h.trans⟩
  List.pairwise_insertionSort _ l

/-- The order of the keys. -/
def KeyLe (le : α → α → Bool) (key : α → κ) (x y : κ) : Prop :=
  ∃ a b, key a = x ∧ key b = y ∧ le a b = true

theorem keyLe_antisymm (h : SortsBy le key) {x y : κ} (hxy : KeyLe le key x y)
    (hyx : KeyLe le key y x) : x = y := by
  obtain ⟨a, b, rfl, rfl, hab⟩ := hxy
  obtain ⟨c, d, hc, hd, hcd⟩ := hyx
  have hbc := ((h.key_iff b c).1 hc.symm).1
  have hda := ((h.key_iff d a).1 hd).1
  exact (h.key_iff a b).2 ⟨hab, h.trans b d a (h.trans b c d hbc hcd) hda⟩

theorem pairwise_key (h : SortsBy le key) (l : List α) :
    ((l.insertionSort fun a b => le a b).map key).Pairwise (KeyLe le key) :=
  List.pairwise_map.2 ((h.pairwise l).imp fun hab => ⟨_, _, rfl, rfl, hab⟩)

/-- Sorting forgets the order of the list, up to keys. -/
theorem map_key_eq (h : SortsBy le key) (hp : (l.map key).Perm (l'.map key)) :
    (l.insertionSort fun a b => le a b).map key = (l'.insertionSort fun a b => le a b).map key := by
  apply List.Perm.eq_of_pairwise (fun _ _ _ _ => h.keyLe_antisymm) (h.pairwise_key l)
    (h.pairwise_key l')
  exact ((List.perm_insertionSort _ l).map key).trans
    (hp.trans ((List.perm_insertionSort _ l').map key).symm)

end SortsBy
