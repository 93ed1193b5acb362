/-
  ApiSyncer.Lib.SortedLookup
  ──────────────────────────
  **LOOKING A KEY UP IN A SORTED ARRANGEMENT.**

  Elements are sorted by a key, in some way that may order equal keys as it
  likes, and a key is looked up at its lower bound.  Whether something is found
  does not depend on the arrangement, and where the key is carried once, what is
  found does not either.

      lookup_isSome_iff   found exactly when some element carries the key
      lookup_eq_some      the one element that carries it
-/
import Mathlib.Data.List.Basic
import Mathlib.Order.Lattice

namespace ApiSyncer.Lib

universe u v

variable {α : Type u} {κ : Type v} [LinearOrder κ]

/-- A way to sort by a key. -/
structure Sorting (key : α → κ) where
  arrange : List α → List α
  perm : ∀ l, (arrange l).Perm l
  sorted : ∀ l, (arrange l).Pairwise fun a b => key a ≤ key b

/-- One that keeps the order of equal keys. -/
def Sorting.stable (key : α → κ) : Sorting key where
  arrange l := l.mergeSort fun a b => key a ≤ key b
  perm l := List.mergeSort_perm l _
  sorted l := by
    have htrans : ∀ a b c : α, decide (key a ≤ key b) = true → decide (key b ≤ key c) = true →
        decide (key a ≤ key c) = true := fun a b c hab hbc =>
      decide_eq_true (le_trans (of_decide_eq_true hab) (of_decide_eq_true hbc))
    have htotal : ∀ a b : α, (decide (key a ≤ key b) || decide (key b ≤ key a)) = true := by
      intro a b
      simpa using le_total (key a) (key b)
    exact (List.pairwise_mergeSort htrans htotal l).imp of_decide_eq_true

/-- The first element whose key is not less. -/
def lowerBound (key : α → κ) (k : κ) (l : List α) : Option α := l.find? fun a => k ≤ key a

/-- The element at the lower bound, if it carries the key. -/
def lookup (key : α → κ) (k : κ) (l : List α) : Option α :=
  (lowerBound key k l).filter fun a => key a = k

section Lookup

variable {key : α → κ} {k : κ} {l : List α} {a : α}

theorem mem_of_lookup (h : lookup key k l = some a) : a ∈ l ∧ key a = k := by
  obtain ⟨hbound, hkey⟩ := Option.filter_eq_some_iff.mp h
  exact ⟨List.mem_of_find?_eq_some hbound, by simpa using hkey⟩

/-- Where the list is sorted, the lower bound of a key carries it as soon as
some element does. -/
theorem lookup_isSome (hsorted : l.Pairwise fun a b => key a ≤ key b) (ha : a ∈ l) :
    (lookup key (key a) l).isSome = true := by
  induction l with
  | nil => cases ha
  | cons b l ih =>
      obtain ⟨hhead, htail⟩ := List.pairwise_cons.mp hsorted
      by_cases hle : key a ≤ key b
      · -- the head is the lower bound, and nothing after it is less
        have hge : key b ≤ key a := by
          rcases List.mem_cons.mp ha with rfl | ha
          · exact le_refl _
          · exact hhead a ha
        have heq : key b = key a := le_antisymm hge hle
        simp [lookup, lowerBound, heq]
      · have hmem : a ∈ l := by
          rcases List.mem_cons.mp ha with rfl | ha
          · exact absurd (le_refl _) hle
          · exact ha
        have hskip : lookup key (key a) (b :: l) = lookup key (key a) l := by
          simp [lookup, lowerBound, hle]
        rw [hskip]
        exact ih htail hmem

namespace Sorting

variable (S : Sorting key)

theorem mem_of_lookup (h : lookup key k (S.arrange l) = some a) : a ∈ l ∧ key a = k := by
  obtain ⟨hmem, hkey⟩ := Lib.mem_of_lookup h
  exact ⟨(S.perm l).mem_iff.mp hmem, hkey⟩

/-- **Something is found exactly when some element carries the key.** -/
theorem lookup_isSome_iff :
    (lookup key k (S.arrange l)).isSome = true ↔ ∃ a ∈ l, key a = k := by
  constructor
  · intro h
    obtain ⟨a, ha⟩ := Option.isSome_iff_exists.mp h
    obtain ⟨hmem, hkey⟩ := S.mem_of_lookup ha
    exact ⟨a, hmem, hkey⟩
  · rintro ⟨a, ha, rfl⟩
    exact lookup_isSome (S.sorted l) ((S.perm l).mem_iff.mpr ha)

/-- **A key that one element carries leads to that element**, in whatever way
the elements are sorted. -/
theorem lookup_eq_some (ha : a ∈ l) (hunique : ∀ b ∈ l, key b = key a → b = a) :
    lookup key (key a) (S.arrange l) = some a := by
  have hsome : (lookup key (key a) (S.arrange l)).isSome = true :=
    S.lookup_isSome_iff.mpr ⟨a, ha, rfl⟩
  obtain ⟨b, hb⟩ := Option.isSome_iff_exists.mp hsome
  obtain ⟨hmem, hkey⟩ := S.mem_of_lookup hb
  rw [hb, hunique b hmem hkey]

end Sorting

end Lookup

end ApiSyncer.Lib
