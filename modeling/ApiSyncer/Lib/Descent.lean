/-
  ApiSyncer.Lib.Descent
  ─────────────────────
  **DESCENDING FROM A ROOT.**

  A relation from parents to children, over a set of vertices: a root is a
  vertex without a parent, and what can be reached from a root descends.  Where
  no vertex has two parents, taking vertices and parents away does not hide what
  is left: a vertex that has lost its parent is a root.

      Descends.shrink   fewer vertices and fewer parents
      Descends.grow     one more parent, for a vertex that is not a parent
      ranked_cycle      where ranks grow from parent to child, a cycle is a loop
-/
import Mathlib.Logic.Relation
import Mathlib.Order.Basic

namespace ApiSyncer.Lib

universe u v

variable {α : Type u}

/-- `c` is reached from a vertex that has no parent. -/
def Descends (V : α → Prop) (R : α → α → Prop) (c : α) : Prop :=
  ∃ r, V r ∧ (∀ p, ¬ R p r) ∧ Relation.ReflTransGen R r c

namespace Descends

variable {V V' : α → Prop} {R R' : α → α → Prop} {p c n : α}

theorem root (hc : V c) (hno : ∀ p, ¬ R p c) : Descends V R c := ⟨c, hc, hno, .refl⟩

theorem tail (h : Descends V R p) (hr : R p c) : Descends V R c := by
  obtain ⟨r, hr', hno, hpath⟩ := h
  exact ⟨r, hr', hno, hpath.tail hr⟩

/-- What descends is a vertex. -/
theorem mem (h : Descends V R c) (hchildren : ∀ p x, R p x → V x) : V c := by
  obtain ⟨r, hr, -, hpath⟩ := h
  rcases Relation.ReflTransGen.cases_tail hpath with rfl | ⟨p, -, hpc⟩
  · exact hr
  · exact hchildren p c hpc

/-- **What is left still descends.** -/
theorem shrink (h : Descends V R c) (hone : ∀ p q x, R p x → R q x → p = q)
    (hsub : ∀ p x, R' p x → R p x) (hparents : ∀ p x, R' p x → V' p) (hc : V' c) :
    Descends V' R' c := by
  obtain ⟨r, -, hno, hpath⟩ := h
  induction hpath with
  | refl => exact root hc fun p hp => hno p (hsub p r hp)
  | @tail b x _ hbx ih =>
      by_cases hkept : R' b x
      · exact (ih (hparents b x hkept)).tail hkept
      · -- the one parent it had is gone
        refine root hc fun p hp => hkept ?_
        rw [← hone p b x (hsub p x hp) hbx]
        exact hp

/-- **A new child hides nothing else.** -/
theorem grow (h : Descends V R c) (hV : ∀ x, V x → V' x) (hcn : c ≠ n) (hleaf : ∀ x, ¬ R n x)
    (hnew : ∀ q x, R' q x ↔ R q x ∨ q = p ∧ x = n) : Descends V' R' c := by
  obtain ⟨r, hr, hno, hpath⟩ := h
  have hrn : r ≠ n := by
    rintro rfl
    rcases Relation.ReflTransGen.cases_head hpath with heq | ⟨x, hx, -⟩
    · exact hcn heq.symm
    · exact hleaf x hx
  have hmono : ∀ q x, R q x → R' q x := fun q x hqx => (hnew q x).mpr (Or.inl hqx)
  refine ⟨r, hV r hr, fun q hq => ?_, Relation.ReflTransGen.mono hmono r c hpath⟩
  rcases (hnew q r).mp hq with hold | ⟨-, heq⟩
  · exact hno q hold
  · exact hrn heq

end Descends

section Ranked

variable {β : Type v} [Preorder β] {R : α → α → Prop} {rank : α → β} {a b : α}

/-- A path goes up, or stays at one vertex. -/
theorem ranked_path (hrank : ∀ p c, R p c → p ≠ c → rank p < rank c)
    (h : Relation.TransGen R a b) : rank a < rank b ∨ a = b ∧ R a a := by
  induction h with
  | @single b hr =>
      by_cases heq : a = b
      · subst heq
        exact Or.inr ⟨rfl, hr⟩
      · exact Or.inl (hrank a b hr heq)
  | @tail b c _ hr ih =>
      by_cases heq : b = c
      · subst heq
        exact ih
      · have hlt := hrank b c hr heq
        rcases ih with hless | ⟨rfl, -⟩
        · exact Or.inl (lt_trans hless hlt)
        · exact Or.inl hlt

/-- **Where ranks grow from parent to child, the only cycles are loops.** -/
theorem ranked_cycle (hrank : ∀ p c, R p c → p ≠ c → rank p < rank c)
    (h : Relation.TransGen R a a) : R a a := by
  rcases ranked_path hrank h with hless | ⟨-, hr⟩
  · exact absurd hless (lt_irrefl _)
  · exact hr

end Ranked

end ApiSyncer.Lib
