/-
  ApiSyncer.Lib.Paths
  ───────────────────
  **PATHS AND WHERE THEY LEAD.**

  A path is a text; its components stand between the separators.  Followed from a
  directory, a component leads up, stays, or enters what it names.  A path
  without a component that leads up stays below the directory it starts from.

      mem_components      where a component stands in the text
      components_append   a path behind a directory
      follow_prefix       no way up, no way out
-/
import Mathlib.Data.List.Infix

namespace ApiSyncer.Lib

universe u v

section Components

variable {α : Type u} [DecidableEq α] {sep : α} {text d pre rest : List α}

/-- What stands between the separators. -/
def components (sep : α) : List α → List (List α)
  | [] => [[]]
  | c :: rest =>
      if c = sep then [] :: components sep rest
      else
        match components sep rest with
        | [] => [[c]]
        | d :: ds => (c :: d) :: ds

/-- At the end, or in front of a separator. -/
def Ends (sep : α) (post : List α) : Prop := post = [] ∨ ∃ p, post = sep :: p

/-- The first component is where the text starts, and every other one is behind a
separator. -/
theorem components_eq_cons (sep : α) (text : List α) :
    ∃ d ds post, components sep text = d :: ds ∧ text = d ++ post ∧ Ends sep post
      ∧ ∀ e ∈ ds, ∃ pre post', text = pre ++ sep :: (e ++ post') ∧ Ends sep post' := by
  induction text with
  | nil => exact ⟨[], [], [], rfl, rfl, Or.inl rfl, fun e he => absurd he List.not_mem_nil⟩
  | cons c rest ih =>
      obtain ⟨d, ds, post, heq, htext, hends, hothers⟩ := ih
      by_cases hc : c = sep
      · subst hc
        refine ⟨[], d :: ds, c :: rest, ?_, rfl, Or.inr ⟨rest, rfl⟩, fun e he => ?_⟩
        · rw [components, if_pos rfl, heq]
        · rcases List.mem_cons.mp he with rfl | he
          · exact ⟨[], post, congrArg (c :: ·) htext, hends⟩
          · obtain ⟨pre, post', hrest, hpost'⟩ := hothers e he
            exact ⟨c :: pre, post', congrArg (c :: ·) hrest, hpost'⟩
      · refine ⟨c :: d, ds, post, ?_, congrArg (c :: ·) htext, hends, fun e he => ?_⟩
        · rw [components, if_neg hc, heq]
        · obtain ⟨pre, post', hrest, hpost'⟩ := hothers e he
          exact ⟨c :: pre, post', congrArg (c :: ·) hrest, hpost'⟩

/-- **A component starts behind a separator or at the start, and ends before one
or at the end.** -/
theorem mem_components (h : d ∈ components sep text) :
    ∃ pre post, text = pre ++ (d ++ post) ∧ (pre = [] ∨ ∃ p, pre = p ++ [sep]) ∧ Ends sep post := by
  obtain ⟨d₀, ds, post, heq, htext, hends, hothers⟩ := components_eq_cons sep text
  rw [heq] at h
  rcases List.mem_cons.mp h with rfl | h
  · exact ⟨[], post, htext, Or.inl rfl, hends⟩
  · obtain ⟨pre, post', hrest, hpost'⟩ := hothers d h
    exact ⟨pre ++ [sep], post', by rw [hrest]; simp, Or.inr ⟨pre, rfl⟩, hpost'⟩

/-- A path behind the name of a directory. -/
theorem components_append (h : sep ∉ pre) :
    components sep (pre ++ sep :: rest) = pre :: components sep rest := by
  induction pre with
  | nil => simp [components]
  | cons c pre ih =>
      have hc : c ≠ sep := fun heq => h (heq ▸ List.mem_cons_self)
      rw [List.cons_append, components, if_neg hc, ih fun hmem => h (List.mem_cons_of_mem _ hmem)]

end Components

section Follow

variable {ν : Type v} (up stay : ν → Bool) {names dir : List ν}

/-- Following the names from a directory, which is the list of the names down to
it. -/
def follow (dir : List ν) : List ν → List ν
  | [] => dir
  | n :: names =>
      if up n then follow dir.dropLast names
      else if stay n then follow dir names
      else follow (dir ++ [n]) names

/-- **Without a way up there is no way out.** -/
theorem follow_prefix (h : ∀ n ∈ names, up n = false) : dir <+: follow up stay dir names := by
  induction names generalizing dir with
  | nil => exact List.prefix_refl dir
  | cons n names ih =>
      obtain ⟨hn, hnames⟩ := List.forall_mem_cons.mp h
      unfold follow
      rw [hn, if_neg Bool.false_ne_true]
      split
      · exact ih hnames
      · exact (List.prefix_append dir [n]).trans (ih hnames)

end Follow

end ApiSyncer.Lib
