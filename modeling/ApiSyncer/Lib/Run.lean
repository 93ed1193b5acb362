/-
  ApiSyncer.Lib.Run
  ─────────────────
  **RECORDED RUNS OF A TRANSITION SYSTEM.**

  A run is a list of steps, each with the state before it, the action, the
  answer and the state after it.  Recording the steps is what lets a property
  speak about the history ("the call that inserted this row"), about every
  intermediate state, and about every step's own inputs.

      Run.invariant            one step lemma gives a fact of every state reached
      Run.history              the same for a fact about the state AND its history
      Run.guarded              a run whose steps all meet a guard
      Run.history_of_guard     the history rule for such runs
      Run.steps_of_guard       a fact of every step of such a run
      Run.forall_after_iff     a guard that is exact for one step is exact for runs
      Run.simulate             a step-by-step simulation simulates runs
      Run.refine               a refinement of steps by runs gives one of runs
-/
import Mathlib.Data.List.Forall2

namespace ApiSyncer.Lib

universe u v w

/-- One recorded step of a run. -/
structure Step (S : Type u) (A : Type v) (R : Type w) where
  before : S
  action : A
  result : R
  after : S

/-- `Run step s₀ steps s`: from `s₀` the recorded `steps` lead to `s`. -/
inductive Run {S : Type u} {A : Type v} {R : Type w} (step : A → S → R → S → Prop)
    (s₀ : S) : List (Step S A R) → S → Prop where
  | nil : Run step s₀ [] s₀
  | snoc {steps : List (Step S A R)} {s : S} {a : A} {r : R} {s' : S} :
      Run step s₀ steps s → step a s r s' →
      Run step s₀ (steps ++ [⟨s, a, r, s'⟩]) s'

variable {S : Type u} {A : Type v} {R : Type w} {step : A → S → R → S → Prop}
  {s₀ s : S} {steps : List (Step S A R)}

namespace Run

/-! ## §1. Induction over runs. -/

/-- **The history rule**: a fact about the history and the state, carried
through every step, holds of every run. -/
theorem history {I : List (Step S A R) → S → Prop} (h₀ : I [] s₀)
    (hstep : ∀ steps s a r s', I steps s → step a s r s' →
      I (steps ++ [⟨s, a, r, s'⟩]) s')
    (h : Run step s₀ steps s) : I steps s := by
  induction h with
  | nil => exact h₀
  | snoc _ hs ih => exact hstep _ _ _ _ _ ih hs

/-- **The invariant rule**: what one step preserves, a whole run preserves. -/
theorem invariant {I : S → Prop} (h₀ : I s₀)
    (hstep : ∀ s a r s', I s → step a s r s' → I s')
    (h : Run step s₀ steps s) : I s :=
  history (I := fun _ s => I s) h₀ (fun _ s a r s' => hstep s a r s') h

/-- A run whose steps all meet `G` is a run of the steps that meet `G`. -/
theorem guarded {G : A → S → Prop} (h : Run step s₀ steps s)
    (hG : ∀ st ∈ steps, G st.action st.before) :
    Run (fun a s r s' => step a s r s' ∧ G a s) s₀ steps s := by
  induction h with
  | nil => exact .nil
  | snoc _ hs ih =>
      have hlast := hG _ (List.mem_append_right _ (List.mem_singleton_self _))
      exact .snoc (ih fun st hst => hG st (List.mem_append_left _ hst)) ⟨hs, hlast⟩

/-- **The guarded history rule**, for runs whose steps all meet `G`. -/
theorem history_of_guard {I : List (Step S A R) → S → Prop} {G : A → S → Prop} (h₀ : I [] s₀)
    (hstep : ∀ steps s a r s', I steps s → G a s → step a s r s' →
      I (steps ++ [⟨s, a, r, s'⟩]) s')
    (h : Run step s₀ steps s) (hG : ∀ st ∈ steps, G st.action st.before) : I steps s :=
  (h.guarded hG).history h₀ fun steps s a r s' hI hs => hstep steps s a r s' hI hs.2 hs.1

/-- **The step rule**: what every guarded step from an `I`-state satisfies, every
step of a guarded run satisfies. -/
theorem steps_of_guard {I : S → Prop} {G : A → S → Prop} {Q : Step S A R → Prop} (h₀ : I s₀)
    (hstep : ∀ s a r s', I s → G a s → step a s r s' → I s' ∧ Q ⟨s, a, r, s'⟩)
    (h : Run step s₀ steps s) (hG : ∀ st ∈ steps, G st.action st.before) :
    I s ∧ ∀ st ∈ steps, Q st := by
  refine h.history_of_guard (I := fun steps s => I s ∧ ∀ st ∈ steps, Q st) ⟨h₀, by simp⟩ ?_ hG
  intro steps s a r s' hI hg hs
  obtain ⟨hprev, hsteps⟩ := hI
  obtain ⟨hnext, hq⟩ := hstep s a r s' hprev hg hs
  refine ⟨hnext, fun st hst => ?_⟩
  rcases List.mem_append.mp hst with hold | hnew
  · exact hsteps st hold
  · rw [List.mem_singleton.mp hnew]
    exact hq

/-! ## §2. Exact conditions. -/

/-- **The exact-condition rule.**  Let `I` be preserved by the steps that meet
`G`, and let `P` hold right after a step from an `I`-state exactly when that
step meets `G`.  Then `P` holds after every step of a run exactly when every
step of it meets `G`. -/
theorem forall_after_iff {I P : S → Prop} {G : A → S → Prop} (h₀ : I s₀)
    (hstep : ∀ s a r s', I s → step a s r s' → (P s' ↔ G a s) ∧ (G a s → I s'))
    (h : Run step s₀ steps s) :
    (∀ st ∈ steps, P st.after) ↔ ∀ st ∈ steps, G st.action st.before := by
  suffices key : ((∀ st ∈ steps, P st.after) ↔ ∀ st ∈ steps, G st.action st.before)
      ∧ ((∀ st ∈ steps, G st.action st.before) → I s) from key.1
  induction h with
  | nil => simp [h₀]
  | snoc _ hs ih =>
      obtain ⟨ihiff, ihI⟩ := ih
      simp only [List.forall_mem_append, List.forall_mem_singleton]
      constructor
      · constructor
        · rintro ⟨hprev, hlast⟩
          have hG := ihiff.mp hprev
          exact ⟨hG, (hstep _ _ _ _ (ihI hG) hs).1.mp hlast⟩
        · rintro ⟨hG, hlast⟩
          exact ⟨ihiff.mpr hG, (hstep _ _ _ _ (ihI hG) hs).1.mpr hlast⟩
      · rintro ⟨hG, hlast⟩
        exact (hstep _ _ _ _ (ihI hG) hs).2 hlast

/-! ## §3. Simulation. -/

/-- A step of one system and the step of another that it is matched with. -/
structure Matches {T : Type u} (R' : S → T → Prop) (st : Step S A R) (st' : Step T A R) :
    Prop where
  action : st'.action = st.action
  result : st'.result = st.result
  before : R' st.before st'.before
  after : R' st.after st'.after

/-- **The simulation rule**: where every step from related states is matched by a
step to related states, every run is matched by a run. -/
theorem simulate {T : Type u} {step' : A → T → R → T → Prop} {R' : S → T → Prop} {t₀ : T}
    (hstep : ∀ s a r s' t, R' s t → step a s r s' → ∃ t', step' a t r t' ∧ R' s' t')
    (h₀ : R' s₀ t₀) (h : Run step s₀ steps s) :
    ∃ steps' t, Run step' t₀ steps' t ∧ List.Forall₂ (Matches R') steps steps' ∧ R' s t := by
  induction h with
  | nil => exact ⟨[], t₀, .nil, .nil, h₀⟩
  | snoc _ hs ih =>
      obtain ⟨steps', t, hrun, hall, hrel⟩ := ih
      obtain ⟨t', hs', hrel'⟩ := hstep _ _ _ _ _ hrel hs
      exact ⟨_, t', hrun.snoc hs', List.rel_append hall (.cons ⟨rfl, rfl, hrel, hrel'⟩ .nil), hrel'⟩

/-- One run after the other. -/
theorem append {steps' : List (Step S A R)} {s' : S} (h : Run step s₀ steps s)
    (h' : Run step s steps' s') : Run step s₀ (steps ++ steps') s' := by
  induction h' with
  | nil => rwa [List.append_nil]
  | snoc _ hs ih =>
      rw [← List.append_assoc]
      exact ih.snoc hs

/-- **The refinement rule**: where every step is a run of another system on the
same states, every run is one. -/
theorem refine {B : Type v} {Q : Type w} {step' : B → S → Q → S → Prop}
    {effect : A → List B → Prop}
    (hstep : ∀ s a r s', step a s r s' →
      ∃ steps', effect a (steps'.map Step.action) ∧ Run step' s steps' s')
    (h : Run step s₀ steps s) :
    ∃ effects steps', List.Forall₂ effect (steps.map Step.action) effects
      ∧ steps'.map Step.action = effects.flatten ∧ Run step' s₀ steps' s := by
  induction h with
  | nil => exact ⟨[], [], .nil, rfl, .nil⟩
  | snoc _ hs ih =>
      obtain ⟨effects, steps', hall, heq, hrun⟩ := ih
      obtain ⟨last, heffect, hlast⟩ := hstep _ _ _ _ hs
      refine ⟨effects ++ [last.map Step.action], steps' ++ last, ?_, ?_, hrun.append hlast⟩
      · rw [List.map_append]
        exact List.rel_append hall (.cons heffect .nil)
      · rw [List.map_append, heq, List.flatten_append, List.flatten_singleton]

end Run

end ApiSyncer.Lib
