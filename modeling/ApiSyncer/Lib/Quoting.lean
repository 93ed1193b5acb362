/-
  ApiSyncer.Lib.Quoting
  ─────────────────────
  **QUOTED LITERALS WITH DOUBLED QUOTES AND ESCAPE SEQUENCES.**

  A literal runs up to its first quote that is neither doubled nor escaped.  A
  text that is pasted between two quotes without any encoding is read back as
  itself exactly when it is inert: it has no quote, and each escape element
  starts a sequence that stands for itself.

      read              the reader, on what follows the opening quote
      read_length       a literal is shorter than the text it takes
      read_append_iff   when a pasted text is read back
-/
import Mathlib.Data.List.Basic

namespace ApiSyncer.Lib

universe u

/-- A quote, an escape element, and what a sequence stands for, by its second
element: no more than itself, and a quote or another escape element never
stands for the whole sequence. -/
structure Quoting (α : Type u) where
  quote : α
  esc : α
  decode : α → List α
  quote_ne_esc : quote ≠ esc
  decode_length : ∀ c, (decode c).length ≤ 2
  decode_quote : decode quote ≠ [esc, quote]
  decode_esc : decode esc ≠ [esc, esc]

namespace Quoting

variable {α : Type u} {Q : Quoting α} {x c : α} {s l rest : List α}

section Reader

variable [DecidableEq α]

/-- Reads a literal after its opening quote: what it denotes, and the text
after the closing quote. -/
def read (Q : Quoting α) : List α → Option (List α × List α)
  | [] => none
  | [x] => if x = Q.quote then some ([], []) else none
  | x :: c :: l =>
      if x = Q.quote then
        -- two quotes are one, one quote is the end
        if c = Q.quote then (Q.read l).map fun r => (Q.quote :: r.1, r.2)
        else some ([], c :: l)
      else if x = Q.esc then (Q.read l).map fun r => (Q.decode c ++ r.1, r.2)
      else (Q.read (c :: l)).map fun r => (x :: r.1, r.2)

/-! ## §1. What a literal takes. -/

theorem read_doubled : Q.read (Q.quote :: Q.quote :: l)
    = (Q.read l).map fun r => (Q.quote :: r.1, r.2) := by
  simp [read]

theorem read_close (hrest : rest.head? ≠ some Q.quote) :
    Q.read (Q.quote :: rest) = some ([], rest) := by
  cases rest with
  | nil => simp [read]
  | cons c l =>
      have hc : c ≠ Q.quote := fun heq => hrest (by rw [heq]; rfl)
      simp [read, hc]

theorem read_esc : Q.read (Q.esc :: c :: l)
    = (Q.read l).map fun r => (Q.decode c ++ r.1, r.2) := by
  simp [read, Q.quote_ne_esc.symm]

theorem read_plain (hq : x ≠ Q.quote) (he : x ≠ Q.esc) : Q.read (x :: c :: l)
    = (Q.read (c :: l)).map fun r => (x :: r.1, r.2) := by
  simp [read, hq, he]

/-- **A literal and what is left over are shorter than the text.** -/
theorem read_length : ∀ {l t r : List α}, Q.read l = some (t, r) →
    t.length + r.length < l.length
  | [], _, _, h => by cases h
  | [x], t, r, h => by
      unfold read at h
      split at h
      · cases h
        simp
      · cases h
  | x :: c :: l, t, r, h => by
      unfold read at h
      split at h
      · split at h
        · obtain ⟨⟨t', r'⟩, hread, heq⟩ := Option.map_eq_some_iff.mp h
          cases heq
          have := read_length hread
          simp only [List.length_cons]
          omega
        · cases h
          simp
      · split at h
        · obtain ⟨⟨t', r'⟩, hread, heq⟩ := Option.map_eq_some_iff.mp h
          cases heq
          -- a sequence of two stands for two elements at most
          have := read_length hread
          have := Q.decode_length c
          simp only [List.length_cons, List.length_append]
          omega
        · obtain ⟨⟨t', r'⟩, hread, heq⟩ := Option.map_eq_some_iff.mp h
          cases heq
          have := read_length hread
          simp only [List.length_cons] at this ⊢
          omega

end Reader

/-! ## §2. Inert texts. -/

/-- No quote, and each escape element starts a sequence that stands for
itself. -/
structure Inert (Q : Quoting α) (s : List α) : Prop where
  quote : Q.quote ∉ s
  esc : ∀ pre post, s = pre ++ Q.esc :: post →
    ∃ c rest, post = c :: rest ∧ Q.decode c = [Q.esc, c]

theorem inert_nil : Q.Inert [] where
  quote := List.not_mem_nil
  esc pre post h := by simp at h

theorem not_inert_quote {s : List α} : ¬ Q.Inert (Q.quote :: s) :=
  fun h => h.quote List.mem_cons_self

/-- A text that starts with an ordinary element. -/
theorem inert_cons_iff (hq : x ≠ Q.quote) (he : x ≠ Q.esc) : Q.Inert (x :: s) ↔ Q.Inert s := by
  constructor
  · intro h
    refine ⟨fun hmem => h.quote (List.mem_cons_of_mem _ hmem), fun pre post heq => ?_⟩
    exact h.esc (x :: pre) post (by rw [heq]; rfl)
  · intro h
    refine ⟨fun hmem => ?_, fun pre post heq => ?_⟩
    · rcases List.mem_cons.mp hmem with heq | hmem
      · exact hq heq.symm
      · exact h.quote hmem
    · cases pre with
      | nil => exact absurd (List.cons.inj heq).1 he
      | cons y pre => exact h.esc pre post (List.cons.inj heq).2

/-- A text that starts with a sequence. -/
theorem inert_esc_iff : Q.Inert (Q.esc :: c :: s) ↔ Q.decode c = [Q.esc, c] ∧ Q.Inert s := by
  constructor
  · intro h
    obtain ⟨d, tail, heq, hd⟩ := h.esc [] (c :: s) rfl
    obtain ⟨rfl, rfl⟩ := List.cons.inj heq
    refine ⟨hd, fun hmem => h.quote ?_, fun pre post heq => ?_⟩
    · exact List.mem_cons_of_mem _ (List.mem_cons_of_mem _ hmem)
    · exact h.esc (Q.esc :: c :: pre) post (by rw [heq]; rfl)
  · intro h
    obtain ⟨hc, hs⟩ := h
    -- the second element is neither special, so it starts nothing
    have hcq : c ≠ Q.quote := fun heq => Q.decode_quote (heq ▸ hc)
    have hce : c ≠ Q.esc := fun heq => Q.decode_esc (heq ▸ hc)
    have hcs : Q.Inert (c :: s) := (inert_cons_iff hcq hce).mpr hs
    refine ⟨fun hmem => ?_, fun pre post heq => ?_⟩
    · rcases List.mem_cons.mp hmem with heq | hmem
      · exact Q.quote_ne_esc heq
      · exact hcs.quote hmem
    · cases pre with
      | nil => exact ⟨c, s, (List.cons.inj heq).2.symm, hc⟩
      | cons y pre => exact hcs.esc pre post (List.cons.inj heq).2

theorem not_inert_esc_end : ¬ Q.Inert [Q.esc] := by
  intro h
  obtain ⟨c, tail, heq, -⟩ := h.esc [] [] rfl
  cases heq

/-! ## §3. Pasting. -/

section Pasting

variable [DecidableEq α]

/-- A text that starts with a quote is not read back: the literal ends there,
or is too short. -/
theorem read_quote_cons (s rest : List α) :
    Q.read (Q.quote :: s ++ Q.quote :: rest) ≠ some (Q.quote :: s, rest) := by
  intro h
  cases s with
  | nil =>
      rw [List.singleton_append, read_doubled] at h
      obtain ⟨⟨t, r⟩, hread, heq⟩ := Option.map_eq_some_iff.mp h
      obtain rfl : r = rest := (Prod.mk.inj heq).2
      have := read_length hread
      omega
  | cons c s =>
      by_cases hc : c = Q.quote
      · subst hc
        rw [List.cons_append, List.cons_append, read_doubled] at h
        obtain ⟨⟨t, r⟩, hread, heq⟩ := Option.map_eq_some_iff.mp h
        obtain ⟨ht, rfl⟩ := Prod.mk.inj heq
        obtain ⟨-, rfl⟩ := List.cons.inj ht
        have := read_length hread
        simp only [List.length_cons, List.length_append] at this
        omega
      · rw [List.cons_append, read_close (by simpa using hc)] at h
        cases h

/-- An escape element at the end escapes the closing quote. -/
theorem read_esc_end (rest : List α) :
    Q.read ([Q.esc] ++ Q.quote :: rest) ≠ some ([Q.esc], rest) := by
  intro h
  rw [List.singleton_append, read_esc] at h
  obtain ⟨⟨t, r⟩, hread, heq⟩ := Option.map_eq_some_iff.mp h
  obtain rfl : r = rest := (Prod.mk.inj heq).2
  have := read_length hread
  omega

/-- A sequence is read back when it stands for itself, by length. -/
theorem read_esc_cons (s rest : List α) :
    Q.read (Q.esc :: c :: s ++ Q.quote :: rest) = some (Q.esc :: c :: s, rest)
      ↔ Q.decode c = [Q.esc, c] ∧ Q.read (s ++ Q.quote :: rest) = some (s, rest) := by
  rw [List.cons_append, List.cons_append, read_esc]
  constructor
  · intro h
    obtain ⟨⟨t, r⟩, hread, heq⟩ := Option.map_eq_some_iff.mp h
    obtain ⟨ht, rfl⟩ := Prod.mk.inj heq
    have hread' := read_length hread
    have hdec := Q.decode_length c
    have hlen := congrArg List.length ht
    simp only [List.length_cons, List.length_append] at hread' hlen
    have htwo : (Q.decode c).length = [Q.esc, c].length := by
      simp only [List.length_cons, List.length_nil]
      omega
    obtain ⟨hd, rfl⟩ := List.append_inj (show Q.decode c ++ t = [Q.esc, c] ++ s from ht) htwo
    exact ⟨hd, hread⟩
  · intro h
    obtain ⟨hd, hread⟩ := h
    rw [hread, Option.map_some, hd]
    rfl

theorem read_plain_cons (hq : x ≠ Q.quote) (he : x ≠ Q.esc) (s rest : List α) :
    Q.read (x :: s ++ Q.quote :: rest) = some (x :: s, rest)
      ↔ Q.read (s ++ Q.quote :: rest) = some (s, rest) := by
  have hcons : ∃ c l, s ++ Q.quote :: rest = c :: l := by
    cases s with
    | nil => exact ⟨_, _, rfl⟩
    | cons c s => exact ⟨_, _, rfl⟩
  obtain ⟨c, l, hcl⟩ := hcons
  rw [List.cons_append, hcl, read_plain hq he, Option.map_eq_some_iff]
  constructor
  · intro h
    obtain ⟨⟨t, r⟩, hread, heq⟩ := h
    obtain ⟨ht, rfl⟩ := Prod.mk.inj heq
    obtain ⟨-, rfl⟩ := List.cons.inj ht
    exact hread
  · intro h
    exact ⟨_, h, rfl⟩

/-- **A pasted text is read back as itself if and only if it is inert**, where
the text after it does not start with a quote. -/
theorem read_append_iff (hrest : rest.head? ≠ some Q.quote) :
    ∀ s : List α, Q.read (s ++ Q.quote :: rest) = some (s, rest) ↔ Q.Inert s
  | [] => iff_of_true (read_close hrest) inert_nil
  | x :: s => by
      by_cases hq : x = Q.quote
      · subst hq
        exact iff_of_false (read_quote_cons s rest) not_inert_quote
      by_cases he : x = Q.esc
      · subst he
        cases s with
        | nil => exact iff_of_false (read_esc_end rest) not_inert_esc_end
        | cons c s => rw [read_esc_cons, inert_esc_iff, read_append_iff hrest s]
      · rw [read_plain_cons hq he, inert_cons_iff hq he, read_append_iff hrest s]

end Pasting

end Quoting

end ApiSyncer.Lib
