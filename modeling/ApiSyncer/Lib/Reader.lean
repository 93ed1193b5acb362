/-
  ApiSyncer.Lib.Reader
  ────────────────────
  **READERS, AND BRACKETED LISTS OF ITEMS.**

  A reader takes a value off the front of a text.  What it reads is compared
  with a relation between values and texts: a sound reader takes a text of its
  value and nothing else, a complete one takes every text that is followed by
  something that ends it.  Items between brackets, with separators and blanks,
  are read soundly and completely as soon as the single item is.

      readItems_sound          what has been read is a list of items
      readItems_complete       every list of items is read
      readBracketed_sound      a list with its brackets
      readBracketed_complete
      readBracketed_enough     fuel for the length of the text is enough
-/
import Mathlib.Data.List.Forall2
import Mathlib.Data.List.TakeWhile

namespace ApiSyncer.Lib

universe u v

/-! ## §1. Readers. -/

/-- Why nothing was read: the text is not of the form, or the fuel is used up. -/
inductive ReadError where
  | malformed
  | outOfFuel
  deriving DecidableEq, Repr

/-- What is read, and the text after it. -/
abbrev Reader (σ : Type u) (α : Type v) := List σ → Except ReadError (α × List σ)

variable {σ : Type u} {α : Type v}

theorem map_eq_ok {ε : Type u} {β γ : Type v} {x : Except ε β} {f : β → γ} {b : γ} :
    x.map f = .ok b ↔ ∃ a, x = .ok a ∧ f a = b := by
  cases x with
  | error e => simp [Except.map]
  | ok a => simp [Except.map]

namespace Reader

/-- What is taken off the text is a text of the value. -/
def Sound (r : Reader σ α) (P : α → List σ → Prop) : Prop :=
  ∀ ⦃text a rest⦄, r text = .ok (a, rest) → ∃ t, text = t ++ rest ∧ P a t

/-- Texts shorter than the bound are taken off, where `Ends` follows. -/
def Complete (r : Reader σ α) (P : α → List σ → Prop) (bound : ℕ) (Ends : List σ → Prop) :
    Prop :=
  ∀ ⦃a t rest⦄, P a t → t.length < bound → Ends rest → r (t ++ rest) = .ok (a, rest)

/-- Texts shorter than the bound do not use up the fuel. -/
def Enough (r : Reader σ α) (bound : ℕ) : Prop :=
  ∀ ⦃text⦄, text.length < bound → r text ≠ .error .outOfFuel

/-- Reading takes something off the text. -/
def Shrinks (r : Reader σ α) : Prop :=
  ∀ ⦃text a rest⦄, r text = .ok (a, rest) → rest.length < text.length

theorem Sound.shrinks {r : Reader σ α} {P : α → List σ → Prop} (hs : r.Sound P)
    (hne : ∀ a t, P a t → t ≠ []) : r.Shrinks := by
  intro text a rest h
  obtain ⟨t, rfl, ht⟩ := hs h
  have hpos : 0 < t.length := List.length_pos_iff.mpr (hne a t ht)
  rw [List.length_append]
  omega

end Reader

/-! ## §2. Layout. -/

/-- The blanks that may stand between items, and what separates the items. -/
structure Layout (σ : Type u) where
  blank : σ → Bool
  sep : σ
  sep_visible : blank sep = false

namespace Layout

variable {L : Layout σ} {P : α → List σ → Prop} {close opening : σ} {t u w text rest : List σ}
  {a : α} {as : List α}

/-- The text from its first visible element on. -/
def skip (L : Layout σ) (text : List σ) : List σ := text.dropWhile L.blank

def Blank (L : Layout σ) (w : List σ) : Prop := ∀ c ∈ w, L.blank c = true

/-- The text starts with a visible element other than `close`. -/
def Starts (L : Layout σ) (close : σ) (t : List σ) : Prop :=
  ∃ c r, t = c :: r ∧ L.blank c = false ∧ c ≠ close

/-- Items up to `close`, from the first of them on. -/
inductive Items (L : Layout σ) (P : α → List σ → Prop) (close : σ) : List α → List σ → Prop
  | last {a : α} {t w : List σ} :
      P a t → L.Blank w → Items L P close [a] (t ++ (w ++ [close]))
  | more {a : α} {as : List α} {t w w' u : List σ} :
      P a t → L.Blank w → L.Blank w' → Items L P close as u →
      Items L P close (a :: as) (t ++ (w ++ L.sep :: (w' ++ u)))

/-- No item, or items, between brackets. -/
inductive Bracketed (L : Layout σ) (P : α → List σ → Prop) (opening close : σ) :
    List α → List σ → Prop
  | empty {w : List σ} : L.Blank w → Bracketed L P opening close [] (opening :: (w ++ [close]))
  | items {as : List α} {w u : List σ} :
      L.Blank w → Items L P close as u → Bracketed L P opening close as (opening :: (w ++ u))

/-! ## §3. Blanks. -/

theorem blank_nil : L.Blank [] := fun _ h => (List.not_mem_nil h).elim

/-- What is skipped is blank. -/
theorem exists_skip (L : Layout σ) (text : List σ) :
    ∃ w, L.Blank w ∧ text = w ++ L.skip text :=
  ⟨text.takeWhile L.blank, fun _ hc => List.mem_takeWhile_imp hc,
    (List.takeWhile_append_dropWhile).symm⟩

theorem skip_length (L : Layout σ) (text : List σ) : (L.skip text).length ≤ text.length :=
  (List.dropWhile_sublist _).length_le

/-- Blanks are skipped. -/
theorem skip_append (hw : L.Blank w) : L.skip (w ++ text) = L.skip text := by
  unfold skip
  rw [List.dropWhile_append_of_pos hw]

/-- Skipping stops at a visible element. -/
theorem skip_visible {c : σ} (hc : L.blank c = false) : L.skip (c :: text) = c :: text := by
  unfold skip
  rw [List.dropWhile_cons_of_neg (by rw [hc]; exact Bool.false_ne_true)]

theorem Starts.skip_eq (h : L.Starts close t) : L.skip (t ++ rest) = t ++ rest := by
  obtain ⟨c, r, rfl, hc, -⟩ := h
  exact skip_visible hc

/-- What holds of the elements of the items, of blanks, of the separator and of
the closing bracket holds of every element. -/
theorem Items.forall_mem {q : σ → Prop} (h : L.Items P close as t)
    (hitem : ∀ a t, P a t → ∀ c ∈ t, q c) (hblank : ∀ c, L.blank c = true → q c)
    (hsep : q L.sep) (hclose : q close) : ∀ c ∈ t, q c := by
  induction h with
  | last ht hw =>
      simp only [List.forall_mem_append, List.forall_mem_singleton]
      exact ⟨hitem _ _ ht, fun c hc => hblank c (hw c hc), hclose⟩
  | more ht hw hw' _ ih =>
      simp only [List.forall_mem_append, List.forall_mem_cons]
      exact ⟨hitem _ _ ht, fun c hc => hblank c (hw c hc), hsep, fun c hc => hblank c (hw' c hc),
        ih⟩

theorem Bracketed.forall_mem {q : σ → Prop} (h : L.Bracketed P opening close as t)
    (hitem : ∀ a t, P a t → ∀ c ∈ t, q c) (hblank : ∀ c, L.blank c = true → q c)
    (hsep : q L.sep) (hopening : q opening) (hclose : q close) : ∀ c ∈ t, q c := by
  cases h with
  | empty hw =>
      simp only [List.forall_mem_append, List.forall_mem_cons]
      exact ⟨hopening, fun c hc => hblank c (hw c hc), hclose, by simp⟩
  | items hw hitems =>
      simp only [List.forall_mem_append, List.forall_mem_cons]
      exact ⟨hopening, fun c hc => hblank c (hw c hc), hitems.forall_mem hitem hblank hsep hclose⟩

/-- The texts of the items may be taken from a larger relation. -/
theorem Items.imp {Q : α → List σ → Prop} (hPQ : ∀ a t, P a t → Q a t)
    (h : L.Items P close as t) : L.Items Q close as t := by
  induction h with
  | last ht hw => exact .last (hPQ _ _ ht) hw
  | more ht hw hw' _ ih => exact .more (hPQ _ _ ht) hw hw' ih

theorem Bracketed.imp {Q : α → List σ → Prop} (hPQ : ∀ a t, P a t → Q a t)
    (h : L.Bracketed P opening close as t) : L.Bracketed Q opening close as t := by
  cases h with
  | empty hw => exact .empty hw
  | items hw hitems => exact .items hw (hitems.imp hPQ)

/-- Every item has a text. -/
theorem Items.exists_text (h : L.Items P close as t) : ∀ a ∈ as, ∃ u, P a u := by
  induction h with
  | last ht _ => simpa using ⟨_, ht⟩
  | more ht _ _ _ ih =>
      rw [List.forall_mem_cons]
      exact ⟨⟨_, ht⟩, ih⟩

theorem Bracketed.exists_text (h : L.Bracketed P opening close as t) : ∀ a ∈ as, ∃ u, P a u := by
  cases h with
  | empty _ => simp
  | items _ hitems => exact hitems.exists_text

/-! ### Writing items. -/

/-- The texts one after the other, with a separator before each but the first. -/
def joined (L : Layout σ) (first : Bool) : List (List σ) → List σ
  | [] => []
  | t :: ts => (if first then [] else [L.sep]) ++ (t ++ L.joined false ts)

theorem items_joined {ts : List (List σ)} (ht : P a t) (h : List.Forall₂ P as ts) :
    L.Items P close (a :: as) (t ++ (L.joined false ts ++ [close])) := by
  induction h generalizing a t with
  | nil => exact Items.last (w := []) ht blank_nil
  | cons hu _ ih =>
      have hmore := Items.more ht blank_nil blank_nil (ih hu)
      simpa [joined] using hmore

/-- **What is written between brackets is a text of the items.** -/
theorem bracketed_joined {ts : List (List σ)} (h : List.Forall₂ P as ts) :
    L.Bracketed P opening close as (opening :: (L.joined true ts ++ [close])) := by
  cases h with
  | nil => exact Bracketed.empty (w := []) blank_nil
  | @cons a t as ts ht hrest =>
      have hitems : L.Items P close (a :: as) (L.joined true (t :: ts) ++ [close]) := by
        show L.Items P close (a :: as) (t ++ L.joined false ts ++ [close])
        rw [List.append_assoc]
        exact items_joined ht hrest
      exact Bracketed.items (w := []) blank_nil hitems

section Followed

variable {Ends : List σ → Prop}

/-- An item is followed by a blank, by a separator or by the closing bracket. -/
structure Followed (L : Layout σ) (close : σ) (Ends : List σ → Prop) : Prop where
  blank : ∀ c r, L.blank c = true → Ends (c :: r)
  sep : ∀ r, Ends (L.sep :: r)
  close : ∀ r, Ends (close :: r)

theorem Followed.append {c : σ} (hf : L.Followed close Ends) (hw : L.Blank w)
    (hc : Ends (c :: rest)) : Ends (w ++ c :: rest) := by
  cases w with
  | nil => exact hc
  | cons b w => exact hf.blank b _ (hw b List.mem_cons_self)

theorem Items.starts (hstart : ∀ a t, P a t → L.Starts close t) (h : L.Items P close as u) :
    L.Starts close u := by
  cases h with
  | last ht _ =>
      obtain ⟨c, r, rfl, hc, hne⟩ := hstart _ _ ht
      exact ⟨c, _, rfl, hc, hne⟩
  | more ht _ _ _ =>
      obtain ⟨c, r, rfl, hc, hne⟩ := hstart _ _ ht
      exact ⟨c, _, rfl, hc, hne⟩

end Followed

/-! ## §4. The readers. -/

section Readers

variable [DecidableEq σ]

/-- Items up to `close`, from the first of them on. -/
def readItems (L : Layout σ) (item : Reader σ α) (close : σ) : ℕ → Reader σ (List α)
  | 0, _ => .error .outOfFuel
  | fuel + 1, text =>
      match item text with
      | .error e => .error e
      | .ok (a, rest) =>
          match L.skip rest with
          | [] => .error .malformed
          | c :: rest =>
              if c = close then .ok ([a], rest)
              else if c = L.sep then
                match L.readItems item close fuel (L.skip rest) with
                | .error e => .error e
                | .ok (as, rest) => .ok (a :: as, rest)
              else .error .malformed

/-- The opening bracket, and the items up to the closing one. -/
def readBracketed (L : Layout σ) (item : Reader σ α) (opening close : σ) (fuel : ℕ) :
    Reader σ (List α)
  | [] => .error .malformed
  | c :: rest =>
      if c = opening then
        match L.skip rest with
        | [] => L.readItems item close fuel []
        | c :: rest =>
            if c = close then .ok ([], rest) else L.readItems item close fuel (c :: rest)
      else .error .malformed

/-! ## §5. What has been read. -/

section Sound

variable {item : Reader σ α}

/-- **Items that have been read are items of the text.** -/
theorem readItems_sound (hs : item.Sound P) (fuel : ℕ) :
    (L.readItems item close fuel).Sound (L.Items P close) := by
  induction fuel with
  | zero => intro text as rest h; cases h
  | succ fuel ih =>
      intro text as rest h
      unfold readItems at h
      split at h
      next => cases h
      -- what follows the item is blanks, and then the bracket or a separator
      next a mid hitem =>
          obtain ⟨t, rfl, ht⟩ := hs hitem
          obtain ⟨w, hw, hmid⟩ := L.exists_skip mid
          split at h
          next => cases h
          next c rest' hskip =>
              rw [hskip] at hmid
              split at h
              next hc =>
                  cases h
                  refine ⟨t ++ (w ++ [close]), ?_, .last ht hw⟩
                  rw [hmid, hc]
                  simp
              next =>
                  split at h
                  next hc =>
                      split at h
                      next => cases h
                      next as' rest'' hrec =>
                          cases h
                          obtain ⟨u, hu, hitems⟩ := ih hrec
                          obtain ⟨w', hw', hrest⟩ := L.exists_skip rest'
                          refine ⟨t ++ (w ++ L.sep :: (w' ++ u)), ?_, .more ht hw hw' hitems⟩
                          rw [hmid, hc, hrest, hu]
                          simp
                  next => cases h

theorem readBracketed_sound (hs : item.Sound P) (fuel : ℕ) :
    (L.readBracketed item opening close fuel).Sound (L.Bracketed P opening close) := by
  intro text as rest h
  unfold readBracketed at h
  split at h
  next => cases h
  next c mid =>
      split at h
      next hc =>
          obtain ⟨w, hw, hmid⟩ := L.exists_skip mid
          -- unless the next visible element closes it there are items
          have hitems : ∀ {as rest}, L.readItems item close fuel (L.skip mid) = .ok (as, rest) →
              ∃ t, c :: mid = t ++ rest ∧ L.Bracketed P opening close as t := by
            intro as rest hread
            obtain ⟨u, hu, hitems⟩ := readItems_sound hs fuel hread
            refine ⟨opening :: (w ++ u), ?_, .items hw hitems⟩
            rw [hmid, hc, hu]
            simp
          split at h
          next hskip => exact hitems (by rw [hskip]; exact h)
          next c' rest' hskip =>
              split at h
              next hc' =>
                  cases h
                  refine ⟨opening :: (w ++ [close]), ?_, .empty hw⟩
                  rw [hmid, hskip, hc, hc']
                  simp
              next => exact hitems (by rw [hskip]; exact h)
      next => cases h

end Sound

/-! ## §6. What is read. -/

section Complete

variable {item : Reader σ α} {Ends : List σ → Prop} {fuel bound : ℕ}

/-- **Items are read**, whatever follows the bracket: each of them is, and takes
some of the fuel. -/
theorem readItems_complete (hclose : L.blank close = false) (hne : close ≠ L.sep)
    (hf : L.Followed close Ends) (hstart : ∀ a t, P a t → L.Starts close t)
    (hitem : item.Complete P bound Ends) (h : L.Items P close as u) :
    ∀ {fuel}, u.length < bound → u.length < fuel →
      L.readItems item close fuel (u ++ rest) = .ok (as, rest) := by
  induction h with
  | @last a t w ht hw =>
      intro fuel hbound hfuel
      obtain ⟨fuel, rfl⟩ : ∃ n, fuel = n + 1 := ⟨fuel - 1, by omega⟩
      simp only [List.length_append] at hbound
      have hread := hitem ht (by omega) (hf.append hw (hf.close rest))
      have hskip : L.skip (w ++ close :: rest) = close :: rest := by
        rw [skip_append hw, skip_visible hclose]
      have htext : (t ++ (w ++ [close])) ++ rest = t ++ (w ++ close :: rest) := by simp
      unfold readItems
      rw [htext, hread]
      simp only [hskip, if_true]
  | @more a as t w w' u ht hw hw' hitems ih =>
      intro fuel hbound hfuel
      -- the rest is shorter by the item and the separator
      obtain ⟨fuel, rfl⟩ : ∃ n, fuel = n + 1 := ⟨fuel - 1, by omega⟩
      simp only [List.length_append, List.length_cons] at hbound hfuel
      have hread := hitem ht (by omega) (hf.append hw (hf.sep (w' ++ (u ++ rest))))
      have hskip : L.skip (w ++ L.sep :: (w' ++ (u ++ rest))) = L.sep :: (w' ++ (u ++ rest)) := by
        rw [skip_append hw, skip_visible L.sep_visible]
      have hskip' : L.skip (w' ++ (u ++ rest)) = u ++ rest := by
        rw [skip_append hw', (hitems.starts hstart).skip_eq]
      have htext : (t ++ (w ++ L.sep :: (w' ++ u))) ++ rest
          = t ++ (w ++ L.sep :: (w' ++ (u ++ rest))) := by simp
      have hrec : L.readItems item close fuel (u ++ rest) = .ok (as, rest) :=
        ih (by omega) (by omega)
      unfold readItems
      rw [htext, hread]
      simp only [hskip, hskip', hrec]
      rw [if_neg (fun heq => hne heq.symm), if_pos trivial]

theorem readBracketed_complete (hclose : L.blank close = false) (hne : close ≠ L.sep)
    (hf : L.Followed close Ends) (hstart : ∀ a t, P a t → L.Starts close t)
    (hitem : item.Complete P fuel Ends) :
    (L.readBracketed item opening close fuel).Complete (L.Bracketed P opening close) (fuel + 1)
      (fun _ => True) := by
  intro as t rest h hlt _
  cases h with
  | @empty w hw =>
      have htext : opening :: (w ++ [close]) ++ rest = opening :: (w ++ close :: rest) := by simp
      have hskip : L.skip (w ++ close :: rest) = close :: rest := by
        rw [skip_append hw, skip_visible hclose]
      rw [htext]
      unfold readBracketed
      simp only [hskip, if_true]
  | @items as w u hw hitems =>
      have hlen : u.length < fuel := by
        simp only [List.length_cons, List.length_append] at hlt
        omega
      have hread : L.readItems item close fuel (u ++ rest) = .ok (as, rest) :=
        readItems_complete hclose hne hf hstart hitem hitems hlen hlen
      obtain ⟨c, r, rfl, hc, hcne⟩ := hitems.starts hstart
      have htext : opening :: (w ++ c :: r) ++ rest = opening :: (w ++ c :: (r ++ rest)) := by simp
      have hskip : L.skip (w ++ c :: (r ++ rest)) = c :: (r ++ rest) := by
        rw [skip_append hw, skip_visible hc]
      rw [htext]
      unfold readBracketed
      simp only [hskip, if_true]
      rw [if_neg hcne]
      exact hread

end Complete

/-! ## §7. Fuel. -/

section Enough

variable {item : Reader σ α} {bound : ℕ}

/-- Every item takes something off the text, so the fuel outlasts the text. -/
theorem readItems_enough (hshrinks : item.Shrinks) (henough : item.Enough bound) :
    ∀ fuel, fuel ≤ bound → (L.readItems item close fuel).Enough fuel := by
  intro fuel
  induction fuel with
  | zero => intro _ text hlt; omega
  | succ fuel ih =>
      intro hle text hlt h
      unfold readItems at h
      split at h
      next e hitem =>
          cases h
          exact henough (by omega) hitem
      next a mid hitem =>
          have hmid := hshrinks hitem
          have hlen := L.skip_length mid
          split at h
          next => cases h
          next c rest' hskip =>
              rw [hskip, List.length_cons] at hlen
              split at h
              next => cases h
              next =>
                  split at h
                  next =>
                      have hrest := L.skip_length rest'
                      split at h
                      next e hrec =>
                          cases h
                          exact ih (by omega) (by omega) hrec
                      next => cases h
                  next => cases h

theorem readBracketed_enough {fuel : ℕ} (hshrinks : item.Shrinks) (henough : item.Enough fuel) :
    (L.readBracketed item opening close fuel).Enough (fuel + 1) := by
  intro text hlt h
  have hitems : (L.readItems item close fuel).Enough fuel :=
    readItems_enough hshrinks henough fuel (le_refl fuel)
  unfold readBracketed at h
  split at h
  next => cases h
  next c mid =>
      have hlen := L.skip_length mid
      simp only [List.length_cons] at hlt
      split at h
      next =>
          split at h
          next hskip =>
              rw [hskip] at hlen
              exact hitems (by omega) h
          next c' rest' hskip =>
              rw [hskip] at hlen
              split at h
              next => cases h
              next => exact hitems (by omega) h
      next => cases h

end Enough

end Readers

end Layout

end ApiSyncer.Lib
