/-
  ApiSyncer.Crow.Grammar
  ──────────────────────
  **WHICH TEXTS CROW READS, AND WHAT IT READS.**

  `Phrase n v t` says that `t` is a text of the value `v` with at most `n`
  levels of lists and objects.  The parser counts two for every level, against
  a bound of 10000: it reads the documents of 5000 levels, and no other text.

      decodeValue_sound      what has been read is a phrase
      decodeValue_complete   every phrase within the depth is read
      decodeValue_enough     the fuel outlasts the text
      parse_iff, load_iff    a text is read exactly when it is a document
-/
import ApiSyncer.Crow.Lexical

namespace ApiSyncer.Crow

open ApiSyncer.Lib

/-! ## §1. The grammar. -/

/-- A key and a value, with a colon between them. -/
def Member (P : RValue → List Char → Prop) (m : List Char × RValue) (t : List Char) : Prop :=
  ∃ raw w w' u, t = '"' :: (raw ++ '"' :: (w ++ ':' :: (w' ++ u))) ∧ StringText raw
    ∧ layout.Blank w ∧ layout.Blank w' ∧ m.1 = unescape raw ∧ P m.2 u

/-- A text of the value, with at most so many levels. -/
def Phrase : Nat → RValue → List Char → Prop
  | _, .null, t => t = ['n', 'u', 'l', 'l']
  | _, .true, t => t = ['t', 'r', 'u', 'e']
  | _, .false, t => t = ['f', 'a', 'l', 's', 'e']
  | _, .number text, t => t = text ∧ NumberText text
  | _, .string raw, t => t = '"' :: (raw ++ ['"']) ∧ StringText raw
  | 0, .list _, _ => False
  | n + 1, .list items, t => layout.Bracketed (Phrase n) '[' ']' items t
  | 0, .object _, _ => False
  | n + 1, .object members, t => layout.Bracketed (Member (Phrase n)) '{' '}' members t

section Phrase

variable {n : Nat} {t : List Char}

theorem phrase_null : Phrase n .null t ↔ t = ['n', 'u', 'l', 'l'] := by
  cases n <;> exact Iff.rfl

theorem phrase_true : Phrase n .true t ↔ t = ['t', 'r', 'u', 'e'] := by
  cases n <;> exact Iff.rfl

theorem phrase_false : Phrase n .false t ↔ t = ['f', 'a', 'l', 's', 'e'] := by
  cases n <;> exact Iff.rfl

theorem phrase_number {text : List Char} :
    Phrase n (.number text) t ↔ t = text ∧ NumberText text := by
  cases n <;> exact Iff.rfl

theorem phrase_string {raw : List Char} :
    Phrase n (.string raw) t ↔ t = '"' :: (raw ++ ['"']) ∧ StringText raw := by
  cases n <;> exact Iff.rfl

theorem phrase_list {items : List RValue} : Phrase n (.list items) t
    ↔ ∃ m, n = m + 1 ∧ layout.Bracketed (Phrase m) '[' ']' items t := by
  cases n with
  | zero => simp [Phrase]
  | succ n => simp [Phrase]

theorem phrase_object {members : List (List Char × RValue)} : Phrase n (.object members) t
    ↔ ∃ m, n = m + 1 ∧ layout.Bracketed (Member (Phrase m)) '{' '}' members t := by
  cases n with
  | zero => simp [Phrase]
  | succ n => simp [Phrase]

end Phrase

/-- A phrase between blanks. -/
def Document (n : Nat) (v : RValue) (t : List Char) : Prop :=
  ∃ pre body post, t = pre ++ (body ++ post) ∧ layout.Blank pre ∧ layout.Blank post
    ∧ Phrase n v body

/-- The levels that are left below a value at the depth. -/
def levels (max_depth depth : Nat) : Nat := (max_depth + 1 - depth) / 2

theorem levels_succ {max_depth depth : Nat} (h : depth + 1 ≤ max_depth) :
    levels max_depth depth = levels max_depth (depth + 1 + 1) + 1 := by
  unfold levels
  omega

theorem levels_zero {max_depth depth : Nat} (h : ¬ depth + 1 ≤ max_depth) :
    levels max_depth depth = 0 := by
  unfold levels
  omega

/-! ## §2. First characters. -/

section Starts

variable {v : RValue} {m : List Char × RValue} {P : RValue → List Char → Prop} {n : Nat}
  {t : List Char}

/-- A number starts with a minus or a digit. -/
theorem NumberText.head (h : NumberText t) :
    ∃ c r, t = c :: r ∧ (c = '-' ∨ isDigit c = Bool.true) := by
  have hunsigned : ∀ {u}, Unsigned u → ∃ c r, u = c :: r ∧ isDigit c = Bool.true := by
    rintro u (⟨r, rfl, -⟩ | ⟨c, r, rfl, ⟨hdigit, -⟩, -⟩)
    · exact ⟨'0', r, rfl, by decide⟩
    · exact ⟨c, r, rfl, hdigit⟩
  rcases h with h | ⟨r, rfl, -⟩
  · obtain ⟨c, r, rfl, hdigit⟩ := hunsigned h
    exact ⟨c, r, rfl, Or.inr hdigit⟩
  · exact ⟨'-', r, rfl, Or.inl rfl⟩

/-- Where `decode_value` takes its default case. -/
def NumberHead (c : Char) : Prop :=
  c ≠ '[' ∧ c ≠ '{' ∧ c ≠ '"' ∧ c ≠ 't' ∧ c ≠ 'f' ∧ c ≠ 'n'

theorem numberHead {c : Char} (h : c = '-' ∨ isDigit c = Bool.true) :
    NumberHead c ∧ layout.blank c = Bool.false ∧ c ≠ ']' ∧ c ≠ '}' := by
  have hne : ∀ d, isDigit d = Bool.false → d ≠ '-' → c ≠ d := by
    rintro d hd hminus rfl
    rcases h with h | h
    · exact hminus h
    · rw [hd] at h
      cases h
  have hblank : layout.blank c = Bool.false := by
    have hspace := hne ' ' (by decide) (by decide)
    have htab := hne '\t' (by decide) (by decide)
    have hreturn := hne '\r' (by decide) (by decide)
    have hline := hne '\n' (by decide) (by decide)
    simp [layout, hspace, htab, hreturn, hline]
  refine ⟨⟨?_, ?_, ?_, ?_, ?_, ?_⟩, hblank, ?_, ?_⟩ <;> exact hne _ (by decide) (by decide)

theorem bracketed_head {α : Type} {Q : α → List Char → Prop} {opening close : Char}
    {as : List α} (h : layout.Bracketed Q opening close as t) : ∃ r, t = opening :: r := by
  cases h with
  | empty _ => exact ⟨_, rfl⟩
  | items _ _ => exact ⟨_, rfl⟩

theorem Phrase.starts (h : Phrase n v t) : layout.Starts ']' t := by
  cases v with
  | null =>
      obtain rfl := phrase_null.mp h
      exact ⟨_, _, rfl, by decide, by decide⟩
  | true =>
      obtain rfl := phrase_true.mp h
      exact ⟨_, _, rfl, by decide, by decide⟩
  | false =>
      obtain rfl := phrase_false.mp h
      exact ⟨_, _, rfl, by decide, by decide⟩
  | number text =>
      obtain ⟨rfl, hnumber⟩ := phrase_number.mp h
      obtain ⟨c, r, rfl, hc⟩ := hnumber.head
      obtain ⟨-, hblank, hclose, -⟩ := numberHead hc
      exact ⟨c, r, rfl, hblank, hclose⟩
  | string raw =>
      obtain ⟨rfl, -⟩ := phrase_string.mp h
      exact ⟨_, _, rfl, by decide, by decide⟩
  | list items =>
      obtain ⟨m, -, hitems⟩ := phrase_list.mp h
      obtain ⟨r, rfl⟩ := bracketed_head hitems
      exact ⟨_, _, rfl, by decide, by decide⟩
  | object members =>
      obtain ⟨m, -, hmembers⟩ := phrase_object.mp h
      obtain ⟨r, rfl⟩ := bracketed_head hmembers
      exact ⟨_, _, rfl, by decide, by decide⟩

theorem Member.starts (h : Member P m t) : layout.Starts '}' t := by
  obtain ⟨raw, w, w', u, rfl, -⟩ := h
  exact ⟨_, _, rfl, by decide, by decide⟩

theorem Phrase.ne_nil (h : Phrase n v t) : t ≠ [] := by
  obtain ⟨c, r, rfl, -⟩ := h.starts
  exact List.cons_ne_nil _ _

theorem Member.ne_nil (h : Member P m t) : t ≠ [] := by
  obtain ⟨raw, w, w', u, rfl, -⟩ := h
  exact List.cons_ne_nil _ _

/-- A blank, a comma and a closing bracket end a number. -/
theorem followed {close : Char} (hclose : Other close) : layout.Followed close Stops where
  blank c r hc := by
    rintro d s heq
    obtain ⟨rfl, rfl⟩ := List.cons.inj heq
    simp only [layout, Bool.or_eq_true, decide_eq_true_eq] at hc
    rcases hc with ((rfl | rfl) | rfl) | rfl <;> constructor <;> decide
  sep r := by
    rintro d s heq
    obtain ⟨rfl, rfl⟩ := List.cons.inj heq
    constructor <;> decide
  close r := by
    rintro d s heq
    obtain ⟨rfl, rfl⟩ := List.cons.inj heq
    exact hclose

end Starts

/-! ## §3. What has been read. -/

section Sound

variable {max_depth : Nat} {P : RValue → List Char → Prop} {value : Reader Char RValue}

theorem decodeMember_sound (hs : value.Sound P) : (decodeMember value).Sound (Member P) := by
  intro text m rest h
  unfold decodeMember at h
  split at h
  next => cases h
  next raw mid hkey =>
      obtain ⟨hraw, rfl⟩ := decodeString_sound hkey
      split at h
      next mid' hskip =>
          split at h
          next => cases h
          next v rest' hvalue =>
              cases h
              obtain ⟨w, hw, hmid⟩ := layout.exists_skip mid
              obtain ⟨w', hw', hmid'⟩ := layout.exists_skip mid'
              obtain ⟨u, hu, hP⟩ := hs hvalue
              refine ⟨_, ?_, raw, w, w', u, rfl, hraw, hw, hw', stringValue_eq raw, hP⟩
              have hskip' : layout.skip mid = ':' :: mid' := hskip
              have hu' : layout.skip mid' = u ++ rest := hu
              rw [hmid, hskip', hmid', hu']
              simp
      next => cases h

/-- **What has been read is a phrase of the value**, of no more levels than are
left. -/
theorem decodeValue_sound (fuel : Nat) : ∀ depth,
    (decodeValue max_depth fuel depth).Sound (Phrase (levels max_depth depth)) := by
  induction fuel with
  | zero => intro depth text v rest h; cases h
  | succ fuel ih =>
      intro depth text v rest h
      unfold decodeValue at h
      split at h
      -- a list
      next =>
          obtain ⟨⟨items, rest'⟩, hlist, heq⟩ := map_eq_ok.mp h
          cases heq
          unfold decodeList at hlist
          split at hlist
          next hdepth =>
              obtain ⟨t, htext, hitems⟩ := Layout.readBracketed_sound (ih _) fuel hlist
              refine ⟨t, htext, phrase_list.mpr ⟨_, levels_succ hdepth, hitems⟩⟩
          next => cases hlist
      -- an object
      next =>
          obtain ⟨⟨members, rest'⟩, hobject, heq⟩ := map_eq_ok.mp h
          cases heq
          unfold decodeObject at hobject
          split at hobject
          next hdepth =>
              obtain ⟨t, htext, hmembers⟩ :=
                Layout.readBracketed_sound (decodeMember_sound (ih _)) fuel hobject
              refine ⟨t, htext, phrase_object.mpr ⟨_, levels_succ hdepth, hmembers⟩⟩
          next => cases hobject
      -- a string
      next =>
          obtain ⟨⟨raw, rest'⟩, hstring, heq⟩ := map_eq_ok.mp h
          cases heq
          obtain ⟨hraw, htext⟩ := decodeString_sound hstring
          refine ⟨'"' :: (raw ++ ['"']), ?_, phrase_string.mpr ⟨rfl, hraw⟩⟩
          rw [htext]
          simp
      next =>
          -- t, and not always true
          split at h
          next =>
              cases h
              exact ⟨_, rfl, phrase_true.mpr rfl⟩
          next => cases h
      next =>
          split at h
          next =>
              cases h
              exact ⟨_, rfl, phrase_false.mpr rfl⟩
          next => cases h
      next =>
          split at h
          next =>
              cases h
              exact ⟨_, rfl, phrase_null.mpr rfl⟩
          next => cases h
      -- everything else is tried as a number
      next =>
          obtain ⟨⟨t, rest'⟩, hnumber, heq⟩ := map_eq_ok.mp h
          cases heq
          obtain ⟨htext, ht, -⟩ := decodeNumber_iff.mp hnumber
          exact ⟨t, htext, phrase_number.mpr ⟨rfl, ht⟩⟩

end Sound

/-! ## §4. What is read. -/

section Complete

variable {max_depth depth bound : Nat} {P : RValue → List Char → Prop}
  {value : Reader Char RValue}

theorem decodeMember_complete (hstart : ∀ v t, P v t → layout.Starts ']' t)
    (hvalue : value.Complete P bound Stops) :
    (decodeMember value).Complete (Member P) bound Stops := by
  rintro ⟨key, v⟩ t rest ⟨raw, w, w', u, rfl, hraw, hw, hw', hkey, hP⟩ hlt hends
  simp only [List.length_cons, List.length_append] at hlt
  have hread := hvalue hP (by omega) hends
  have htext : '"' :: (raw ++ '"' :: (w ++ ':' :: (w' ++ u))) ++ rest
      = '"' :: (raw ++ '"' :: (w ++ ':' :: (w' ++ (u ++ rest)))) := by simp
  have hcolon : wsSkip (w ++ ':' :: (w' ++ (u ++ rest))) = ':' :: (w' ++ (u ++ rest)) := by
    unfold wsSkip
    rw [Layout.skip_append hw, Layout.skip_visible (by decide)]
  have hafter : wsSkip (w' ++ (u ++ rest)) = u ++ rest := by
    unfold wsSkip
    rw [Layout.skip_append hw', (hstart v u hP).skip_eq]
  rw [htext]
  unfold decodeMember
  rw [decodeString_complete hraw]
  simp only [hcolon, hafter, hread]
  rw [stringValue_eq, ← hkey]

/-- **Every phrase is read**, up to where it ends, with fuel for its length. -/
theorem decodeValue_complete (fuel : Nat) : ∀ depth,
    (decodeValue max_depth fuel depth).Complete (Phrase (levels max_depth depth)) fuel Stops := by
  induction fuel with
  | zero => intro depth v t rest _ hlt; omega
  | succ fuel ih =>
      intro depth v t rest h hlt hends
      cases v with
      | null =>
          obtain rfl := phrase_null.mp h
          rfl
      | true =>
          obtain rfl := phrase_true.mp h
          rfl
      | false =>
          obtain rfl := phrase_false.mp h
          rfl
      | number text =>
          obtain ⟨rfl, hnumber⟩ := phrase_number.mp h
          obtain ⟨c, r, rfl, hc⟩ := hnumber.head
          -- the head is none that the match of `decode_value` asks for
          obtain ⟨⟨h1, h2, h3, h4, h5, h6⟩, -⟩ := numberHead hc
          have hread := decodeNumber_iff.mpr ⟨rfl, hnumber, hends⟩
          have hdefault : decodeValue max_depth (fuel + 1) depth (c :: r ++ rest)
              = (decodeNumber (c :: r ++ rest)).map fun r => (.number r.1, r.2) := by
            rw [List.cons_append, decodeValue]
            all_goals
              intro tail heq
              obtain ⟨rfl, -⟩ := List.cons.inj heq
              contradiction
          rw [hdefault, hread]
          rfl
      | string raw =>
          obtain ⟨rfl, hraw⟩ := phrase_string.mp h
          have htext : '"' :: (raw ++ ['"']) ++ rest = '"' :: (raw ++ '"' :: rest) := by simp
          rw [htext]
          show (decodeString ('"' :: (raw ++ '"' :: rest))).map _ = _
          rw [decodeString_complete hraw]
          rfl
      | list items =>
          -- a list takes one of the levels and two of the depth
          obtain ⟨m, hlevels, hitems⟩ := phrase_list.mp h
          have hdepth : depth + 1 ≤ max_depth := by
            by_contra hnot
            rw [levels_zero hnot] at hlevels
            omega
          obtain rfl : m = levels max_depth (depth + 1 + 1) := by
            have := levels_succ hdepth
            omega
          have hread : (layout.readBracketed (decodeValue max_depth fuel (depth + 1 + 1))
              '[' ']' fuel).Complete
              (layout.Bracketed (Phrase (levels max_depth (depth + 1 + 1))) '[' ']') (fuel + 1)
              fun _ => True :=
            Layout.readBracketed_complete (by decide) (by decide)
              (followed (by constructor <;> decide)) (fun _ _ hp => hp.starts) (ih _)
          obtain ⟨r, rfl⟩ := bracketed_head hitems
          show (decodeList max_depth _ fuel (depth + 1) ('[' :: r ++ rest)).map _ = _
          unfold decodeList
          rw [if_pos hdepth, hread hitems hlt trivial]
          rfl
      | object members =>
          obtain ⟨m, hlevels, hmembers⟩ := phrase_object.mp h
          have hdepth : depth + 1 ≤ max_depth := by
            by_contra hnot
            rw [levels_zero hnot] at hlevels
            omega
          obtain rfl : m = levels max_depth (depth + 1 + 1) := by
            have := levels_succ hdepth
            omega
          have hread : (layout.readBracketed
              (decodeMember (decodeValue max_depth fuel (depth + 1 + 1))) '{' '}' fuel).Complete
              (layout.Bracketed (Member (Phrase (levels max_depth (depth + 1 + 1)))) '{' '}')
              (fuel + 1) fun _ => True :=
            Layout.readBracketed_complete (by decide) (by decide)
              (followed (by constructor <;> decide)) (fun _ _ hp => hp.starts)
              (decodeMember_complete (fun _ _ hp => hp.starts) (ih _))
          obtain ⟨r, rfl⟩ := bracketed_head hmembers
          show (decodeObject max_depth _ fuel (depth + 1) ('{' :: r ++ rest)).map _ = _
          unfold decodeObject
          rw [if_pos hdepth, hread hmembers hlt trivial]
          rfl

end Complete

/-! ## §5. Fuel. -/

section Enough

variable {max_depth : Nat} {text : List Char} {value : Reader Char RValue} {bound : Nat}

theorem map_ne_outOfFuel {α β : Type} {x : Except ReadError α} {f : α → β}
    (h : x ≠ .error .outOfFuel) : x.map f ≠ .error .outOfFuel := by
  cases x with
  | error e => exact fun heq => h (by cases heq; rfl)
  | ok a => exact fun heq => by cases heq

theorem decodeString_enough : decodeString text ≠ .error .outOfFuel := by
  have hloop : ∀ text, decodeString.loop text ≠ .error .outOfFuel := by
    intro text
    fun_induction decodeString.loop text with
    | case1 => simp
    | case2 => simp
    | case3 _ _ _ _ _ _ ih => exact map_ne_outOfFuel ih
    | case4 => simp
    | case5 _ _ _ _ ih => exact map_ne_outOfFuel ih
    | case6 => simp
    | case7 => simp
    | case8 _ _ _ _ _ _ ih => exact map_ne_outOfFuel ih
  unfold decodeString
  split
  · exact hloop _
  · simp

theorem decodeNumber_enough : decodeNumber text ≠ .error .outOfFuel := by
  have hloop : ∀ text state skipping,
      decodeNumber.loop state skipping text ≠ .error .outOfFuel := by
    intro text
    induction text with
    | nil =>
        intro state skipping
        rw [decodeNumber.loop]
        split <;> simp
    | cons c text ih =>
        intro state skipping
        rw [decodeNumber.loop]
        split
        · exact map_ne_outOfFuel (ih _ _)
        · split
          · split <;> simp
          · simp
          · exact map_ne_outOfFuel (ih _ _)
  exact hloop _ _ _

theorem decodeMember_enough (hvalue : value.Enough bound) :
    (decodeMember value).Enough bound := by
  intro text hlt h
  unfold decodeMember at h
  split at h
  next e hkey =>
      cases h
      exact decodeString_enough hkey
  next raw mid hkey =>
      obtain ⟨-, rfl⟩ := decodeString_sound hkey
      split at h
      next mid' hskip =>
          have hmid := layout.skip_length mid
          have hmid' := layout.skip_length mid'
          have hskip' : layout.skip mid = ':' :: mid' := hskip
          simp only [hskip', List.length_cons, List.length_append] at hlt hmid
          split at h
          next e hread =>
              cases h
              have hshort : (wsSkip mid').length < bound := by
                unfold wsSkip
                omega
              exact hvalue hshort hread
          next => cases h
      next => cases h

/-- **The parser does not run out of fuel** on a text shorter than it. -/
theorem decodeValue_enough (fuel : Nat) :
    ∀ depth, (decodeValue max_depth fuel depth).Enough fuel := by
  induction fuel with
  | zero => intro depth text hlt; omega
  | succ fuel ih =>
      intro depth text hlt
      have hshrinks := (@decodeValue_sound max_depth fuel (depth + 1 + 1)).shrinks
        fun _ _ hp => hp.ne_nil
      have hmember := (decodeMember_sound
        (@decodeValue_sound max_depth fuel (depth + 1 + 1))).shrinks
        fun _ _ hp => hp.ne_nil
      unfold decodeValue
      split
      next =>
          refine map_ne_outOfFuel ?_
          unfold decodeList
          split
          · exact Layout.readBracketed_enough hshrinks (ih _) hlt
          · simp
      next =>
          refine map_ne_outOfFuel ?_
          unfold decodeObject
          split
          · exact Layout.readBracketed_enough hmember (decodeMember_enough (ih _)) hlt
          · simp
      next => exact map_ne_outOfFuel decodeString_enough
      next => split <;> simp
      next => split <;> simp
      next => split <;> simp
      next => exact map_ne_outOfFuel decodeNumber_enough

end Enough

/-! ## §6. Texts. -/

section Texts

variable {max_depth n : Nat} {v : RValue} {text t : List Char}

theorem blank_ne_nul {c : Char} (h : layout.blank c = Bool.true) : c ≠ '\x00' := by
  rintro rfl
  revert h
  decide

/-- There is no NUL in a phrase. -/
theorem Phrase.ne_nul (h : Phrase n v t) : ∀ c ∈ t, c ≠ '\x00' := by
  induction n using Nat.strong_induction_on generalizing v t with
  | _ n ih =>
      cases v with
      | null =>
          obtain rfl := phrase_null.mp h
          simp
      | true =>
          obtain rfl := phrase_true.mp h
          simp
      | false =>
          obtain rfl := phrase_false.mp h
          simp
      | number text =>
          obtain ⟨rfl, hnumber⟩ := phrase_number.mp h
          rintro c hc rfl
          exact hnumber.forall_mem _ hc (by constructor <;> decide)
      | string raw =>
          obtain ⟨rfl, hraw⟩ := phrase_string.mp h
          rintro c hc rfl
          simp [hraw.nul_notMem] at hc
      | list items =>
          obtain ⟨m, rfl, hitems⟩ := phrase_list.mp h
          exact hitems.forall_mem (fun _ _ hp => ih m (by omega) hp) (fun _ => blank_ne_nul)
            (by decide) (by decide) (by decide)
      | object members =>
          obtain ⟨m, rfl, hmembers⟩ := phrase_object.mp h
          refine hmembers.forall_mem ?_ (fun _ => blank_ne_nul) (by decide) (by decide) (by decide)
          rintro ⟨key, v⟩ t ⟨raw, w, w', u, rfl, hraw, hw, hw', -, hp⟩ c hc rfl
          have hu : '\x00' ∉ u := fun hmem => ih m (by omega) hp _ hmem rfl
          have hblank : '\x00' ∉ w := fun hmem => blank_ne_nul (hw _ hmem) rfl
          have hblank' : '\x00' ∉ w' := fun hmem => blank_ne_nul (hw' _ hmem) rfl
          simp [hraw.nul_notMem, hu, hblank, hblank'] at hc

theorem Document.ne_nul (h : Document n v t) : ∀ c ∈ t, c ≠ '\x00' := by
  obtain ⟨pre, body, post, rfl, hpre, hpost, hbody⟩ := h
  simp only [List.forall_mem_append]
  exact ⟨fun c hc => blank_ne_nul (hpre c hc), hbody.ne_nul, fun c hc => blank_ne_nul (hpost c hc)⟩

/-- More levels may be allowed than a phrase has. -/
theorem Phrase.mono {m : Nat} (hle : n ≤ m) (h : Phrase n v t) : Phrase m v t := by
  induction n using Nat.strong_induction_on generalizing m v t with
  | _ n ih =>
      cases v with
      | null => exact phrase_null.mpr (phrase_null.mp h)
      | true => exact phrase_true.mpr (phrase_true.mp h)
      | false => exact phrase_false.mpr (phrase_false.mp h)
      | number text => exact phrase_number.mpr (phrase_number.mp h)
      | string raw => exact phrase_string.mpr (phrase_string.mp h)
      | list items =>
          obtain ⟨k, rfl, hitems⟩ := phrase_list.mp h
          obtain ⟨m, rfl⟩ : ∃ j, m = j + 1 := ⟨m - 1, by omega⟩
          exact phrase_list.mpr
            ⟨m, rfl, hitems.imp fun _ _ hp => ih k (by omega) (by omega) hp⟩
      | object members =>
          obtain ⟨k, rfl, hmembers⟩ := phrase_object.mp h
          obtain ⟨m, rfl⟩ : ∃ j, m = j + 1 := ⟨m - 1, by omega⟩
          refine phrase_object.mpr ⟨m, rfl, hmembers.imp ?_⟩
          rintro ⟨key, v⟩ t ⟨raw, w, w', u, rfl, hraw, hw, hw', hkey, hp⟩
          exact ⟨raw, w, w', u, rfl, hraw, hw, hw', hkey, ih k (by omega) (by omega) hp⟩

/-- The text up to its first NUL. -/
def untilNul (text : List Char) : List Char := text.takeWhile (· ≠ '\x00')

/-- `load` always comes to a result: the fuel is enough. -/
theorem parse_ne_outOfFuel : parse max_depth text ≠ .error .outOfFuel := by
  intro h
  unfold parse at h
  split at h
  next e hread =>
      cases h
      have hlen : (wsSkip text).length < text.length + 1 := by
        have := layout.skip_length text
        unfold wsSkip
        omega
      exact decodeValue_enough _ _ hlen hread
  next =>
      split at h
      · cases h
      · split at h <;> cases h

/-- A NUL or the end of the text. -/
def Ended (tail : List Char) : Prop := ∀ c r, tail = c :: r → c = '\x00'

theorem exists_untilNul (text : List Char) :
    ∃ tail, text = untilNul text ++ tail ∧ Ended tail := by
  refine ⟨text.dropWhile (· ≠ '\x00'), (List.takeWhile_append_dropWhile).symm, ?_⟩
  intro c r heq
  have hne : text.dropWhile (· ≠ '\x00') ≠ [] := by
    rw [heq]
    exact List.cons_ne_nil _ _
  have hhead := List.head_dropWhile_not (· ≠ '\x00') hne
  simp only [heq, List.head_cons] at hhead
  simpa using hhead

theorem untilNul_append {tail : List Char} (ht : ∀ c ∈ t, c ≠ '\x00') (htail : Ended tail) :
    untilNul (t ++ tail) = t := by
  unfold untilNul
  rw [List.takeWhile_append_of_pos (by simpa using ht)]
  cases tail with
  | nil => simp
  | cons c tail =>
      obtain rfl := htail c tail rfl
      simp

/-- After blanks that something visible or the end follows, nothing continues a
number. -/
theorem stops_blank {w tail : List Char} (hw : layout.Blank w) (htail : Ended tail) :
    Stops (w ++ tail) := by
  have hfollowed := @followed ']' (by constructor <;> decide)
  cases w with
  | nil =>
      intro c r heq
      obtain rfl := htail c r heq
      constructor <;> decide
  | cons b w => exact hfollowed.blank b _ (hw b List.mem_cons_self)

/-- **A text is read exactly when it is, up to its first NUL, a document.** -/
theorem parse_iff :
    parse max_depth text = .ok v ↔ Document (levels max_depth 0) v (untilNul text) := by
  constructor
  · intro h
    unfold parse at h
    split at h
    next => cases h
    next v' rest hread =>
        -- the text is blanks, what was read, blanks, and what stopped the parser
        obtain ⟨body, hskip, hbody⟩ := decodeValue_sound _ _ hread
        obtain ⟨pre, hpre, htext⟩ := layout.exists_skip text
        obtain ⟨post, hpost, hrest⟩ := layout.exists_skip rest
        have hskip' : layout.skip text = body ++ rest := hskip
        -- which is the end, or a NUL
        have hresult : v' = v ∧ Ended (layout.skip rest) := by
          split at h
          next hend =>
              have hend' : layout.skip rest = [] := hend
              rw [hend']
              exact ⟨Except.ok.inj h, fun c r heq => by cases heq⟩
          next c r hend =>
              have hend' : layout.skip rest = c :: r := hend
              split at h
              next hc =>
                  rw [hend']
                  refine ⟨Except.ok.inj h, fun d s heq => ?_⟩
                  rw [← (List.cons.inj heq).1, hc]
              next => cases h
        obtain ⟨rfl, hended⟩ := hresult
        have hdoc : Document (levels max_depth 0) v' (pre ++ (body ++ post)) :=
          ⟨pre, body, post, rfl, hpre, hpost, hbody⟩
        have hall : text = (pre ++ (body ++ post)) ++ layout.skip rest := by
          rw [List.append_assoc, List.append_assoc, ← hrest, ← hskip', ← htext]
        rw [hall, untilNul_append hdoc.ne_nul hended]
        exact hdoc
  · rintro ⟨pre, body, post, heq, hpre, hpost, hbody⟩
    obtain ⟨tail, htext, htail⟩ := exists_untilNul text
    rw [heq] at htext
    have hskip : wsSkip text = body ++ (post ++ tail) := by
      have hassoc : (pre ++ (body ++ post)) ++ tail = pre ++ (body ++ (post ++ tail)) := by simp
      unfold wsSkip
      rw [htext, hassoc, Layout.skip_append hpre, hbody.starts.skip_eq]
    -- the fuel of `parse` is enough
    have hlen : body.length < text.length + 1 := by
      rw [htext]
      simp only [List.length_append]
      omega
    have hread := (@decodeValue_complete max_depth _ 0) hbody hlen
      (stops_blank hpost htail)
    have hend : wsSkip (post ++ tail) = tail := by
      unfold wsSkip
      rw [Layout.skip_append hpost]
      cases tail with
      | nil => rfl
      | cons c tail =>
          obtain rfl := htail c tail rfl
          exact Layout.skip_visible (by decide)
    unfold parse
    rw [hskip, hread]
    simp only [hend]
    cases tail with
    | nil => rfl
    | cons c tail =>
        obtain rfl := htail c tail rfl
        rfl

/-- **A text denotes one value at most**, however deep. -/
theorem document_unique {m : Nat} {v' : RValue} (h : Document n v t) (h' : Document m v' t) :
    v = v' := by
  -- a bound on the depth that admits both
  have hmono : ∀ {n v}, Document n v t → ∀ k, n ≤ k → parse (2 * k) t = .ok v := by
    intro n v hdoc k hle
    have hnul : untilNul t = t := by
      have := @untilNul_append t [] hdoc.ne_nul fun c r heq => by cases heq
      rwa [List.append_nil] at this
    obtain ⟨pre, body, post, heq, hpre, hpost, hbody⟩ := hdoc
    have hlevels : levels (2 * k) 0 = k := by
      unfold levels
      omega
    rw [parse_iff, hnul, hlevels]
    exact ⟨pre, body, post, heq, hpre, hpost, hbody.mono hle⟩
  have hleft := hmono h (max n m) (le_max_left n m)
  have hright := hmono h' (max n m) (le_max_right n m)
  exact Except.ok.inj (hleft.symm.trans hright)

theorem load_ok_iff : load text = .ok v ↔ Document 5000 v (untilNul text) := parse_iff

theorem load_error_iff :
    load text = .error .malformed ↔ ¬ ∃ v, Document 5000 v (untilNul text) := by
  constructor
  · rintro h ⟨v, hdoc⟩
    rw [load_ok_iff.mpr hdoc] at h
    cases h
  · intro hnone
    cases hload : load text with
    | ok v => exact absurd ⟨v, load_ok_iff.mp hload⟩ hnone
    | error e =>
        cases e with
        | malformed => rfl
        | outOfFuel => exact absurd hload parse_ne_outOfFuel

/-- **`load` accepts exactly the documents of 5000 levels**, returns the one
value the text denotes, and refuses every other text. -/
theorem load_iff (text : List Char) :
    (∀ v, load text = .ok v ↔ Document 5000 v (untilNul text))
      ∧ (load text = .error .malformed ↔ ¬ ∃ v, Document 5000 v (untilNul text))
      ∧ ∀ n m v v', Document n v (untilNul text) → Document m v' (untilNul text) → v = v' :=
  ⟨fun _ => load_ok_iff, load_error_iff, fun _ _ _ _ => document_unique⟩

end Texts

end ApiSyncer.Crow
