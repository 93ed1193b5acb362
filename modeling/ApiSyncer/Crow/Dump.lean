/-
  ApiSyncer.Crow.Dump
  ───────────────────
  **CROW'S WRITER OF JSON, AND READING BACK WHAT IT WROTE.**

  `dump` writes a value without blanks.  It has no bound on the depth and the
  parser has: what is written is read back up to 5000 levels and refused
  beyond.

      unescape_escape      a string comes back as it was
      phrase_dump_iff      what is written is a text of what was written
      load_dump            read back up to 5000 levels, refused beyond
-/
import ApiSyncer.Crow.Grammar

namespace ApiSyncer.Crow

open ApiSyncer.Lib

/-! ## §1. The writer. -/

/-- A `wvalue`.  The members of an object stand in the order in which the
iteration meets them. -/
inductive WValue where
  | null
  | true
  | false
  | int (value : Int)
  | string (value : List Char)
  | list (items : List WValue)
  | object (members : List (List Char × WValue))

/-- `char to_hex(char c)`, of the low four bits. -/
def toHex (n : Nat) : Char :=
  if n % 16 < 10 then Char.ofNat ('0'.toNat + n % 16) else Char.ofNat ('a'.toNat + n % 16 - 10)

/-- The switch of `escape`. -/
def escapeChar : Char → List Char
  | '"' => ['\\', '"']
  | '\\' => ['\\', '\\']
  | '\n' => ['\\', 'n']
  | '\x08' => ['\\', 'b']
  | '\x0c' => ['\\', 'f']
  | '\r' => ['\\', 'r']
  | '\t' => ['\\', 't']
  | c => if c.toNat < 0x20 then ['\\', 'u', '0', '0', toHex (c.toNat / 16), toHex (c.toNat % 16)]
      else [c]

/-- `std::string escape(const std::string& str)`. -/
def escape (str : List Char) : List Char := str.flatMap escapeChar

/-- `void dump_string(const std::string& str, std::string& out)`. -/
def dumpString (str : List Char) : List Char := '"' :: (escape str ++ ['"'])

/-- `std::to_string`. -/
def toString : Int → List Char
  | .ofNat n => Nat.toDigits 10 n
  | .negSucc n => '-' :: Nat.toDigits 10 (n + 1)

mutual
/-- `void dump_internal(const wvalue& v, std::string& out)`, without indentation. -/
def dump : WValue → List Char
  | .null => ['n', 'u', 'l', 'l']
  | .true => ['t', 'r', 'u', 'e']
  | .false => ['f', 'a', 'l', 's', 'e']
  | .int value => toString value
  | .string value => dumpString value
  | .list items => '[' :: (dumpItems Bool.true items ++ [']'])
  | .object members => '{' :: (dumpMembers Bool.true members ++ ['}'])
def dumpItems (first : Bool) : List WValue → List Char
  | [] => []
  | v :: vs => (if first then [] else [',']) ++ (dump v ++ dumpItems Bool.false vs)
def dumpMembers (first : Bool) : List (List Char × WValue) → List Char
  | [] => []
  | (key, v) :: ms =>
      (if first then [] else [',']) ++ (dumpString key ++ ':' :: dump v ++ dumpMembers Bool.false ms)
end

mutual
/-- The levels of lists and objects. -/
def WValue.height : WValue → Nat
  | .list items => heightItems items + 1
  | .object members => heightMembers members + 1
  | _ => 0
def WValue.heightItems : List WValue → Nat
  | [] => 0
  | v :: vs => max (height v) (heightItems vs)
def WValue.heightMembers : List (List Char × WValue) → Nat
  | [] => 0
  | (_, v) :: ms => max (height v) (heightMembers ms)
end

mutual
/-- What the parser makes of a written value. -/
def WValue.readBack : WValue → RValue
  | .null => .null
  | .true => .true
  | .false => .false
  | .int value => .number (toString value)
  | .string value => .string (escape value)
  | .list items => .list (readBackItems items)
  | .object members => .object (readBackMembers members)
def WValue.readBackItems : List WValue → List RValue
  | [] => []
  | v :: vs => readBack v :: readBackItems vs
def WValue.readBackMembers : List (List Char × WValue) → List (List Char × RValue)
  | [] => []
  | (key, v) :: ms => (key, readBack v) :: readBackMembers ms
end

/-! ## §2. Strings. -/

section Strings

variable {c : Char} {str : List Char}

theorem isHex_toHex {n : Nat} (h : n < 16) : isHex (toHex n) = Bool.true := by
  revert n
  decide

/-- The code of a control character stands for the character. -/
theorem encode_control {n : Nat} (h : n < 0x20) :
    encode (fromHex '0' <<< 12 + fromHex '0' <<< 8 + fromHex (toHex (n / 16)) <<< 4
      + fromHex (toHex (n % 16))) = [Char.ofNat n] := by
  revert n
  decide

/-- **Every character is written as one piece that stands for it.** -/
theorem exists_piece (c : Char) : ∃ p : Piece, p.text = escapeChar c ∧ p.value = [c] := by
  unfold escapeChar
  split
  · exact ⟨.simple '"' (by decide), rfl, rfl⟩
  · exact ⟨.simple '\\' (by decide), rfl, rfl⟩
  · exact ⟨.simple 'n' (by decide), rfl, rfl⟩
  · exact ⟨.simple 'b' (by decide), rfl, rfl⟩
  · exact ⟨.simple 'f' (by decide), rfl, rfl⟩
  · exact ⟨.simple 'r' (by decide), rfl, rfl⟩
  · exact ⟨.simple 't' (by decide), rfl, rfl⟩
  next hquote hback _ _ _ _ _ =>
      split
      next hcontrol =>
          have hhigh : isHex (toHex (c.toNat / 16)) = Bool.true := isHex_toHex (by omega)
          have hlow : isHex (toHex (c.toNat % 16)) = Bool.true := isHex_toHex (by omega)
          refine ⟨.code '0' '0' _ _ ⟨by decide, by decide, hhigh, hlow⟩, rfl, ?_⟩
          show encode _ = [c]
          rw [encode_control hcontrol, Char.ofNat_toNat]
      next hcontrol =>
          refine ⟨.plain c ⟨hquote, hback, ?_⟩, rfl, rfl⟩
          rintro rfl
          exact hcontrol (by decide)

theorem exists_pieces (str : List Char) :
    ∃ ps : List Piece, escape str = ps.flatMap Piece.text ∧ ps.flatMap Piece.value = str := by
  induction str with
  | nil => exact ⟨[], rfl, rfl⟩
  | cons c str ih =>
      obtain ⟨p, htext, hvalue⟩ := exists_piece c
      obtain ⟨ps, htexts, hvalues⟩ := ih
      refine ⟨p :: ps, ?_, ?_⟩
      · unfold escape at htexts ⊢
        rw [List.flatMap_cons, List.flatMap_cons, htexts, htext]
      · rw [List.flatMap_cons, hvalue, hvalues]
        rfl

theorem stringText_escape (str : List Char) : StringText (escape str) := by
  obtain ⟨ps, htexts, -⟩ := exists_pieces str
  exact ⟨ps, htexts⟩

/-- **A written string comes back as it was.** -/
theorem unescape_escape (str : List Char) : unescape (escape str) = str := by
  obtain ⟨ps, htexts, hvalues⟩ := exists_pieces str
  rw [htexts, unescape_pieces, hvalues]

end Strings

/-! ## §3. Numbers. -/

section Numbers

theorem isDigit_digitChar {n : Nat} (h : n < 10) : isDigit n.digitChar = Bool.true := by
  revert n
  decide

theorem digitChar_ne_zero {n : Nat} (h : n < 10) (hpos : 0 < n) : n.digitChar ≠ '0' := by
  intro heq
  have := Nat.toNat_digitChar_of_lt_ten h
  rw [heq] at this
  have hzero : '0'.toNat = 48 := rfl
  omega

/-- The digits of a positive number start with one that is not zero. -/
theorem toDigits_pos {n : Nat} (hpos : 0 < n) :
    ∃ c r, Nat.toDigits 10 n = c :: r ∧ (isDigit c = Bool.true ∧ c ≠ '0')
      ∧ ∀ d ∈ r, isDigit d = Bool.true := by
  induction n using Nat.strong_induction_on with
  | _ n ih =>
      by_cases hsmall : n < 10
      · rw [Nat.toDigits_of_lt_base hsmall]
        exact ⟨_, [], rfl, ⟨isDigit_digitChar hsmall, digitChar_ne_zero hsmall hpos⟩, by simp⟩
      · have hlast : n % 10 < 10 := Nat.mod_lt _ (by omega)
        obtain ⟨c, r, heq, hc, hr⟩ := ih (n / 10) (by omega) (by omega)
        rw [Nat.toDigits_of_base_le (by omega) (by omega), heq]
        refine ⟨c, r ++ [(n % 10).digitChar], rfl, hc, fun d hd => ?_⟩
        rcases List.mem_append.mp hd with hd | hd
        · exact hr d hd
        · rw [List.mem_singleton.mp hd]
          exact isDigit_digitChar hlast

theorem unsigned_toDigits (n : Nat) : Unsigned (Nat.toDigits 10 n) := by
  rcases Nat.eq_zero_or_pos n with rfl | hpos
  · exact Or.inl ⟨[], rfl, Or.inl rfl⟩
  · obtain ⟨c, r, heq, hc, hr⟩ := toDigits_pos hpos
    rw [heq]
    exact Or.inr ⟨c, r, rfl, hc, r, [], (List.append_nil r).symm, hr, Or.inl (Or.inl rfl)⟩

theorem numberText_toString (v : Int) : NumberText (toString v) := by
  cases v with
  | ofNat n => exact Or.inl (unsigned_toDigits n)
  | negSucc n => exact Or.inr ⟨_, rfl, unsigned_toDigits (n + 1)⟩

end Numbers

/-! ## §4. Values. -/

namespace WValue

/-- Induction over the items and the members. -/
theorem induct {motive : WValue → Prop} (null : motive .null) (true : motive .true)
    (false : motive .false) (int : ∀ value, motive (.int value))
    (string : ∀ value, motive (.string value))
    (list : ∀ items, (∀ v ∈ items, motive v) → motive (.list items))
    (object : ∀ members, (∀ m ∈ members, motive m.2) → motive (.object members)) :
    ∀ w, motive w
  | .null => null
  | .true => true
  | .false => false
  | .int value => int value
  | .string value => string value
  | .list items => list items fun v hv => by
      have := List.sizeOf_lt_of_mem hv
      exact induct null true false int string list object v
  | .object members => object members fun m hm => by
      have := List.sizeOf_lt_of_mem hm
      have : sizeOf m.2 < sizeOf m := by
        obtain ⟨key, v⟩ := m
        show sizeOf v < 1 + sizeOf key + sizeOf v
        omega
      exact induct null true false int string list object m.2
termination_by w => sizeOf w

end WValue

section Lists

variable {n : Nat} {items : List WValue} {members : List (List Char × WValue)}

theorem dumpItems_eq (first : Bool) (items : List WValue) :
    dumpItems first items = layout.joined first (items.map dump) := by
  induction items generalizing first with
  | nil => rfl
  | cons v vs ih =>
      rw [dumpItems, ih]
      rfl

/-- The text of a member. -/
def dumpMember (m : List Char × WValue) : List Char := dumpString m.1 ++ ':' :: dump m.2

theorem dumpMembers_eq (first : Bool) (members : List (List Char × WValue)) :
    dumpMembers first members = layout.joined first (members.map dumpMember) := by
  induction members generalizing first with
  | nil => rfl
  | cons m ms ih =>
      obtain ⟨key, v⟩ := m
      rw [dumpMembers, ih]
      rfl

theorem readBackItems_eq (items : List WValue) :
    WValue.readBackItems items = items.map WValue.readBack := by
  induction items with
  | nil => rfl
  | cons v vs ih =>
      rw [WValue.readBackItems, ih]
      rfl

theorem readBackMembers_eq (members : List (List Char × WValue)) :
    WValue.readBackMembers members = members.map fun m => (m.1, m.2.readBack) := by
  induction members with
  | nil => rfl
  | cons m ms ih =>
      obtain ⟨key, v⟩ := m
      rw [WValue.readBackMembers, ih]
      rfl

theorem heightItems_le : WValue.heightItems items ≤ n ↔ ∀ v ∈ items, v.height ≤ n := by
  induction items with
  | nil => simp [WValue.heightItems]
  | cons v vs ih => rw [WValue.heightItems, Nat.max_le, ih, List.forall_mem_cons]

theorem heightMembers_le : WValue.heightMembers members ≤ n ↔ ∀ m ∈ members, m.2.height ≤ n := by
  induction members with
  | nil => simp [WValue.heightMembers]
  | cons m ms ih =>
      obtain ⟨key, v⟩ := m
      rw [WValue.heightMembers, Nat.max_le, ih, List.forall_mem_cons]

theorem forall₂_map {α β γ : Type} {R : β → γ → Prop} {f : α → β} {g : α → γ} {l : List α}
    (h : ∀ a ∈ l, R (f a) (g a)) : List.Forall₂ R (l.map f) (l.map g) := by
  rw [List.forall₂_map_left_iff, List.forall₂_map_right_iff, List.forall₂_same]
  exact h

end Lists

/-! ## §5. What is written is a text of what was written. -/

section RoundTrip

variable {n : Nat} {w : WValue} {t : List Char}

theorem phrase_dump (h : w.height ≤ n) : Phrase n w.readBack (dump w) := by
  induction w using WValue.induct generalizing n with
  | null => exact phrase_null.mpr rfl
  | true => exact phrase_true.mpr rfl
  | false => exact phrase_false.mpr rfl
  | int value => exact phrase_number.mpr ⟨rfl, numberText_toString value⟩
  | string value => exact phrase_string.mpr ⟨rfl, stringText_escape value⟩
  | list items ih =>
      rw [WValue.height] at h
      obtain ⟨n, rfl⟩ : ∃ m, n = m + 1 := ⟨n - 1, by omega⟩
      have hitems := heightItems_le.mp (Nat.le_of_succ_le_succ h)
      refine phrase_list.mpr ⟨n, rfl, ?_⟩
      rw [dump, dumpItems_eq, readBackItems_eq]
      exact Layout.bracketed_joined (forall₂_map fun v hv => ih v hv (hitems v hv))
  | object members ih =>
      rw [WValue.height] at h
      obtain ⟨n, rfl⟩ : ∃ m, n = m + 1 := ⟨n - 1, by omega⟩
      have hmembers := heightMembers_le.mp (Nat.le_of_succ_le_succ h)
      refine phrase_object.mpr ⟨n, rfl, ?_⟩
      rw [dump, dumpMembers_eq, readBackMembers_eq]
      refine Layout.bracketed_joined (forall₂_map fun m hm => ?_)
      refine ⟨escape m.1, [], [], dump m.2, ?_, stringText_escape m.1, Layout.blank_nil,
        Layout.blank_nil, (unescape_escape m.1).symm, ih m hm (hmembers m hm)⟩
      simp [dumpMember, dumpString]

/-- Any text of what was written has as many levels. -/
theorem height_le_of_phrase (h : Phrase n w.readBack t) : w.height ≤ n := by
  induction w using WValue.induct generalizing n t with
  | null => exact Nat.zero_le n
  | true => exact Nat.zero_le n
  | false => exact Nat.zero_le n
  | int value => exact Nat.zero_le n
  | string value => exact Nat.zero_le n
  | list items ih =>
      obtain ⟨m, rfl, hitems⟩ := phrase_list.mp h
      rw [readBackItems_eq] at hitems
      refine Nat.succ_le_succ (heightItems_le.mpr fun v hv => ?_)
      obtain ⟨u, hu⟩ := hitems.exists_text _ (List.mem_map_of_mem hv)
      exact ih v hv hu
  | object members ih =>
      obtain ⟨m, rfl, hmembers⟩ := phrase_object.mp h
      rw [readBackMembers_eq] at hmembers
      refine Nat.succ_le_succ (heightMembers_le.mpr fun m hm => ?_)
      obtain ⟨u, raw, w, w', u', -, -, -, -, -, hu⟩ :=
        hmembers.exists_text _ (List.mem_map_of_mem hm)
      exact ih m hm hu

theorem phrase_dump_iff : Phrase n w.readBack (dump w) ↔ w.height ≤ n :=
  ⟨height_le_of_phrase, phrase_dump⟩

theorem document_dump_iff : Document n w.readBack (dump w) ↔ w.height ≤ n := by
  constructor
  · rintro ⟨pre, body, post, -, -, -, hbody⟩
    exact height_le_of_phrase hbody
  · intro h
    exact ⟨[], dump w, [], (List.append_nil _).symm, Layout.blank_nil, Layout.blank_nil,
      phrase_dump_iff.mpr h⟩

/-- No control character is written. -/
theorem untilNul_dump (w : WValue) : untilNul (dump w) = dump w := by
  have hdoc : Document w.height w.readBack (dump w) := document_dump_iff.mpr (le_refl _)
  have hends : Ended [] := fun c r heq => by cases heq
  have happend := untilNul_append hdoc.ne_nul hends
  rwa [List.append_nil] at happend

/-- **What is written is read back up to 5000 levels, and refused beyond.** -/
theorem load_dump (w : WValue) :
    load (dump w) = if w.height ≤ 5000 then .ok w.readBack else .error .malformed := by
  split
  next h =>
      rw [load_ok_iff, untilNul_dump]
      exact document_dump_iff.mpr h
  next h =>
      rw [load_error_iff, untilNul_dump]
      rintro ⟨v, hdoc⟩
      have hown : Document w.height w.readBack (dump w) := document_dump_iff.mpr (le_refl _)
      obtain rfl := document_unique hdoc hown
      exact h (document_dump_iff.mp hdoc)

end RoundTrip

end ApiSyncer.Crow
