/-
  ApiSyncer.Crow.Lexical
  ──────────────────────
  **WHICH TEXTS ARE STRINGS AND NUMBERS FOR CROW.**

  A string is made of pieces: a character that stands for itself, a backslash
  sequence of two characters, or a code of four hexadecimal digits.  The states
  of `decode_number` accept

      number = ["-"] ( "0" [ "." digits [exp] ] | 1-9 digits [ "." digits ] [exp] )
      exp    = ( "e" | "E" ) ( "+" | "-" | digit ) digits

  where `digits` may be empty: `1.` and `1e-` are numbers here, and neither `01`
  nor `0e5` is.

      decodeString_sound, decodeString_complete
      unescape_pieces      unescaping goes piece by piece
      decodeNumber_iff     the longest run of number characters, if it is one
-/
import ApiSyncer.Crow.Json
import Mathlib.Tactic.Tauto

namespace ApiSyncer.Crow

open ApiSyncer.Lib

/-! ## §1. Strings. -/

/-- One piece of the text between two quotes. -/
inductive Piece where
  | plain (c : Char) (h : c ≠ '"' ∧ c ≠ '\\' ∧ c ≠ '\x00')
  | simple (c : Char) (h : c ∈ simpleEscapes)
  | code (a b c d : Char)
      (h : isHex a = Bool.true ∧ isHex b = Bool.true ∧ isHex c = Bool.true ∧ isHex d = Bool.true)

namespace Piece

def text : Piece → List Char
  | plain c _ => [c]
  | simple c _ => ['\\', c]
  | code a b c d _ => ['\\', 'u', a, b, c, d]

/-- What the piece stands for. -/
def value : Piece → List Char
  | plain c _ => [c]
  | simple c _ => unescapeChar c
  | code a b c d _ =>
      encode (fromHex a <<< 12 + fromHex b <<< 8 + fromHex c <<< 4 + fromHex d)

end Piece

/-- The text of a string, without its quotes. -/
def StringText (raw : List Char) : Prop := ∃ ps : List Piece, raw = ps.flatMap Piece.text

section Strings

variable {c : Char} {text raw rest : List Char} {ps : List Piece}

theorem simple_ne_u (h : c ∈ simpleEscapes) : c ≠ 'u' := by
  rintro rfl
  revert h
  decide

theorem loop_plain (h : c ≠ '"' ∧ c ≠ '\\' ∧ c ≠ '\x00') :
    decodeString.loop (c :: rest)
      = (decodeString.loop rest).map fun r => (c :: r.1, r.2) := by
  obtain ⟨hq, hb, hn⟩ := h
  rw [decodeString.loop.eq_def]
  split <;> simp_all

theorem loop_simple (h : c ∈ simpleEscapes) :
    decodeString.loop ('\\' :: c :: rest)
      = (decodeString.loop rest).map fun r => ('\\' :: c :: r.1, r.2) := by
  have hu := simple_ne_u h
  rw [decodeString.loop.eq_4 _ _ (fun a b d e rest' heq _ => hu heq), if_pos h]

theorem loop_code {a b d : Char}
    (h : isHex a = Bool.true ∧ isHex b = Bool.true ∧ isHex c = Bool.true ∧ isHex d = Bool.true) :
    decodeString.loop ('\\' :: 'u' :: a :: b :: c :: d :: rest)
      = (decodeString.loop rest).map fun r => ('\\' :: 'u' :: a :: b :: c :: d :: r.1, r.2) := by
  obtain ⟨ha, hb, hc, hd⟩ := h
  rw [decodeString.loop.eq_def]
  simp [ha, hb, hc, hd]

theorem loop_piece (p : Piece) :
    decodeString.loop (p.text ++ rest)
      = (decodeString.loop rest).map fun r => (p.text ++ r.1, r.2) := by
  cases p with
  | plain c h => exact loop_plain h
  | simple c h => exact loop_simple h
  | code a b c d h => exact loop_code h

theorem loop_pieces (ps : List Piece) :
    decodeString.loop (ps.flatMap Piece.text ++ '"' :: rest)
      = .ok (ps.flatMap Piece.text, rest) := by
  induction ps with
  | nil => simp [decodeString.loop]
  | cons p ps ih =>
      rw [List.flatMap_cons, List.append_assoc, loop_piece, ih]
      rfl

/-- What the loop has taken is made of pieces. -/
theorem loop_sound (h : decodeString.loop text = .ok (raw, rest)) :
    StringText raw ∧ text = raw ++ '"' :: rest := by
  fun_induction decodeString.loop text generalizing raw with
  | case1 => cases h
  | case2 rest' =>
      cases h
      exact ⟨⟨[], rfl⟩, rfl⟩
  | case3 a b c d rest' hhex ih =>
      obtain ⟨⟨raw', rest''⟩, hread, heq⟩ := map_eq_ok.mp h
      cases heq
      obtain ⟨⟨ps, hps⟩, htext⟩ := ih hread
      simp only [Bool.and_eq_true] at hhex
      obtain ⟨⟨⟨ha, hb⟩, hc⟩, hd⟩ := hhex
      refine ⟨⟨.code a b c d ⟨ha, hb, hc, hd⟩ :: ps, ?_⟩, ?_⟩
      · rw [List.flatMap_cons, ← hps]
        rfl
      · rw [htext]
        rfl
  | case4 => cases h
  | case5 c rest' _ hsimple ih =>
      obtain ⟨⟨raw', rest''⟩, hread, heq⟩ := map_eq_ok.mp h
      cases heq
      obtain ⟨⟨ps, hps⟩, htext⟩ := ih hread
      refine ⟨⟨.simple c hsimple :: ps, ?_⟩, ?_⟩
      · rw [List.flatMap_cons, ← hps]
        rfl
      · rw [htext]
        rfl
  | case6 => cases h
  | case7 => cases h
  | case8 c rest' hq _ _ hplain ih =>
      obtain ⟨⟨raw', rest''⟩, hread, heq⟩ := map_eq_ok.mp h
      cases heq
      obtain ⟨⟨ps, hps⟩, htext⟩ := ih hread
      simp only [Bool.or_eq_true, decide_eq_true_eq, not_or] at hplain
      refine ⟨⟨.plain c ⟨hq, hplain.1, hplain.2⟩ :: ps, ?_⟩, ?_⟩
      · rw [List.flatMap_cons, ← hps]
        rfl
      · rw [htext]
        rfl

/-! ### Reading a string. -/

theorem decodeString_sound (h : decodeString text = .ok (raw, rest)) :
    StringText raw ∧ text = '"' :: (raw ++ '"' :: rest) := by
  unfold decodeString at h
  split at h
  next text' =>
      obtain ⟨hraw, htext⟩ := loop_sound h
      exact ⟨hraw, by rw [htext]⟩
  next => cases h

theorem decodeString_complete (h : StringText raw) :
    decodeString ('"' :: (raw ++ '"' :: rest)) = .ok (raw, rest) := by
  obtain ⟨ps, rfl⟩ := h
  exact loop_pieces ps

/-! ### The value of a string. -/

theorem unescape_piece (p : Piece) : unescape (p.text ++ rest) = p.value ++ unescape rest := by
  cases p with
  | plain c h =>
      show unescape (c :: rest) = c :: unescape rest
      rw [unescape.eq_4 _ _ (fun _ _ _ _ _ heq _ => h.2.1 heq) (fun _ _ heq _ => h.2.1 heq)]
  | simple c h =>
      have hu := simple_ne_u h
      show unescape ('\\' :: c :: rest) = _
      rw [unescape.eq_3 _ _ (fun _ _ _ _ _ heq _ => hu heq)]
      rfl
  | code a b c d h => exact unescape.eq_2 a b c d rest

/-- **Unescaping goes piece by piece.** -/
theorem unescape_pieces (ps : List Piece) :
    unescape (ps.flatMap Piece.text) = ps.flatMap Piece.value := by
  induction ps with
  | nil => rfl
  | cons p ps ih =>
      rw [List.flatMap_cons, unescape_piece, ih]
      rfl

/-- Without a backslash there is nothing to unescape. -/
theorem unescape_eq_self (h : '\\' ∉ raw) : unescape raw = raw := by
  induction raw with
  | nil => rfl
  | cons c raw ih =>
      rw [List.mem_cons, not_or] at h
      have hc : c ≠ '\\' := fun heq => h.1 heq.symm
      rw [unescape.eq_4 _ _ (fun _ _ _ _ _ heq _ => hc heq) (fun _ _ heq _ => hc heq), ih h.2]

/-- The flag for escapes saves work and changes nothing. -/
theorem stringValue_eq (raw : List Char) : stringValue raw = unescape raw := by
  unfold stringValue
  split
  next => rfl
  next h => exact (unescape_eq_self h).symm

theorem Piece.nul_notMem (p : Piece) : '\x00' ∉ p.text := by
  have hsimple : ∀ c ∈ simpleEscapes, c ≠ '\x00' := by simp [simpleEscapes]
  have hhex : ∀ c, isHex c = Bool.true → c ≠ '\x00' := by
    rintro c hc rfl
    revert hc
    decide
  cases p with
  | plain c h => simpa [text] using fun heq => h.2.2 heq.symm
  | simple c h => simpa [text] using fun heq => hsimple c h heq.symm
  | code a b c d h =>
      obtain ⟨ha, hb, hc, hd⟩ := h
      simpa [text] using ⟨fun heq => hhex a ha heq.symm, fun heq => hhex b hb heq.symm,
        fun heq => hhex c hc heq.symm, fun heq => hhex d hd heq.symm⟩

theorem StringText.nul_notMem (h : StringText raw) : '\x00' ∉ raw := by
  obtain ⟨ps, rfl⟩ := h
  intro hmem
  obtain ⟨p, -, hp⟩ := List.mem_flatMap.mp hmem
  exact p.nul_notMem hp

end Strings

/-! ## §2. Numbers. -/

/-- Digits, and then a text of `X`. -/
def DigitsThen (X : List Char → Prop) (l : List Char) : Prop :=
  ∃ ds r, l = ds ++ r ∧ (∀ d ∈ ds, isDigit d = Bool.true) ∧ X r

def Digits : List Char → Prop := DigitsThen (· = [])

/-- After the `e` of an exponent: a sign or a digit, and digits. -/
def AfterE (l : List Char) : Prop :=
  ∃ c r, l = c :: r ∧ (c = '+' ∨ c = '-' ∨ isDigit c = Bool.true) ∧ Digits r

/-- Nothing or an exponent. -/
def Exponent (l : List Char) : Prop := l = [] ∨ ∃ c r, l = c :: r ∧ (c = 'e' ∨ c = 'E') ∧ AfterE r

def AfterPoint : List Char → Prop := DigitsThen Exponent

/-- Nothing or a point, digits and perhaps an exponent. -/
def Decimals (l : List Char) : Prop := l = [] ∨ ∃ r, l = '.' :: r ∧ AfterPoint r

def AfterDigits : List Char → Prop := DigitsThen fun l => Exponent l ∨ Decimals l

/-- A zero, or digits that start with another one, and what follows them. -/
def Unsigned (l : List Char) : Prop :=
  (∃ r, l = '0' :: r ∧ Decimals r)
    ∨ ∃ c r, l = c :: r ∧ (isDigit c = Bool.true ∧ c ≠ '0') ∧ AfterDigits r

def NumberText (l : List Char) : Prop := Unsigned l ∨ ∃ r, l = '-' :: r ∧ Unsigned r

namespace NumberParsingState

/-- What may follow a state. -/
def Lang : NumberParsingState → List Char → Prop
  | Minus => NumberText
  | AfterMinus => Unsigned
  | ZeroFirst => Decimals
  | Digits => AfterDigits
  | DigitsAfterPoints => AfterPoint
  | E => AfterE
  | DigitsAfterE => Crow.Digits
  | Invalid => fun _ => False

end NumberParsingState

/-! ### The first character. -/

section Cons

variable {X : List Char → Prop} {c : Char} {l : List Char}

theorem exists_cons_iff {P : Char → List Char → Prop} :
    (∃ x r, c :: l = x :: r ∧ P x r) ↔ P c l := by
  constructor
  · rintro ⟨x, r, heq, h⟩
    obtain ⟨rfl, rfl⟩ := List.cons.inj heq
    exact h
  · intro h
    exact ⟨c, l, rfl, h⟩

theorem exists_tail_iff {P : List Char → Prop} {d : Char} :
    (∃ r, c :: l = d :: r ∧ P r) ↔ c = d ∧ P l := by
  constructor
  · rintro ⟨r, heq, h⟩
    obtain ⟨rfl, rfl⟩ := List.cons.inj heq
    exact ⟨rfl, h⟩
  · rintro ⟨rfl, h⟩
    exact ⟨l, rfl, h⟩

theorem digitsThen_nil : DigitsThen X [] ↔ X [] := by
  constructor
  · rintro ⟨ds, r, heq, -, h⟩
    obtain ⟨rfl, rfl⟩ := List.append_eq_nil_iff.mp heq.symm
    exact h
  · intro h
    exact ⟨[], [], rfl, by simp, h⟩

/-- A digit is taken, or the digits are over. -/
theorem digitsThen_cons :
    DigitsThen X (c :: l) ↔ isDigit c = Bool.true ∧ DigitsThen X l ∨ X (c :: l) := by
  constructor
  · rintro ⟨ds, r, heq, hds, h⟩
    cases ds with
    | nil =>
        right
        rw [heq]
        exact h
    | cons d ds =>
        obtain ⟨rfl, rfl⟩ := List.cons.inj heq
        left
        exact ⟨hds c List.mem_cons_self, ds, r, rfl,
          fun d hd => hds d (List.mem_cons_of_mem _ hd), h⟩
  · rintro (⟨hc, ds, r, rfl, hds, h⟩ | h)
    · refine ⟨c :: ds, r, rfl, fun d hd => ?_, h⟩
      rcases List.mem_cons.mp hd with rfl | hd
      · exact hc
      · exact hds d hd
    · exact ⟨[], c :: l, rfl, by simp, h⟩

@[simp] theorem digits_cons : Digits (c :: l) ↔ isDigit c = Bool.true ∧ Digits l := by
  unfold Digits
  rw [digitsThen_cons]
  simp

@[simp] theorem afterE_cons :
    AfterE (c :: l) ↔ (c = '+' ∨ c = '-' ∨ isDigit c = Bool.true) ∧ Digits l := exists_cons_iff

theorem exponent_cons : Exponent (c :: l) ↔ (c = 'e' ∨ c = 'E') ∧ AfterE l := by
  unfold Exponent
  rw [exists_cons_iff]
  simp

@[simp] theorem decimals_cons : Decimals (c :: l) ↔ c = '.' ∧ AfterPoint l := by
  unfold Decimals
  rw [exists_tail_iff]
  simp

@[simp] theorem afterPoint_cons : AfterPoint (c :: l)
    ↔ isDigit c = Bool.true ∧ AfterPoint l ∨ (c = 'e' ∨ c = 'E') ∧ AfterE l := by
  unfold AfterPoint
  rw [digitsThen_cons, exponent_cons]

@[simp] theorem afterDigits_cons : AfterDigits (c :: l)
    ↔ isDigit c = Bool.true ∧ AfterDigits l
      ∨ (c = 'e' ∨ c = 'E') ∧ AfterE l ∨ c = '.' ∧ AfterPoint l := by
  unfold AfterDigits
  rw [digitsThen_cons, exponent_cons, decimals_cons]

@[simp] theorem unsigned_cons : Unsigned (c :: l)
    ↔ c = '0' ∧ Decimals l ∨ (isDigit c = Bool.true ∧ c ≠ '0') ∧ AfterDigits l := by
  unfold Unsigned
  rw [exists_tail_iff, exists_cons_iff]

@[simp] theorem numberText_cons : NumberText (c :: l) ↔ Unsigned (c :: l) ∨ c = '-' ∧ Unsigned l := by
  unfold NumberText
  rw [exists_tail_iff]

end Cons

/-! ### The states accept the grammar. -/

/-- A character of the default case. -/
structure Other (c : Char) : Prop where
  digit : isDigit c = Bool.false
  point : c ≠ '.'
  minus : c ≠ '-'
  plus : c ≠ '+'
  e : c ≠ 'e'
  E : c ≠ 'E'

namespace NumberParsingState

variable {state : NumberParsingState} {c : Char} {l : List Char}

/-- The cases of the switch. -/
theorem switch_cases (c : Char) :
    c = '0' ∨ (isDigit c = Bool.true ∧ c ≠ '0') ∨ c = '.' ∨ c = '-' ∨ c = '+' ∨ c = 'e' ∨ c = 'E'
      ∨ Other c := by
  by_cases hother : Other c
  · tauto
  · by_cases hdigit : isDigit c = Bool.true
    · tauto
    · have : ¬ (c ≠ '.' ∧ c ≠ '-' ∧ c ≠ '+' ∧ c ≠ 'e' ∧ c ≠ 'E') := by
        rintro ⟨hpoint, hminus, hplus, he, hE⟩
        exact hother ⟨by simpa using hdigit, hpoint, hminus, hplus, he, hE⟩
      tauto

theorem isDigit_iff : isDigit c = Bool.true ↔ c = '0' ∨ '1' ≤ c ∧ c ≤ '9' := by
  have hone : ('1' ≤ c) ↔ 49 ≤ c.toNat := Iff.rfl
  have hzero : ('0' ≤ c) ↔ 48 ≤ c.toNat := Iff.rfl
  have hnine : (c ≤ '9') ↔ c.toNat ≤ 57 := Iff.rfl
  have heq : c = '0' ↔ c.toNat = 48 := by
    rw [← Char.toNat_inj]
    rfl
  unfold isDigit
  rw [Bool.and_eq_true, decide_eq_true_eq, decide_eq_true_eq, hone, hzero, hnine, heq]
  omega

theorem next_digit (hdigit : isDigit c = Bool.true) (hzero : c ≠ '0') :
    state.next c = some state.onDigit := by
  have hrange := (isDigit_iff.mp hdigit).resolve_left hzero
  unfold next
  rw [if_neg hzero, if_pos (by simpa using hrange)]

theorem next_other (h : Other c) : state.next c = none := by
  have hdigit : ¬ (c = '0' ∨ '1' ≤ c ∧ c ≤ '9') := by
    rw [← isDigit_iff, h.digit]
    simp
  rw [not_or] at hdigit
  unfold next
  rw [if_neg hdigit.1, if_neg (by simpa using hdigit.2), if_neg h.point, if_neg h.minus,
    if_neg h.plus, if_neg (by simp [h.e, h.E])]

theorem digit_ne (h : isDigit c = Bool.true) :
    c ≠ '.' ∧ c ≠ '-' ∧ c ≠ '+' ∧ c ≠ 'e' ∧ c ≠ 'E' := by
  refine ⟨?_, ?_, ?_, ?_, ?_⟩ <;> (rintro rfl; revert h; decide)

/-- **What may follow a state, taken apart at its first character, is the step
of the switch.** -/
theorem lang_cons : state.Lang (c :: l) ↔ ∃ next, state.next c = some next ∧ next.Lang l := by
  rcases switch_cases c with rfl | ⟨hdigit, hzero⟩ | rfl | rfl | rfl | rfl | rfl | hother
  · have hdigit : isDigit '0' = Bool.true := by decide
    show _ ↔ ∃ next, some state.onZero = some next ∧ next.Lang l
    cases state <;>
      simp [Lang, onZero, hdigit]
  · obtain ⟨hpoint, hminus, hplus, he, hE⟩ := digit_ne hdigit
    rw [next_digit hdigit hzero]
    cases state <;>
      simp [Lang, onDigit, hdigit, hzero, hpoint, hminus, he, hE]
  · have hdigit : isDigit '.' = Bool.false := by decide
    show _ ↔ ∃ next, some state.onPoint = some next ∧ next.Lang l
    cases state <;>
      simp [Lang, onPoint, hdigit]
  · have hdigit : isDigit '-' = Bool.false := by decide
    show _ ↔ ∃ next, some state.onMinus = some next ∧ next.Lang l
    cases state <;>
      simp [Lang, onMinus, hdigit]
  · have hdigit : isDigit '+' = Bool.false := by decide
    show _ ↔ ∃ next, some state.onPlus = some next ∧ next.Lang l
    cases state <;>
      simp [Lang, onPlus, hdigit]
  · have hdigit : isDigit 'e' = Bool.false := by decide
    show _ ↔ ∃ next, some state.onE = some next ∧ next.Lang l
    cases state <;>
      simp [Lang, onE, hdigit]
  · have hdigit : isDigit 'E' = Bool.false := by decide
    show _ ↔ ∃ next, some state.onE = some next ∧ next.Lang l
    cases state <;>
      simp [Lang, onE, hdigit]
  · have hzero : c ≠ '0' := by
      rintro rfl
      exact absurd hother.digit (by decide)
    rw [next_other hother]
    cases state <;>
      simp [Lang, hzero, hother.digit, hother.point, hother.minus, hother.plus, hother.e, hother.E]

/-- A number may end where the default case makes one. -/
theorem lang_nil : state.Lang [] ↔ state.accepts = Bool.true := by
  cases state <;>
    simp [Lang, accepts, Crow.Digits, AfterE, AfterPoint, AfterDigits, Decimals, Exponent, Unsigned,
      NumberText, digitsThen_nil]

theorem other_of_next (h : state.next c = none) : Other c := by
  rcases switch_cases c with rfl | ⟨hdigit, hzero⟩ | rfl | rfl | rfl | rfl | rfl | hother
  · cases h
  · rw [next_digit hdigit hzero] at h
    cases h
  · cases h
  · cases h
  · cases h
  · cases h
  · cases h
  · exact hother

/-- The state after a digit other than zero stays as it is while digits follow. -/
theorem onDigit_settled {d : Char} (hd : isDigit d = Bool.true) : state.onDigit.next d = some state.onDigit := by
  by_cases hzero : d = '0'
  · subst hzero
    show some state.onDigit.onZero = _
    cases state <;> rfl
  · rw [next_digit hd hzero]
    cases state <;> rfl

end NumberParsingState

/-- A number has no character of the default case. -/
theorem NumberText.forall_mem {t : List Char} (h : NumberText t) : ∀ c ∈ t, ¬ Other c := by
  have hlang : ∀ {t : List Char} {state : NumberParsingState}, state.Lang t →
      ∀ c ∈ t, ¬ Other c := by
    intro t
    induction t with
    | nil => simp
    | cons d t ih =>
        intro state h
        obtain ⟨next, hnext, htail⟩ := NumberParsingState.lang_cons.mp h
        rw [List.forall_mem_cons]
        refine ⟨fun hother => ?_, ih htail⟩
        rw [NumberParsingState.next_other hother] at hnext
        cases hnext
  exact @hlang t .Minus h

/-! ### Reading a number. -/

/-- No character of a number follows. -/
def Stops (rest : List Char) : Prop := ∀ c r, rest = c :: r → Other c

section Loop

open NumberParsingState

variable {state next : NumberParsingState} {skipping : Bool} {c : Char}
  {text t rest : List Char}

/-- A step of the loop to a valid state. -/
theorem loop_step (passing : Bool) (hnext : state.next c = some next)
    (hloop : decodeNumber.loop state skipping (c :: text)
      = (decodeNumber.loop next passing text).map fun r => (c :: r.1, r.2))
    (ih : ∀ {t rest}, decodeNumber.loop next passing text = .ok (t, rest)
      ↔ text = t ++ rest ∧ next.Lang t ∧ Stops rest) :
    decodeNumber.loop state skipping (c :: text) = .ok (t, rest)
      ↔ c :: text = t ++ rest ∧ state.Lang t ∧ Stops rest := by
  rw [hloop, map_eq_ok]
  constructor
  · rintro ⟨⟨t', rest'⟩, hread, heq⟩
    cases heq
    obtain ⟨rfl, hlang, hstops⟩ := ih.mp hread
    exact ⟨rfl, lang_cons.mpr ⟨next, hnext, hlang⟩, hstops⟩
  · rintro ⟨htext, hlang, hstops⟩
    cases t with
    | nil =>
        -- a number character follows
        have hother := hstops c text htext.symm
        rw [next_other hother] at hnext
        cases hnext
    | cons d t =>
        obtain ⟨rfl, rfl⟩ := List.cons.inj htext
        obtain ⟨next', hnext', hlang⟩ := lang_cons.mp hlang
        obtain rfl : next = next' := Option.some.inj (hnext.symm.trans hnext')
        exact ⟨(t, rest), ih.mpr ⟨rfl, hlang, hstops⟩, rfl⟩

/-- **The loop takes a text of the state, up to where no number character
follows**, also while it passes over digits. -/
theorem loop_iff (hvalid : state ≠ Invalid)
    (hsettled : skipping = Bool.true → ∀ d, isDigit d = Bool.true → state.next d = some state) :
    decodeNumber.loop state skipping text = .ok (t, rest)
      ↔ text = t ++ rest ∧ state.Lang t ∧ Stops rest := by
  induction text generalizing state skipping t rest with
  | nil =>
      rw [List.nil_eq_append_iff]
      show (if state.accepts = Bool.true then _ else _) = _ ↔ _
      constructor
      · intro h
        split at h
        next hacc =>
            cases h
            exact ⟨⟨rfl, rfl⟩, lang_nil.mpr hacc, fun c r heq => by cases heq⟩
        next => cases h
      · rintro ⟨⟨rfl, rfl⟩, hlang, -⟩
        rw [if_pos (lang_nil.mp hlang)]
  | cons c text ih =>
      by_cases hskip : (skipping && isDigit c) = Bool.true
      -- a digit that is passed over stays in its state
      · obtain ⟨hs, hdigit⟩ := Bool.and_eq_true_iff.mp hskip
        refine loop_step Bool.true (hsettled hs c hdigit) ?_ (ih hvalid fun _ => hsettled hs)
        rw [decodeNumber.loop, if_pos hskip]
      · rcases hnext : state.next c with _ | next
        -- the default case: the number ends here, or nowhere
        · have hloop : decodeNumber.loop state skipping (c :: text)
              = if state.accepts then .ok ([], c :: text) else .error .malformed := by
            rw [decodeNumber.loop, if_neg hskip, hnext]
          rw [hloop]
          constructor
          · intro h
            split at h
            next hacc =>
                cases h
                refine ⟨rfl, lang_nil.mpr hacc, fun c' r heq => ?_⟩
                obtain ⟨rfl, rfl⟩ := List.cons.inj heq
                exact other_of_next hnext
            next => cases h
          · rintro ⟨htext, hlang, -⟩
            cases t with
            | nil =>
                obtain rfl := htext
                rw [if_pos (lang_nil.mp hlang)]
            | cons d t =>
                obtain ⟨rfl, -⟩ := List.cons.inj htext
                obtain ⟨next', hnext', -⟩ := lang_cons.mp hlang
                rw [hnext] at hnext'
                cases hnext'
        · by_cases hinvalid : next = Invalid
          -- no word of the language starts so
          · subst hinvalid
            have hloop : decodeNumber.loop state skipping (c :: text) = .error .malformed := by
              rw [decodeNumber.loop, if_neg hskip, hnext]
            rw [hloop]
            constructor
            · intro h
              cases h
            · rintro ⟨htext, hlang, hstops⟩
              cases t with
              | nil =>
                  rw [next_other (hstops c text htext.symm)] at hnext
                  cases hnext
              | cons d t =>
                  obtain ⟨rfl, -⟩ := List.cons.inj htext
                  obtain ⟨next', hnext', hlang⟩ := lang_cons.mp hlang
                  rw [hnext] at hnext'
                  cases hnext'
                  exact hlang.elim
          · refine loop_step ('1' ≤ c && c ≤ '9') hnext ?_ (ih hinvalid fun hd d hdigit => ?_)
            · rw [decodeNumber.loop, if_neg hskip, hnext]
              cases next <;> first | rfl | exact absurd rfl hinvalid
            · -- a digit other than zero brought the loop here
              have hrange : '1' ≤ c ∧ c ≤ '9' := by simpa using hd
              have hc : c ≠ '0' := by
                rintro rfl
                exact absurd hrange.1 (by decide)
              rw [next_digit (isDigit_iff.mpr (Or.inr hrange)) hc] at hnext
              obtain rfl := Option.some.inj hnext
              exact onDigit_settled hdigit

end Loop

/-- **A number is read exactly where a text of the grammar stands that no
further number character follows.** -/
theorem decodeNumber_iff {text t rest : List Char} :
    decodeNumber text = .ok (t, rest) ↔ text = t ++ rest ∧ NumberText t ∧ Stops rest :=
  loop_iff (by simp) (by simp)

end ApiSyncer.Crow
