/-
  ApiSyncer.Crow.Access
  ─────────────────────
  **THE ACCESSORS OF A VALUE THAT CROW HAS READ.**

  `has` and `[]` sort the members by key, once, and then look the key up at its
  lower bound.  `std::sort` may put members with one key in any order, and
  whether `char` is signed is up to the platform: the sort is a parameter, and
  for keys that occur once the lookup does not depend on it.  `i()` extracts an
  integer from the text of a number or of a string and ignores what follows it.

  An accessor throws on a value of another type.  It reads a variable that
  nothing was written to when `has` meets a list with items, whose keys nobody
  has set, and when `i()` meets a string of blanks.
-/
import ApiSyncer.Crow.Dump
import ApiSyncer.Lib.SortedLookup
import Mathlib.Data.List.Lex
import Mathlib.Data.List.Nodup
import Mathlib.Data.Int.Order.Basic

namespace ApiSyncer.Crow

open ApiSyncer.Lib

/-! ## §1. Accessors. -/

/-- Why an accessor has no result: it throws a `std::runtime_error`, or its
result is undefined. -/
inductive Failure where
  | thrown
  | undefined
  deriving DecidableEq, Repr

/-- The order of `char` on the platform, and `std::sort` by it. -/
structure MemberSort where
  rank : Char → Int
  rank_injective : Function.Injective rank
  sorting : Sorting fun m : List Char × RValue => m.1.map rank

/-- Unsigned characters, and a stable sort. -/
def MemberSort.unsigned : MemberSort where
  rank c := c.toNat
  rank_injective _ _ h := Char.toNat_inj.mp (Int.ofNat.inj h)
  sorting := .stable _

/-- What `lower_bound` and the comparison after it find among the sorted
members. -/
def MemberSort.find (sort : MemberSort) (str : List Char)
    (members : List (List Char × RValue)) : Option RValue :=
  (lookup (fun m => m.1.map sort.rank) (str.map sort.rank) (sort.sorting.arrange members)).map
    Prod.snd

/-- `std::isspace`. -/
def isSpace (c : Char) : Bool :=
  c = ' ' || c = '\t' || c = '\n' || c = '\x0b' || c = '\x0c' || c = '\r'

/-- The nearest number of 64 bits. -/
def clamp (v : Int) : Int64 :=
  .ofInt (max Int64.minValue.toInt (min v Int64.maxValue.toInt))

/-- The number at the start of the text. -/
def digitsValue (text : List Char) : Nat := Nat.ofDigitChars 10 (text.takeWhile isDigit) 0

/-- `lexical_cast<int64_t>`: a stream extracts the number.  A text of blanks
leaves the result as it was, which is not initialised. -/
def lexicalCast (text : List Char) : Option Int64 :=
  match text.dropWhile isSpace with
  | [] => none
  | c :: rest =>
      if c = '-' then some (clamp (-(digitsValue rest)))
      else if c = '+' then some (clamp (digitsValue rest))
      else some (clamp (digitsValue (c :: rest)))

namespace RValue

/-- `bool has(const std::string& str) const`. -/
def has (sort : MemberSort) (str : List Char) : RValue → Except Failure Bool
  | .object members => .ok (sort.find str members).isSome
  | .list [] => .ok Bool.false
  | .list (_ :: _) => .error .undefined
  | _ => .error .thrown

/-- `const rvalue& operator[](const std::string& str) const`. -/
def index (sort : MemberSort) (str : List Char) : RValue → Except Failure RValue
  | .object members =>
      match sort.find str members with
      | some v => .ok v
      | none => .error .thrown
  | _ => .error .thrown

/-- `detail::r_string s() const`. -/
def s : RValue → Except Failure (List Char)
  | .string raw => .ok (stringValue raw)
  | _ => .error .thrown

/-- `int64_t i() const`, of a string before `s()` has unescaped it. -/
def i : RValue → Except Failure Int64
  | .number text =>
      match lexicalCast text with
      | some v => .ok v
      | none => .error .undefined
  | .string raw =>
      match lexicalCast raw with
      | some v => .ok v
      | none => .error .undefined
  | _ => .error .thrown

end RValue

/-! ## §2. Finding a member. -/

section Find

variable (sort : MemberSort) {str key : List Char} {v : RValue}
  {members : List (List Char × RValue)}

theorem map_rank_inj : key.map sort.rank = str.map sort.rank ↔ key = str :=
  (List.map_injective_iff.mpr sort.rank_injective).eq_iff

/-- What is found is a member under the key. -/
theorem mem_of_find (h : sort.find str members = some v) : (str, v) ∈ members := by
  obtain ⟨⟨key, v'⟩, hlookup, rfl⟩ := Option.map_eq_some_iff.mp h
  obtain ⟨hmem, hkey⟩ := sort.sorting.mem_of_lookup hlookup
  obtain rfl : key = str := (map_rank_inj sort).mp hkey
  exact hmem

theorem find_isSome_iff : (sort.find str members).isSome = Bool.true ↔ str ∈ members.map Prod.fst := by
  unfold MemberSort.find
  rw [Option.isSome_map, sort.sorting.lookup_isSome_iff, List.mem_map]
  constructor
  · rintro ⟨m, hm, hkey⟩
    exact ⟨m, hm, (map_rank_inj sort).mp hkey⟩
  · rintro ⟨m, hm, rfl⟩
    exact ⟨m, hm, rfl⟩

theorem find_eq_none_iff : sort.find str members = none ↔ str ∉ members.map Prod.fst := by
  rw [← find_isSome_iff sort, ← Option.not_isSome_iff_eq_none]

/-- Among different keys the member under the key is found. -/
theorem find_eq_some (hnodup : (members.map Prod.fst).Nodup) (hmem : (str, v) ∈ members) :
    sort.find str members = some v := by
  have hunique : ∀ m ∈ members, m.1.map sort.rank = str.map sort.rank → m = (str, v) := by
    intro m hm hkey
    have hfst : m.1 = str := (map_rank_inj sort).mp hkey
    exact List.inj_on_of_nodup_map hnodup hm hmem hfst
  have hlookup := sort.sorting.lookup_eq_some hmem hunique
  unfold MemberSort.find
  rw [hlookup]
  rfl

/-- **The sorted lookup agrees with the plain one** where no key is there
twice. -/
theorem find_eq_lookup (hnodup : (members.map Prod.fst).Nodup) :
    sort.find str members = members.lookup str := by
  cases hplain : members.lookup str with
  | none =>
      rw [find_eq_none_iff]
      intro hmem
      obtain ⟨m, hm, rfl⟩ := List.mem_map.mp hmem
      have := List.lookup_eq_none_iff.mp hplain m hm
      simp at this
  | some v =>
      obtain ⟨l, r, rfl, -⟩ := List.lookup_eq_some_iff.mp hplain
      exact find_eq_some sort hnodup (List.mem_append_right _ List.mem_cons_self)

/-- The second of two members, which the sort puts first. -/
theorem find_eq_lookup_second :
    MemberSort.unsigned.find ['a'] [(['b'], .null), (['a'], .true)] = some .true :=
  find_eq_lookup .unsigned (by decide)

end Find

/-! ## §3. Extracting a number. -/

section Numbers

variable {n : Nat} {v : Int} {text : List Char}

theorem clamp_toInt (hmin : Int64.minValue.toInt ≤ v) (hmax : v ≤ Int64.maxValue.toInt) :
    (clamp v).toInt = v := by
  unfold clamp
  rw [min_eq_left hmax, max_eq_right hmin]
  exact Int64.toInt_ofInt_of_le hmin (Int.lt_of_le_sub_one hmax)

theorem toDigits_cons (n : Nat) :
    ∃ c r, Nat.toDigits 10 n = c :: r ∧ ∀ d ∈ c :: r, isDigit d = Bool.true := by
  rcases Nat.eq_zero_or_pos n with rfl | hpos
  · exact ⟨'0', [], Nat.toDigits_zero 10, by simp [isDigit]⟩
  · obtain ⟨c, r, heq, hc, hr⟩ := toDigits_pos hpos
    exact ⟨c, r, heq, List.forall_mem_cons.mpr ⟨hc.1, hr⟩⟩

/-- All of a text of digits is taken. -/
theorem digitsValue_toDigits (n : Nat) : digitsValue (Nat.toDigits 10 n) = n := by
  have hdigits : ∀ d ∈ Nat.toDigits 10 n, isDigit d = Bool.true := by
    obtain ⟨c, r, heq, hall⟩ := toDigits_cons n
    rw [heq]
    exact hall
  unfold digitsValue
  rw [List.takeWhile_eq_self_iff.mpr hdigits, Nat.ofDigitChars_ten_toDigits]

theorem digit_visible {c : Char} (h : isDigit c = Bool.true) :
    isSpace c = Bool.false ∧ c ≠ '-' ∧ c ≠ '+' := by
  have hne : ∀ d, isDigit d = Bool.false → c ≠ d := by
    rintro d hd rfl
    rw [hd] at h
    cases h
  have h1 := hne ' ' (by decide)
  have h2 := hne '\t' (by decide)
  have h3 := hne '\n' (by decide)
  have h4 := hne '\x0b' (by decide)
  have h5 := hne '\x0c' (by decide)
  have h6 := hne '\r' (by decide)
  exact ⟨by simp [isSpace, h1, h2, h3, h4, h5, h6], hne '-' (by decide), hne '+' (by decide)⟩

theorem lexicalCast_digit {c : Char} {rest : List Char} (h : isDigit c = Bool.true) :
    lexicalCast (c :: rest) = some (clamp (digitsValue (c :: rest))) := by
  obtain ⟨hspace, hminus, hplus⟩ := digit_visible h
  unfold lexicalCast
  rw [List.dropWhile_cons_of_neg (by simp [hspace])]
  simp only [hminus, hplus, if_false]

theorem lexicalCast_minus {rest : List Char} :
    lexicalCast ('-' :: rest) = some (clamp (-(digitsValue rest))) := by
  unfold lexicalCast
  rw [List.dropWhile_cons_of_neg (by decide)]
  simp only [if_true]

/-- **A written number is extracted as it was**, or as the nearest one of 64
bits. -/
theorem lexicalCast_toString (v : Int) : lexicalCast (toString v) = some (clamp v) := by
  cases v with
  | ofNat n =>
      obtain ⟨c, r, heq, hall⟩ := toDigits_cons n
      have hvalue := digitsValue_toDigits n
      show lexicalCast (Nat.toDigits 10 n) = _
      rw [heq] at hvalue ⊢
      rw [lexicalCast_digit (hall c List.mem_cons_self), hvalue]
      rfl
  | negSucc n =>
      show lexicalCast ('-' :: Nat.toDigits 10 (n + 1)) = _
      rw [lexicalCast_minus, digitsValue_toDigits]
      rfl

/-- The text of a number always gives one. -/
theorem lexicalCast_number (h : NumberText text) : ∃ v, lexicalCast text = some v := by
  obtain ⟨c, r, rfl, hc⟩ := h.head
  rcases hc with rfl | hdigit
  · exact ⟨_, lexicalCast_minus⟩
  · exact ⟨_, lexicalCast_digit hdigit⟩

/-- Nothing is extracted from blanks, and from nothing else. -/
theorem lexicalCast_eq_none_iff :
    lexicalCast text = none ↔ ∀ c ∈ text, isSpace c = Bool.true := by
  rw [← List.dropWhile_eq_nil_iff]
  unfold lexicalCast
  split
  next h => simp [h]
  next c rest h =>
      rw [h]
      split
      · simp
      · split <;> simp

end Numbers

/-! ## §4. From value to text and back. -/

/-- What is written under a key is found again. -/
theorem index_readBack (sort : MemberSort) {members : List (List Char × WValue)}
    (hnodup : (members.map Prod.fst).Nodup) {key : List Char} {x : WValue}
    (hmem : (key, x) ∈ members) :
    (WValue.object members).readBack.index sort key = .ok x.readBack := by
  have hkeys : ((members.map fun m => (m.1, m.2.readBack)).map Prod.fst).Nodup := by
    rw [List.map_map]
    exact hnodup
  have hfind : sort.find key (WValue.readBackMembers members) = some x.readBack := by
    rw [readBackMembers_eq]
    exact find_eq_some sort hkeys (List.mem_map_of_mem hmem)
  show RValue.index sort key (.object (WValue.readBackMembers members)) = _
  simp only [RValue.index, hfind]

/-- **A value that is written comes back.**  Up to 5000 levels the text is read,
and beyond it is refused; and of what is read the accessors give the string that
was written, the number or the nearest one of 64 bits, and under each key what
was written there. -/
theorem dump_reads_back (w : WValue) :
    load (dump w) = (if w.height ≤ 5000 then .ok w.readBack else .error .malformed)
      ∧ (∀ str, w = .string str → w.readBack.s = .ok str)
      ∧ (∀ v, w = .int v → w.readBack.i = .ok (clamp v))
      ∧ ∀ sort members, w = .object members → (members.map Prod.fst).Nodup →
        ∀ key x, (key, x) ∈ members → w.readBack.index sort key = .ok x.readBack := by
  refine ⟨load_dump w, ?_, ?_, ?_⟩
  · rintro str rfl
    show Except.ok (stringValue (escape str)) = _
    rw [stringValue_eq, unescape_escape]
  · rintro v rfl
    show RValue.i (.number (toString v)) = _
    simp only [RValue.i, lexicalCast_toString]
  · rintro sort members rfl hnodup key x hmem
    exact index_readBack sort hnodup hmem

end ApiSyncer.Crow
