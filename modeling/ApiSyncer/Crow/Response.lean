/-
  ApiSyncer.Crow.Response
  ───────────────────────
  **RESPONSES, AND THE FILES THAT MAY BE SENT.**

  What stands behind `/static/` in a url goes through `sanitize_filename`, which
  rewrites the text in place, and is then looked up below a directory.  A text is
  clean when it is not too long, holds no dangerous character, is not absolute and
  has no entry that leads up or names a device.

      clean_sanitizeFilename   what `sanitize_filename` makes is clean
      sanitizeFilename_spec    what comes out is safe, and what is safe stays
      staticPath_confined      the path does not leave the directory
-/
import ApiSyncer.Crow.Dump
import ApiSyncer.Lib.Paths

namespace ApiSyncer.Crow

open ApiSyncer.Lib

/-! ## §1. `sanitize_filename`. -/

/-- The default of `replacement`. -/
def replacement : Char := '_'

def toUpper (c : Char) : Char :=
  if 'a' ≤ c ∧ c ≤ 'z' then Char.ofNat (c.toNat - ('a'.toNat - 'A'.toNat)) else c

/-- The loop over the pattern: the source behind it. -/
def matchPattern : List Char → List Char → Option (List Char)
  | [], source => some source
  | _ :: _, [] => none
  | p :: pattern, c :: source => if toUpper c = p then matchPattern pattern source else none

/-- `includeNumber`. -/
def matchNumber : List Char → Option (List Char)
  | [] => none
  | c :: source => if '1' ≤ c ∧ c ≤ '9' then some source else none

/-- The end, or one of the characters behind which a device is recognised. -/
def endsEntry : List Char → Bool
  | [] => true
  | c :: _ => c = '.' || c = ':' || c = '/' || c = '\\'

/-- A special name, and whether a number follows. -/
abbrev SpecialFile := List Char × Bool

/-- The source behind the pattern and the number. -/
def SpecialFile.behind (file : SpecialFile) (source : List Char) : Option (List Char) :=
  if file.2 then (matchPattern file.1 source).bind matchNumber else matchPattern file.1 source

/-- The source behind a special name, if that is the whole entry up to a dot, a
colon or a separator. -/
def SpecialFile.rest (file : SpecialFile) (source : List Char) : Option (List Char) :=
  (file.behind source).filter endsEntry

/-- `sanitizeSpecialFile`, of a character and what follows it: the name gives way
to one character. -/
def sanitizeSpecialFile (source : Char × List Char) (file : SpecialFile) : Char × List Char :=
  match file.rest (source.1 :: source.2) with
  | some rest => (replacement, rest)
  | none => source

/-- The switch: the special names that start with the character. -/
def specialFiles (c : Char) : List SpecialFile :=
  match toUpper c with
  | 'A' => [(['A', 'U', 'X'], false)]
  | 'C' => [(['C', 'O', 'N'], false), (['C', 'O', 'M'], true)]
  | 'L' => [(['L', 'P', 'T'], true)]
  | 'N' => [(['N', 'U', 'L'], false)]
  | 'P' => [(['P', 'R', 'N'], false)]
  | '.' => [(['.', '.'], false)]
  | _ => []

def isDangerous (c : Char) : Bool :=
  c < ' ' || (0x80 ≤ c.toNat && c.toNat ≤ 0x9F) || c = '?' || c = '<' || c = '>' || c = ':'
    || c = '*' || c = '|' || c = '"'

def isSeparator (c : Char) : Bool := c = '/' || c = '\\'

section Entries

variable {pattern source rest : List Char} {c : Char} {file : SpecialFile}

theorem length_matchPattern (h : matchPattern pattern source = some rest) :
    source.length = pattern.length + rest.length := by
  induction pattern generalizing source with
  | nil =>
      obtain rfl := Option.some.inj h
      simp
  | cons p pattern ih =>
      cases source with
      | nil => cases h
      | cons c source =>
          simp only [matchPattern] at h
          split at h
          next =>
              have := ih h
              simp only [List.length_cons]
              omega
          next => cases h

theorem length_matchNumber (h : matchNumber source = some rest) :
    source.length = rest.length + 1 := by
  cases source with
  | nil => cases h
  | cons c source =>
      simp only [matchNumber] at h
      split at h
      next =>
          obtain rfl := Option.some.inj h
          simp
      next => cases h

theorem length_behind (h : file.behind source = some rest) (hfile : file.1 ≠ []) :
    rest.length < source.length := by
  have hpos := List.length_pos_iff.mpr hfile
  unfold SpecialFile.behind at h
  split at h
  next =>
      obtain ⟨source', hpattern, hnumber⟩ := Option.bind_eq_some_iff.mp h
      have := length_matchPattern hpattern
      have := length_matchNumber hnumber
      omega
  next =>
      have := length_matchPattern h
      omega

/-- The special names: the directory above, and the devices. -/
def allSpecialFiles : List SpecialFile :=
  [(['A', 'U', 'X'], false), (['C', 'O', 'N'], false), (['C', 'O', 'M'], true),
    (['L', 'P', 'T'], true), (['N', 'U', 'L'], false), (['P', 'R', 'N'], false), (['.', '.'], false)]

/-- An entry starts with a special name. -/
def Special (text : List Char) : Prop := ∃ file ∈ allSpecialFiles, (file.rest text).isSome = true

/-- The switch looks at the names that start with the character. -/
theorem specialFiles_eq (c : Char) :
    specialFiles c = allSpecialFiles.filter fun file => file.1.head? = some (toUpper c) := by
  unfold specialFiles
  split
  case h_7 hA hC hL hN hP hdot =>
      refine (List.filter_eq_nil_iff.mpr fun file hfile => ?_).symm
      rw [decide_eq_true_iff]
      intro hhead
      simp only [allSpecialFiles, List.mem_cons, List.not_mem_nil, or_false] at hfile
      rcases hfile with rfl | rfl | rfl | rfl | rfl | rfl | rfl
      · exact hA (Option.some.inj hhead).symm
      · exact hC (Option.some.inj hhead).symm
      · exact hC (Option.some.inj hhead).symm
      · exact hL (Option.some.inj hhead).symm
      · exact hN (Option.some.inj hhead).symm
      · exact hP (Option.some.inj hhead).symm
      · exact hdot (Option.some.inj hhead).symm
  all_goals
    next heq =>
      rw [heq]
      rfl

/-- No special name holds what takes its place, or a separator. -/
theorem special_plain : ∀ file ∈ allSpecialFiles, file.1 ≠ [] ∧ ∀ p ∈ file.1,
    p ≠ replacement ∧ isSeparator p = false := by
  simp [allSpecialFiles, replacement, isSeparator]

theorem matchPattern_head {p : Char} (h : matchPattern (p :: pattern) (c :: source) = some rest) :
    toUpper c = p := by
  simp only [matchPattern] at h
  split at h
  next heq => exact heq
  next => cases h

/-- A name that the entry starts with is in the switch. -/
theorem mem_specialFiles (hfile : file ∈ allSpecialFiles)
    (h : file.rest (c :: source) = some rest) : file ∈ specialFiles c := by
  obtain ⟨hne, -⟩ := special_plain file hfile
  obtain ⟨p, pattern, hpattern⟩ := List.exists_cons_of_ne_nil hne
  rw [specialFiles_eq]
  refine List.mem_filter.mpr ⟨hfile, ?_⟩
  rw [decide_eq_true_iff, hpattern]
  -- the loop over the pattern compares the first character
  obtain ⟨hbehind, -⟩ := Option.filter_eq_some_iff.mp h
  unfold SpecialFile.behind at hbehind
  rw [hpattern] at hbehind
  split at hbehind
  next =>
      obtain ⟨source', hmatch, -⟩ := Option.bind_eq_some_iff.mp hbehind
      rw [matchPattern_head hmatch]
      rfl
  next =>
      rw [matchPattern_head hbehind]
      rfl

theorem toUpper_replacement : toUpper replacement = replacement := by decide

/-- What takes the place of a name starts no name. -/
theorem rest_replacement (hfile : file ∈ allSpecialFiles) :
    file.rest (replacement :: source) = none := by
  cases hrest : file.rest (replacement :: source) with
  | none => rfl
  | some rest =>
      have hmem := mem_specialFiles hfile hrest
      rw [specialFiles_eq, toUpper_replacement] at hmem
      revert hmem
      have hnone : allSpecialFiles.filter (fun file => file.1.head? = some replacement) = [] := by
        decide
      rw [hnone]
      exact fun hmem => absurd hmem List.not_mem_nil

/-- The switch at the start of an entry, which `checkForSpecialEntries` marks. -/
def enter (check : Bool) (c : Char) (rest : List Char) : Char × List Char :=
  if check then (specialFiles c).foldl sanitizeSpecialFile (c, rest) else (c, rest)

/-- **The start of an entry** stays as it is if it is not special, and otherwise
gives way to one character. -/
theorem foldl_sanitizeSpecialFile (files : List SpecialFile)
    (hfiles : ∀ file ∈ files, file ∈ allSpecialFiles) (c : Char) (source : List Char) :
    files.foldl sanitizeSpecialFile (c, source) = (c, source)
        ∧ (∀ file ∈ files, file.rest (c :: source) = none)
      ∨ ∃ rest, files.foldl sanitizeSpecialFile (c, source) = (replacement, rest)
        ∧ rest.length ≤ source.length
        ∧ ∃ file ∈ files, (file.rest (c :: source)).isSome = true := by
  induction files generalizing c source with
  | nil => exact Or.inl ⟨rfl, fun file hfile => absurd hfile List.not_mem_nil⟩
  | cons file files ih =>
      obtain ⟨hfile, hfiles⟩ := List.forall_mem_cons.mp hfiles
      rw [List.foldl_cons]
      cases hrest : file.rest (c :: source) with
      | none =>
          have hsame : sanitizeSpecialFile (c, source) file = (c, source) := by
            simp only [sanitizeSpecialFile, hrest]
          rw [hsame]
          rcases ih hfiles c source with ⟨heq, hnone⟩ | ⟨rest, heq, hle, file', hmem, hsome⟩
          · exact Or.inl ⟨heq, List.forall_mem_cons.mpr ⟨hrest, hnone⟩⟩
          · exact Or.inr ⟨rest, heq, hle, file', List.mem_cons_of_mem _ hmem, hsome⟩
      | some rest =>
          have hreplaced : sanitizeSpecialFile (c, source) file = (replacement, rest) := by
            simp only [sanitizeSpecialFile, hrest]
          have hlength : rest.length ≤ source.length := by
            have := length_behind (Option.filter_eq_some_iff.mp hrest).1 (special_plain file hfile).1
            simp only [List.length_cons] at this
            omega
          have hhead : ∃ file' ∈ file :: files, (file'.rest (c :: source)).isSome = true :=
            ⟨file, List.mem_cons_self, by rw [hrest]; rfl⟩
          rw [hreplaced]
          rcases ih hfiles replacement rest with ⟨hsame, -⟩ | ⟨rest', hsame, hle, -⟩
          · exact Or.inr ⟨rest, hsame, hlength, hhead⟩
          · exact Or.inr ⟨rest', hsame, Nat.le_trans hle hlength, hhead⟩

theorem enter_cases (c : Char) (source : List Char) :
    enter true c source = (c, source) ∧ ¬ Special (c :: source)
      ∨ ∃ rest, enter true c source = (replacement, rest) ∧ rest.length ≤ source.length
        ∧ Special (c :: source) := by
  have hfiles : ∀ file ∈ specialFiles c, file ∈ allSpecialFiles := by
    intro file hfile
    rw [specialFiles_eq] at hfile
    exact (List.mem_filter.mp hfile).1
  rcases foldl_sanitizeSpecialFile _ hfiles c source with
    ⟨hsame, hnone⟩ | ⟨rest, heq, hle, file, hfile, hsome⟩
  · refine Or.inl ⟨hsame, ?_⟩
    rintro ⟨file, hfile, hsome⟩
    obtain ⟨rest, hrest⟩ := Option.isSome_iff_exists.mp hsome
    rw [hnone file (mem_specialFiles hfile hrest)] at hrest
    cases hrest
  · exact Or.inr ⟨rest, heq, hle, file, hfiles file hfile, hsome⟩

theorem length_enter (check : Bool) (c : Char) (source : List Char) :
    (enter check c source).2.length ≤ source.length := by
  cases check with
  | false => exact le_refl _
  | true =>
      rcases enter_cases c source with ⟨heq, -⟩ | ⟨rest, heq, hle, -⟩
      · rw [heq]
      · rw [heq]
        exact hle

end Entries

/-- The loop, from a character on; `first` is `i == 0` and `check` is
`checkForSpecialEntries`. -/
def sanitizeLoop (first check : Bool) : List Char → List Char
  | [] => []
  | c :: rest =>
    let source := enter check c rest
    -- an entry starts only behind a separator that stays
    if isDangerous source.1 then replacement :: sanitizeLoop false false source.2
    else if isSeparator source.1 then
      if first then replacement :: sanitizeLoop false false source.2
      else source.1 :: sanitizeLoop false true source.2
    else source.1 :: sanitizeLoop false false source.2
termination_by text => text.length
decreasing_by
  all_goals
    have hle := length_enter check c rest
    simp only [List.length_cons]
    omega

/-- `void sanitize_filename(std::string& data, char replacement = '_')`. -/
def sanitizeFilename (data : List Char) : List Char := sanitizeLoop true true (data.take 255)

/-! ## §2. Clean texts. -/

/-- No entry is special; `check` is whether the text starts one. -/
def Tidy (check : Bool) : List Char → Prop
  | [] => True
  | c :: rest => (check = true → ¬ Special (c :: rest)) ∧ Tidy (isSeparator c) rest

/-- What `sanitize_filename` makes. -/
structure Clean (text : List Char) : Prop where
  length : text.length ≤ 255
  chars : ∀ c ∈ text, isDangerous c = false
  relative : ∀ c rest, text = c :: rest → isSeparator c = false
  entries : Tidy true text

section Clean

variable {first check : Bool} {text rest pattern : List Char} {c : Char} {file : SpecialFile}

theorem replacement_plain : isDangerous replacement = false ∧ isSeparator replacement = false := by
  decide

theorem not_special_replacement : ¬ Special (replacement :: rest) := by
  rintro ⟨file, hfile, hsome⟩
  rw [rest_replacement hfile] at hsome
  cases hsome

theorem not_special_separator (hc : isSeparator c = true) : ¬ Special (c :: rest) := by
  rintro ⟨file, hfile, hsome⟩
  obtain ⟨rest', hrest⟩ := Option.isSome_iff_exists.mp hsome
  have hmem := mem_specialFiles hfile hrest
  rw [specialFiles_eq] at hmem
  -- neither of the two is the first character of a name
  have hnone : ∀ c, isSeparator c = true →
      allSpecialFiles.filter (fun file => file.1.head? = some (toUpper c)) = [] := by
    intro c hc
    unfold isSeparator at hc
    rw [Bool.or_eq_true, decide_eq_true_iff, decide_eq_true_iff] at hc
    rcases hc with rfl | rfl <;> decide
  rw [hnone c hc] at hmem
  exact List.not_mem_nil hmem

theorem isSeparator_toUpper (hc : isSeparator c = true) : isSeparator (toUpper c) = true := by
  unfold isSeparator at hc
  rw [Bool.or_eq_true, decide_eq_true_iff, decide_eq_true_iff] at hc
  rcases hc with rfl | rfl <;> decide

/-- One round of the loop where no entry starts. -/
theorem sanitizeLoop_cons : sanitizeLoop false false (c :: rest)
    = if isDangerous c then replacement :: sanitizeLoop false false rest
      else if isSeparator c then c :: sanitizeLoop false true rest
      else c :: sanitizeLoop false false rest := by
  rw [sanitizeLoop]
  rfl

/-- The loop makes no pattern. -/
theorem matchPattern_sanitizeLoop
    (hpattern : ∀ p ∈ pattern, p ≠ replacement ∧ isSeparator p = false)
    (h : matchPattern pattern (sanitizeLoop false false text) = some rest) :
    ∃ rest', matchPattern pattern text = some rest' ∧ rest = sanitizeLoop false false rest' := by
  induction pattern generalizing text with
  | nil => exact ⟨text, rfl, (Option.some.inj h).symm⟩
  | cons p pattern ih =>
      obtain ⟨hp, hpattern⟩ := List.forall_mem_cons.mp hpattern
      cases text with
      | nil =>
          rw [sanitizeLoop] at h
          cases h
      | cons c text =>
          rw [sanitizeLoop_cons] at h
          split at h
          next =>
              -- the pattern would start with what takes the place
              have := matchPattern_head h
              rw [toUpper_replacement] at this
              exact absurd this.symm hp.1
          next =>
              split at h
              next hsep =>
                  have hsep' := isSeparator_toUpper hsep
                  rw [matchPattern_head h, hp.2] at hsep'
                  cases hsep'
              next =>
                  have hhead := matchPattern_head h
                  simp only [matchPattern, hhead, if_true] at h ⊢
                  exact ih hpattern h

theorem matchNumber_sanitizeLoop
    (h : matchNumber (sanitizeLoop false false text) = some rest) :
    ∃ rest', matchNumber text = some rest' ∧ rest = sanitizeLoop false false rest' := by
  cases text with
  | nil =>
      rw [sanitizeLoop] at h
      cases h
  | cons c text =>
      rw [sanitizeLoop_cons] at h
      split at h
      next =>
          have hno : matchNumber (replacement :: sanitizeLoop false false text) = none := rfl
          rw [hno] at h
          cases h
      next =>
          split at h
          next hsep =>
              unfold isSeparator at hsep
              rw [Bool.or_eq_true, decide_eq_true_iff, decide_eq_true_iff] at hsep
              rcases hsep with rfl | rfl <;> cases h
          next =>
              simp only [matchNumber] at h ⊢
              split at h
              next hdigit =>
                  rw [if_pos hdigit]
                  exact ⟨text, rfl, (Option.some.inj h).symm⟩
              next => cases h

theorem endsEntry_sanitizeLoop (h : endsEntry (sanitizeLoop false false text) = true) :
    endsEntry text = true := by
  cases text with
  | nil => rfl
  | cons c text =>
      rw [sanitizeLoop_cons] at h
      split at h
      next => cases h
      next =>
          split at h
          next => exact h
          next => exact h

/-- **The loop makes no special name.** -/
theorem special_sanitizeLoop (h : Special (sanitizeLoop false false text)) : Special text := by
  obtain ⟨file, hfile, hsome⟩ := h
  obtain ⟨rest, hrest⟩ := Option.isSome_iff_exists.mp hsome
  obtain ⟨hbehind, hends⟩ := Option.filter_eq_some_iff.mp hrest
  obtain ⟨-, hplain⟩ := special_plain file hfile
  -- what matches behind the loop has matched before it
  have hback : ∃ rest', file.behind text = some rest' ∧ rest = sanitizeLoop false false rest' := by
    unfold SpecialFile.behind at hbehind ⊢
    split at hbehind
    next hnumber =>
        rw [if_pos hnumber]
        obtain ⟨source, hmatch, hdigit⟩ := Option.bind_eq_some_iff.mp hbehind
        obtain ⟨source', hmatch', rfl⟩ := matchPattern_sanitizeLoop hplain hmatch
        obtain ⟨rest', hdigit', rfl⟩ := matchNumber_sanitizeLoop hdigit
        exact ⟨rest', by rw [hmatch']; exact hdigit', rfl⟩
    next hnumber =>
        rw [if_neg hnumber]
        exact matchPattern_sanitizeLoop hplain hbehind
  obtain ⟨rest', hbehind', rfl⟩ := hback
  refine ⟨file, hfile, Option.isSome_iff_exists.mpr ⟨rest', ?_⟩⟩
  exact Option.filter_eq_some_iff.mpr ⟨hbehind', endsEntry_sanitizeLoop hends⟩

/-- What the loop makes of a text. -/
structure Swept (first check : Bool) (text out : List Char) : Prop where
  length : out.length ≤ text.length
  chars : ∀ c ∈ out, isDangerous c = false
  relative : first = true → ∀ c rest, out = c :: rest → isSeparator c = false
  tidy : Tidy check out

/-- A round that puts the replacement. -/
theorem Swept.replaced {source out : List Char} (h : Swept false false source out)
    (hle : source.length ≤ rest.length) :
    Swept first check (c :: rest) (replacement :: out) where
  length := Nat.succ_le_succ (Nat.le_trans h.length hle)
  chars := List.forall_mem_cons.mpr ⟨replacement_plain.1, h.chars⟩
  relative _ c' rest' heq := by
    rw [← (List.cons.inj heq).1]
    exact replacement_plain.2
  tidy := by
    refine ⟨fun _ => not_special_replacement, ?_⟩
    rw [replacement_plain.2]
    exact h.tidy

/-- A round that keeps a character. -/
theorem Swept.kept {c' : Char} {separator : Bool} {source out : List Char}
    (h : Swept false separator source out) (hle : source.length ≤ rest.length)
    (hdangerous : ¬ isDangerous c' = true) (hseparator : isSeparator c' = separator)
    (hfirst : first = true → separator = false)
    (hspecial : check = true → ¬ Special (c' :: out)) :
    Swept first check (c :: rest) (c' :: out) where
  length := Nat.succ_le_succ (Nat.le_trans h.length hle)
  chars := List.forall_mem_cons.mpr ⟨Bool.eq_false_iff.mpr hdangerous, h.chars⟩
  relative htrue d rest' heq := by
    rw [← (List.cons.inj heq).1, hseparator]
    exact hfirst htrue
  tidy := ⟨hspecial, hseparator ▸ h.tidy⟩

/-- **What the loop leaves**, round by round. -/
theorem swept_sanitizeLoop (first check : Bool) (text : List Char) :
    Swept first check text (sanitizeLoop first check text) := by
  fun_induction sanitizeLoop first check text with
  | case1 first check =>
      refine ⟨le_refl _, fun c hc => absurd hc List.not_mem_nil, fun _ c rest h => ?_, trivial⟩
      cases h
  | case2 first check c rest source hdangerous ih => exact ih.replaced (length_enter check c rest)
  | case3 check c rest source hdangerous hseparator ih =>
      exact ih.replaced (length_enter check c rest)
  | case4 first check c rest source hdangerous hseparator hfirst ih =>
      exact ih.kept (length_enter check c rest) hdangerous hseparator (fun h => absurd h hfirst)
        fun _ => not_special_separator hseparator
  | case5 first check c rest source hdangerous hseparator ih =>
      have hplain : isSeparator source.1 = false := Bool.eq_false_iff.mpr hseparator
      refine ih.kept (length_enter check c rest) hdangerous hplain (fun _ => rfl) ?_
      rintro rfl hspecial
      -- what is special now was special before, and has given way
      have hloop : sanitizeLoop false false (source.1 :: source.2)
          = source.1 :: sanitizeLoop false false source.2 := by
        rw [sanitizeLoop_cons, if_neg hdangerous, if_neg hseparator]
      rw [← hloop] at hspecial
      have hbefore := special_sanitizeLoop hspecial
      rcases enter_cases c rest with ⟨heq, hnot⟩ | ⟨rest', heq, -⟩
      · have hsource : source = (c, rest) := heq
        rw [hsource] at hbefore
        exact hnot hbefore
      · have hsource : source = (replacement, rest') := heq
        rw [hsource] at hbefore
        exact not_special_replacement hbefore

/-- **The text is clean.** -/
theorem clean_sanitizeFilename (data : List Char) : Clean (sanitizeFilename data) := by
  obtain ⟨hlength, hchars, hrelative, htidy⟩ := swept_sanitizeLoop true true (data.take 255)
  refine ⟨Nat.le_trans hlength ?_, hchars, hrelative rfl, htidy⟩
  rw [List.length_take]
  exact Nat.min_le_left _ _

/-- A text with nothing to change. -/
theorem sanitizeLoop_eq_self (hchars : ∀ c ∈ text, isDangerous c = false)
    (hfirst : first = true → ∀ c rest, text = c :: rest → isSeparator c = false)
    (htidy : Tidy check text) : sanitizeLoop first check text = text := by
  induction text generalizing first check with
  | nil => rw [sanitizeLoop]
  | cons c rest ih =>
      obtain ⟨hc, hrest⟩ := List.forall_mem_cons.mp hchars
      obtain ⟨hspecial, htidy⟩ := htidy
      -- no entry of a clean text gives way
      have henter : enter check c rest = (c, rest) := by
        cases check with
        | false => rfl
        | true =>
            rcases enter_cases c rest with ⟨heq, -⟩ | ⟨rest', -, -, hyes⟩
            · exact heq
            · exact absurd hyes (hspecial rfl)
      have hlater : ∀ check', isSeparator c = check' → sanitizeLoop false check' rest = rest :=
        fun check' heq => ih hrest (fun h => absurd h Bool.false_ne_true) (heq ▸ htidy)
      rw [sanitizeLoop]
      simp only [henter, hc, Bool.false_eq_true, if_false]
      cases hseparator : isSeparator c with
      | false => rw [if_neg Bool.false_ne_true, hlater false hseparator]
      | true =>
          have hnot : ¬ first = true := fun h => by
            rw [hfirst h c rest rfl] at hseparator
            cases hseparator
          rw [if_pos rfl, if_neg hnot, hlater true hseparator]

/-- **`sanitize_filename` makes clean texts, and changes no other**, so a second
pass changes nothing. -/
theorem sanitizeFilename_spec (data : List Char) :
    Clean (sanitizeFilename data) ∧ (sanitizeFilename data = data ↔ Clean data)
      ∧ sanitizeFilename (sanitizeFilename data) = sanitizeFilename data := by
  have hself : ∀ data, Clean data → sanitizeFilename data = data := by
    intro data h
    unfold sanitizeFilename
    rw [List.take_of_length_le h.length]
    exact sanitizeLoop_eq_self h.chars (fun _ => h.relative) h.entries
  have hclean := clean_sanitizeFilename data
  refine ⟨hclean, ⟨fun heq => heq ▸ hclean, hself data⟩, hself _ hclean⟩

theorem not_special_nil : ¬ Special [] := by
  rintro ⟨file, hfile, hsome⟩
  revert hsome
  revert file
  decide

/-- Behind a separator an entry starts. -/
theorem Tidy.entry {pre suf : List Char} (h : Tidy check (pre ++ suf))
    (hpre : pre = [] ∧ check = true ∨ ∃ p c, pre = p ++ [c] ∧ isSeparator c = true) :
    ¬ Special suf := by
  induction pre generalizing check with
  | nil =>
      rcases hpre with ⟨-, rfl⟩ | ⟨p, c, heq, -⟩
      · cases suf with
        | nil => exact not_special_nil
        | cons c suf => exact h.1 rfl
      · simp at heq
  | cons d pre ih =>
      refine ih h.2 ?_
      rcases hpre with ⟨heq, -⟩ | ⟨p, c, heq, hc⟩
      · cases heq
      · cases p with
        | nil =>
            obtain ⟨rfl, rfl⟩ := List.cons.inj heq
            exact Or.inl ⟨rfl, hc⟩
        | cons d' p =>
            obtain ⟨-, rfl⟩ := List.cons.inj heq
            exact Or.inr ⟨p, c, rfl, hc⟩

/-- **No component of a clean text leads up.** -/
theorem Clean.no_way_up (h : Clean text) : ['.', '.'] ∉ components '/' text := by
  intro hmem
  obtain ⟨pre, post, rfl, hpre, hpost⟩ := mem_components hmem
  have hstart : pre = [] ∧ true = true ∨ ∃ p c, pre = p ++ [c] ∧ isSeparator c = true := by
    rcases hpre with rfl | ⟨p, rfl⟩
    · exact Or.inl ⟨rfl, rfl⟩
    · exact Or.inr ⟨p, '/', rfl, by decide⟩
  refine h.entries.entry hstart ⟨(['.', '.'], false), by decide, ?_⟩
  -- the two dots end there
  have hdots : SpecialFile.behind (['.', '.'], false) (['.', '.'] ++ post) = some post := rfl
  have hends : endsEntry post = true := by
    rcases hpost with rfl | ⟨p, rfl⟩
    · rfl
    · rfl
  unfold SpecialFile.rest
  rw [hdots, Option.filter_some, if_pos hends]
  rfl

end Clean

/-! ## §3. Static files. -/

/-- `std::string normalize_path(const std::string& directoryPath)`. -/
def normalizePath (directoryPath : List Char) : List Char :=
  let normalizedPath := directoryPath.map fun c => if c = '\\' then '/' else c
  if normalizedPath ≠ [] ∧ normalizedPath.getLast? ≠ some '/' then normalizedPath ++ ['/']
  else normalizedPath

/-- `CROW_STATIC_DIRECTORY`. -/
def staticDirectory : List Char := normalizePath ['s', 't', 'a', 't', 'i', 'c', '/']

/-- The path that the handler of static files makes of its argument. -/
def staticPath (file_path : List Char) : List Char :=
  staticDirectory ++ sanitizeFilename file_path

/-- `..` leads up. -/
def leadsUp (name : List Char) : Bool := name = ['.', '.']

/-- `.` stays, and so does a slash that is doubled. -/
def staysThere (name : List Char) : Bool := name = ['.'] || name = []

/-- **The path stays below the directory**, from wherever it is followed, and is
not cut short by a NUL. -/
theorem staticPath_confined (file_path : List Char) (cwd : List (List Char)) :
    cwd ++ [['s', 't', 'a', 't', 'i', 'c']]
        <+: follow leadsUp staysThere cwd (components '/' (staticPath file_path))
      ∧ ∀ c ∈ staticPath file_path, c ≠ '\x00' := by
  have hclean := clean_sanitizeFilename file_path
  have hpath : staticPath file_path
      = ['s', 't', 'a', 't', 'i', 'c'] ++ '/' :: sanitizeFilename file_path := rfl
  constructor
  · rw [hpath, components_append (by decide)]
    have henter : ∀ names, follow leadsUp staysThere cwd (['s', 't', 'a', 't', 'i', 'c'] :: names)
        = follow leadsUp staysThere (cwd ++ [['s', 't', 'a', 't', 'i', 'c']]) names := fun _ => rfl
    rw [henter]
    refine follow_prefix leadsUp staysThere fun name hname => ?_
    exact decide_eq_false fun heq => hclean.no_way_up (heq ▸ hname)
  · have hnul : isDangerous '\x00' = true := by decide
    rintro c hc rfl
    rw [hpath] at hc
    rcases List.mem_append.mp hc with hdir | hfile
    · exact absurd hdir (by decide)
    · rcases List.mem_cons.mp hfile with heq | hfile
      · exact absurd heq (by decide)
      · rw [hclean.chars _ hfile] at hnul
        cases hnul

/-! ## §4. Responses. -/

/-- `mime_types`. -/
def mimeTypes : List (String × String) :=
  [("gz", "application/gzip"), ("shtml", "text/html"), ("htm", "text/html"),
    ("html", "text/html"), ("css", "text/css"), ("xml", "text/xml"), ("gif", "image/gif"),
    ("jpg", "image/jpeg"), ("jpeg", "image/jpeg"), ("js", "application/javascript"),
    ("atom", "application/atom+xml"), ("rss", "application/rss+xml"), ("mml", "text/mathml"),
    ("txt", "text/plain"), ("jad", "text/vnd.sun.j2me.app-descriptor"),
    ("wml", "text/vnd.wap.wml"), ("htc", "text/x-component"), ("avif", "image/avif"),
    ("png", "image/png"), ("svgz", "image/svg+xml"), ("svg", "image/svg+xml"),
    ("tiff", "image/tiff"), ("tif", "image/tiff"), ("wbmp", "image/vnd.wap.wbmp"),
    ("webp", "image/webp"), ("ico", "image/x-icon"), ("jng", "image/x-jng"),
    ("bmp", "image/x-ms-bmp"), ("woff", "font/woff"), ("woff2", "font/woff2"),
    ("ear", "application/java-archive"), ("war", "application/java-archive"),
    ("jar", "application/java-archive"), ("json", "application/json"),
    ("hqx", "application/mac-binhex40"), ("doc", "application/msword"),
    ("pdf", "application/pdf"), ("ai", "application/postscript"),
    ("eps", "application/postscript"), ("ps", "application/postscript"),
    ("rtf", "application/rtf"), ("m3u8", "application/vnd.apple.mpegurl"),
    ("kml", "application/vnd.google-earth.kml+xml"), ("kmz", "application/vnd.google-earth.kmz"),
    ("xls", "application/vnd.ms-excel"), ("eot", "application/vnd.ms-fontobject"),
    ("ppt", "application/vnd.ms-powerpoint"),
    ("odg", "application/vnd.oasis.opendocument.graphics"),
    ("odp", "application/vnd.oasis.opendocument.presentation"),
    ("ods", "application/vnd.oasis.opendocument.spreadsheet"),
    ("odt", "application/vnd.oasis.opendocument.text"),
    ("pptx", "application/vnd.openxmlformats-officedocument.presentationml.presentation"),
    ("xlsx", "application/vnd.openxmlformats-officedocument.spreadsheetml.sheet"),
    ("docx", "application/vnd.openxmlformats-officedocument.wordprocessingml.document"),
    ("wmlc", "application/vnd.wap.wmlc"), ("wasm", "application/wasm"),
    ("7z", "application/x-7z-compressed"), ("cco", "application/x-cocoa"),
    ("jardiff", "application/x-java-archive-diff"), ("jnlp", "application/x-java-jnlp-file"),
    ("run", "application/x-makeself"), ("pm", "application/x-perl"), ("pl", "application/x-perl"),
    ("pdb", "application/x-pilot"), ("prc", "application/x-pilot"),
    ("rar", "application/x-rar-compressed"), ("rpm", "application/x-redhat-package-manager"),
    ("sea", "application/x-sea"), ("swf", "application/x-shockwave-flash"),
    ("sit", "application/x-stuffit"), ("tk", "application/x-tcl"), ("tcl", "application/x-tcl"),
    ("crt", "application/x-x509-ca-cert"), ("pem", "application/x-x509-ca-cert"),
    ("der", "application/x-x509-ca-cert"), ("xpi", "application/x-xpinstall"),
    ("xhtml", "application/xhtml+xml"), ("xspf", "application/xspf+xml"),
    ("zip", "application/zip"), ("dll", "application/octet-stream"),
    ("exe", "application/octet-stream"), ("bin", "application/octet-stream"),
    ("deb", "application/octet-stream"), ("dmg", "application/octet-stream"),
    ("img", "application/octet-stream"), ("iso", "application/octet-stream"),
    ("msm", "application/octet-stream"), ("msp", "application/octet-stream"),
    ("msi", "application/octet-stream"), ("kar", "audio/midi"), ("midi", "audio/midi"),
    ("mid", "audio/midi"), ("mp3", "audio/mpeg"), ("ogg", "audio/ogg"), ("m4a", "audio/x-m4a"),
    ("ra", "audio/x-realaudio"), ("3gp", "video/3gpp"), ("3gpp", "video/3gpp"),
    ("ts", "video/mp2t"), ("mp4", "video/mp4"), ("mpg", "video/mpeg"), ("mpeg", "video/mpeg"),
    ("mov", "video/quicktime"), ("webm", "video/webm"), ("flv", "video/x-flv"),
    ("m4v", "video/x-m4v"), ("mng", "video/x-mng"), ("asf", "video/x-ms-asf"),
    ("asx", "video/x-ms-asf"), ("wmv", "video/x-ms-wmv"), ("avi", "video/x-msvideo")]

/-- The parent types of `validate_mime_type`. -/
def validParentTypes : List String :=
  ["application/", "audio/", "font/", "example/", "image/", "message/", "model/", "multipart/",
    "text/", "video/"]

/-- `static bool validate_mime_type(const std::string& candidate)`: longer than a
parent type, and it starts with it. -/
def validateMimeType (candidate : List Char) : Bool :=
  validParentTypes.any fun parent =>
    parent.toList.length < candidate.length
      && candidate.take parent.toList.length = parent.toList

/-- `static std::string get_mime_type(const std::string& contentType)`. -/
def getMimeType (contentType : List Char) : List Char :=
  match mimeTypes.find? fun entry => entry.1.toList = contentType with
  | some entry => entry.2.toList
  | none => if validateMimeType contentType then contentType else "text/plain".toList

/-- What stands behind the last dot, or everything. -/
def extension (path : List Char) : List Char := (path.reverse.takeWhile (· ≠ '.')).reverse

/-- A `crow::response`, as it goes to the connection.  If it has a file, the file
is sent in place of the body. -/
structure Reply where
  code : Nat
  headers : List (String × List Char)
  body : List Char
  file : Option (List Char)
  deriving DecidableEq, Repr

namespace Reply

def text (code : Nat) (message : String) : Reply := ⟨code, [], message.toList, none⟩

/-- `void set_static_file_info_unsafe(std::string path)`; `stat` is the size of a
regular file. -/
def setStaticFileInfo (stat : List Char → Option Nat) (path : List Char) : Reply :=
  match stat path with
  | some size =>
      let type := extension path
      ⟨200, ("Content-Length", Nat.toDigits 10 size)
        :: (if type ≠ [] then [("Content-Type", getMimeType type)] else []), [], some path⟩
  | none => ⟨404, [], [], none⟩

/-- `void end()`: after a HEAD request the length of the body goes in place of the
body. -/
def ended (skip_body : Bool) (r : Reply) : Reply :=
  if skip_body then
    { r with
      headers := (r.headers.filter fun h => h.1 ≠ "Content-Length")
        ++ [("Content-Length", Nat.toDigits 10 r.body.length)]
      body := [] }
  else r

end Reply

end ApiSyncer.Crow
