/-
  ApiSyncer.Crow.Json
  ───────────────────
  **CROW'S READER OF JSON.**

  `load` copies the text, puts a NUL behind it and parses in place.  A text is
  a list of characters, one for each byte; the end of the list is the NUL, and
  a NUL inside the text stops the parser as well.  The parser writes only
  behind its cursor (the quotes of the strings it has read), so a value keeps
  the text it was read from and nothing that is read later depends on it.

  The fuel stands for the depth of the call stack and for the length of the
  loops; `load` gives as much as the text is long.
-/
import ApiSyncer.Lib.Reader

namespace ApiSyncer.Crow

open ApiSyncer.Lib

/-! ## §1. Values. -/

/-- An `rvalue` without its error bit.  A number and a string keep their text;
what is in a list has no key. -/
inductive RValue where
  | null
  | true
  | false
  | number (text : List Char)
  | string (raw : List Char)
  | list (items : List RValue)
  | object (members : List (List Char × RValue))

/-! ## §2. Strings. -/

/-- `check` of `decode_string`. -/
def isHex (c : Char) : Bool :=
  ('0' ≤ c && c ≤ '9') || ('a' ≤ c && c ≤ 'f') || ('A' ≤ c && c ≤ 'F')

/-- What may follow a backslash, other than `u`. -/
def simpleEscapes : List Char := ['"', '\\', '/', 'b', 'f', 'n', 'r', 't']

/-- `from_hex` of `unescape`. -/
def fromHex (c : Char) : Nat :=
  if 'a' ≤ c then c.toNat - 'a'.toNat + 10
  else if 'A' ≤ c then c.toNat - 'A'.toNat + 10
  else c.toNat - '0'.toNat

/-- The bytes `unescape` writes for a code. -/
def encode (code : Nat) : List Char :=
  if 0x800 ≤ code then
    [Char.ofNat (0xE0 ||| code >>> 12), Char.ofNat (0x80 ||| (code >>> 6 &&& 0x3F)),
      Char.ofNat (0x80 ||| (code &&& 0x3F))]
  else if 0x80 ≤ code then
    [Char.ofNat (0xC0 ||| code >>> 6), Char.ofNat (0x80 ||| (code &&& 0x3F))]
  else [Char.ofNat code]

/-- What `unescape` writes for a backslash and `c`, other than `u`. -/
def unescapeChar : Char → List Char
  | '"' => ['"']
  | '\\' => ['\\']
  | '/' => ['/']
  | 'b' => ['\x08']
  | 'f' => ['\x0c']
  | 'n' => ['\n']
  | 'r' => ['\r']
  | 't' => ['\t']
  | _ => []

def unescape : List Char → List Char
  | [] => []
  | '\\' :: 'u' :: a :: b :: c :: d :: rest =>
      encode (fromHex a <<< 12 + fromHex b <<< 8 + fromHex c <<< 4 + fromHex d) ++ unescape rest
  | '\\' :: c :: rest => unescapeChar c ++ unescape rest
  | c :: rest => c :: unescape rest

/-- The value of a string or a key; only a text with a backslash has the flag
that makes `s()` unescape it. -/
def stringValue (raw : List Char) : List Char :=
  if '\\' ∈ raw then unescape raw else raw

/-- The loop of `decode_string`, after the opening quote: the text between the
quotes, and what follows the closing one. -/
def decodeString.loop : Reader Char (List Char)
  | [] => .error .malformed
  | '"' :: rest => .ok ([], rest)
  | '\\' :: 'u' :: a :: b :: c :: d :: rest =>
      if isHex a && isHex b && isHex c && isHex d then
        (decodeString.loop rest).map fun r => ('\\' :: 'u' :: a :: b :: c :: d :: r.1, r.2)
      else .error .malformed
  | '\\' :: c :: rest =>
      if c ∈ simpleEscapes then
        (decodeString.loop rest).map fun r => ('\\' :: c :: r.1, r.2)
      else .error .malformed
  | c :: rest =>
      if c = '\\' || c = '\x00' then .error .malformed
      else (decodeString.loop rest).map fun r => (c :: r.1, r.2)

/-- `rvalue decode_string()`. -/
def decodeString : Reader Char (List Char)
  | '"' :: rest => decodeString.loop rest
  | _ => .error .malformed

/-! ## §3. Numbers. -/

inductive NumberParsingState where
  | Minus
  | AfterMinus
  | ZeroFirst
  | Digits
  | DigitsAfterPoints
  | E
  | DigitsAfterE
  | Invalid
  deriving DecidableEq, Repr

namespace NumberParsingState

/-- `"\2\2\7\3\4\6\6"`. -/
def onZero : NumberParsingState → NumberParsingState
  | Minus => ZeroFirst
  | AfterMinus => ZeroFirst
  | ZeroFirst => Invalid
  | Digits => Digits
  | DigitsAfterPoints => DigitsAfterPoints
  | E => DigitsAfterE
  | DigitsAfterE => DigitsAfterE
  | Invalid => Invalid

/-- `"\3\3\7\3\4\6\6"`. -/
def onDigit : NumberParsingState → NumberParsingState
  | Minus => Digits
  | AfterMinus => Digits
  | ZeroFirst => Invalid
  | Digits => Digits
  | DigitsAfterPoints => DigitsAfterPoints
  | E => DigitsAfterE
  | DigitsAfterE => DigitsAfterE
  | Invalid => Invalid

/-- `"\7\7\4\4\7\7\7"`. -/
def onPoint : NumberParsingState → NumberParsingState
  | ZeroFirst => DigitsAfterPoints
  | Digits => DigitsAfterPoints
  | _ => Invalid

/-- `"\1\7\7\7\7\6\7"`. -/
def onMinus : NumberParsingState → NumberParsingState
  | Minus => AfterMinus
  | E => DigitsAfterE
  | _ => Invalid

/-- `"\7\7\7\7\7\6\7"`. -/
def onPlus : NumberParsingState → NumberParsingState
  | E => DigitsAfterE
  | _ => Invalid

/-- `"\7\7\7\5\5\7\7"`. -/
def onE : NumberParsingState → NumberParsingState
  | Digits => E
  | DigitsAfterPoints => E
  | _ => Invalid

/-- The switch of `decode_number`; no state for its default case. -/
def next (state : NumberParsingState) (c : Char) : Option NumberParsingState :=
  if c = '0' then some state.onZero
  else if '1' ≤ c && c ≤ '9' then some state.onDigit
  else if c = '.' then some state.onPoint
  else if c = '-' then some state.onMinus
  else if c = '+' then some state.onPlus
  else if c = 'e' || c = 'E' then some state.onE
  else none

/-- Where the default case makes a number. -/
def accepts : NumberParsingState → Bool
  | ZeroFirst => Bool.true
  | Digits => Bool.true
  | DigitsAfterPoints => Bool.true
  | DigitsAfterE => Bool.true
  | _ => Bool.false

end NumberParsingState

def isDigit (c : Char) : Bool := '0' ≤ c && c ≤ '9'

/-- The loop of `decode_number`.  `skipping` says that the last character was
one of `1` to `9`: the digits after it are passed over in the state. -/
def decodeNumber.loop (state : NumberParsingState) (skipping : Bool) : Reader Char (List Char)
  | [] => if state.accepts then .ok ([], []) else .error .malformed
  | c :: rest =>
      if skipping && isDigit c then
        (decodeNumber.loop state Bool.true rest).map fun r => (c :: r.1, r.2)
      else
        match state.next c with
        | none => if state.accepts then .ok ([], c :: rest) else .error .malformed
        | some .Invalid => .error .malformed
        | some state =>
            (decodeNumber.loop state ('1' ≤ c && c ≤ '9') rest).map fun r => (c :: r.1, r.2)

/-- `rvalue decode_number()`. -/
def decodeNumber : Reader Char (List Char) := decodeNumber.loop .Minus Bool.false

/-! ## §4. Values. -/

/-- The blanks of `ws_skip`, and the comma. -/
def layout : Layout Char where
  blank c := c = ' ' || c = '\t' || c = '\r' || c = '\n'
  sep := ','
  sep_visible := by decide

/-- `void ws_skip()`. -/
def wsSkip (text : List Char) : List Char := layout.skip text

/-- `rvalue decode_list(unsigned depth)`. -/
def decodeList (max_depth : Nat) (decodeValue : Nat → Reader Char RValue) (fuel depth : Nat) :
    Reader Char (List RValue) := fun text =>
  if depth ≤ max_depth then
    layout.readBracketed (decodeValue (depth + 1)) '[' ']' fuel text
  else .error .malformed

/-- A key, a colon and a value. -/
def decodeMember (value : Reader Char RValue) : Reader Char (List Char × RValue) := fun text =>
  match decodeString text with
  | .error e => .error e
  | .ok (raw, rest) =>
      match wsSkip rest with
      | ':' :: rest =>
          match value (wsSkip rest) with
          | .error e => .error e
          | .ok (v, rest) => .ok ((stringValue raw, v), rest)
      | _ => .error .malformed

/-- `rvalue decode_object(unsigned depth)`. -/
def decodeObject (max_depth : Nat) (decodeValue : Nat → Reader Char RValue) (fuel depth : Nat) :
    Reader Char (List (List Char × RValue)) := fun text =>
  if depth ≤ max_depth then
    layout.readBracketed (decodeMember (decodeValue (depth + 1))) '{' '}' fuel text
  else .error .malformed

/-- `rvalue decode_value(unsigned depth)`. -/
def decodeValue (max_depth : Nat) : Nat → Nat → Reader Char RValue
  | 0, _, _ => .error .outOfFuel
  | fuel + 1, depth, text =>
      match text with
      | '[' :: _ =>
          (decodeList max_depth (decodeValue max_depth fuel) fuel (depth + 1) text).map
            fun r => (.list r.1, r.2)
      | '{' :: _ =>
          (decodeObject max_depth (decodeValue max_depth fuel) fuel (depth + 1) text).map
            fun r => (.object r.1, r.2)
      | '"' :: _ => (decodeString text).map fun r => (.string r.1, r.2)
      | 't' :: rest =>
          match rest with
          | 'r' :: 'u' :: 'e' :: rest => .ok (.true, rest)
          | _ => .error .malformed
      | 'f' :: rest =>
          match rest with
          | 'a' :: 'l' :: 's' :: 'e' :: rest => .ok (.false, rest)
          | _ => .error .malformed
      | 'n' :: rest =>
          match rest with
          | 'u' :: 'l' :: 'l' :: rest => .ok (.null, rest)
          | _ => .error .malformed
      | _ => (decodeNumber text).map fun r => (.number r.1, r.2)

/-- `rvalue parse()`, with the bound of `load_nocopy_internal` as a parameter. -/
def parse (max_depth : Nat) (text : List Char) : Except ReadError RValue :=
  match decodeValue max_depth (text.length + 1) 0 (wsSkip text) with
  | .error e => .error e
  | .ok (v, rest) =>
      match wsSkip rest with
      | [] => .ok v
      | c :: _ => if c = '\x00' then .ok v else .error .malformed

/-- `max_depth` of `load_nocopy_internal`. -/
def maxDepth : Nat := 10000

/-- `rvalue load(const std::string& str)`. -/
def load (text : List Char) : Except ReadError RValue := parse maxDepth text

end ApiSyncer.Crow
