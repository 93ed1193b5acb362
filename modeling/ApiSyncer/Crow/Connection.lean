/-
  ApiSyncer.Crow.Connection
  ─────────────────────────
  **FROM RESPONSES TO BYTES, AND WHAT A CLIENT READS.**

  `prepare_buffers` writes a status line, the headers and an empty line; the body
  or the file follows.  A client takes the lines up to the empty one, and then as
  many bytes as `Content-Length` says, or none after a HEAD.

      write_ok_iff         what is written, and when
      readMessage_head     what a client reads behind a head
      readMessage_write    the parts of a response are read back
-/
import ApiSyncer.Crow.Access
import ApiSyncer.Crow.Response
import ApiSyncer.Lib.Framing

namespace ApiSyncer.Crow

open ApiSyncer.Lib

/-! ## §1. What is written. -/

/-- `statusCodes` of `prepare_buffers`: the codes, and what stands behind them in
their lines. -/
def statusCodes : List (Nat × String) :=
  [(100, "Continue"), (101, "Switching Protocols"), (200, "OK"), (201, "Created"),
    (202, "Accepted"), (203, "Non-Authoritative Information"), (204, "No Content"),
    (205, "Reset Content"), (206, "Partial Content"), (300, "Multiple Choices"),
    (301, "Moved Permanently"), (302, "Found"), (303, "See Other"), (304, "Not Modified"),
    (307, "Temporary Redirect"), (308, "Permanent Redirect"), (400, "Bad Request"),
    (401, "Unauthorized"), (403, "Forbidden"), (404, "Not Found"), (405, "Method Not Allowed"),
    (406, "Not Acceptable"), (407, "Proxy Authentication Required"), (409, "Conflict"),
    (410, "Gone"), (413, "Payload Too Large"), (415, "Unsupported Media Type"),
    (416, "Range Not Satisfiable"), (417, "Expectation Failed"), (428, "Precondition Required"),
    (429, "Too Many Requests"), (451, "Unavailable For Legal Reasons"),
    (500, "Internal Server Error"), (501, "Not Implemented"), (502, "Bad Gateway"),
    (503, "Service Unavailable"), (504, "Gateway Timeout"), (506, "Variant Also Negotiates")]

/-- `Crow/` and `VERSION`. -/
def serverName : List Char := "Crow/master".toList

/-- A header has the name, whatever the case of its letters. -/
def named (name : String) (header : String × List Char) : Bool :=
  header.1.toList.map Char.toLower = name.toList

/-- What a response finds on its connection: the order in which the headers come,
the date, whether the request asks to keep the connection, and whether the
response still has the header that was set after the last request. -/
structure Connection where
  arrange : List (String × List Char) → List (String × List Char)
  perm : ∀ headers, (arrange headers).Perm headers
  date : List Char
  date_line : '\r' ∉ date
  add_keep_alive : Bool
  carried : Bool

namespace Reply

/-- The code that is sent: one that is not in the table becomes 500. -/
def sentCode (r : Reply) : Nat := if (statusCodes.lookup r.code).isSome then r.code else 500

/-- The status line from the code on. -/
def status (r : Reply) : List Char :=
  Nat.toDigits 10 r.sentCode
    ++ ' ' :: ((statusCodes.lookup r.sentCode).getD "").toList ++ ['\r', '\n']

/-- The body that is sent: an error without one gets its status line from the code
on. -/
def sentBody (r : Reply) : List Char :=
  if 400 ≤ r.sentCode ∧ r.body = [] then r.status else r.body

end Reply

namespace Connection

variable (c : Connection)

/-- The headers of the response. -/
def headers (r : Reply) : List (String × List Char) :=
  c.arrange (if c.carried then ("connection", "Keep-Alive".toList) :: r.headers else r.headers)

/-- The headers, with those that `prepare_buffers` adds. -/
def fields (r : Reply) : List (String × List Char) :=
  c.headers r
    ++ (if (c.headers r).any (named "content-length") then []
      else [("Content-Length", Nat.toDigits 10 r.sentBody.length)])
    ++ (if (c.headers r).any (named "server") then [] else [("Server", serverName)])
    ++ (if (c.headers r).any (named "date") then [] else [("Date", c.date)])
    ++ (if c.add_keep_alive then [("Connection", "Keep-Alive".toList)] else [])

/-- A header and the end of its line. -/
def fieldLine (header : String × List Char) : List Char :=
  header.1.toList ++ ':' :: ' ' :: (header.2 ++ ['\r', '\n'])

/-- `void prepare_buffers()`: everything in front of the body. -/
def prepareBuffers (r : Reply) : List Char :=
  "HTTP/1.1 ".toList ++ r.status ++ (c.fields r).flatMap fieldLine ++ ['\r', '\n']

end Connection

/-- `res_stream_threshold_`. -/
def resStreamThreshold : Nat := 1048576

/-- `void do_write_general()`.  Beyond the threshold the body goes in pieces, and
sending the first one clears the string that the others are read from. -/
def doWriteGeneral (head body : List Char) : Except Failure (List Char) :=
  if body.length < resStreamThreshold then .ok (head ++ body) else .error .undefined

/-- What follows the head; `contents` is what is in the files. -/
def Reply.payload (contents : List Char → List Char) (r : Reply) : List Char :=
  match r.file with
  | some path => contents path
  | none => r.sentBody

/-- The end of `void complete_request()`: `do_write_static` or
`do_write_general`. -/
def Connection.write (c : Connection) (contents : List Char → List Char) (r : Reply) :
    Except Failure (List Char) :=
  match r.file with
  | some path => .ok (c.prepareBuffers r ++ contents path)
  | none => doWriteGeneral (c.prepareBuffers r) r.sentBody

/-! ## §2. What a client reads. -/

/-- A response, for a client. -/
structure Message where
  code : Nat
  headers : List (String × List Char)
  body : List Char

/-- A line of the head, up to the first colon and from behind the blank on. -/
def readField (line : List Char) : Option (String × List Char) :=
  match line.span (· ≠ ':') with
  | (name, ':' :: ' ' :: value) => some (String.ofList name, value)
  | _ => none

/-- The response has no body. -/
def bodiless (head_request : Bool) (code : Nat) : Bool :=
  head_request || code < 200 || code = 204 || code = 304

/-- One response, and what follows it. -/
def readMessage (head_request : Bool) (text : List Char) : Option (Message × List Char) :=
  match readBlock '\r' '\n' [] text with
  | some (status :: lines, rest) => do
      -- behind "HTTP/1.1 "
      let code := digitsValue (status.drop 9)
      let headers ← lines.mapM readField
      if bodiless head_request code then some (⟨code, headers, []⟩, rest)
      else
        let (_, value) ← headers.find? (named "content-length")
        let length := digitsValue value
        if rest.length < length then none
        else some (⟨code, headers, rest.take length⟩, rest.drop length)
  | _ => none

/-! ## §3. What is written is read. -/

/-- A header that stays on its line. -/
structure Readable (header : String × List Char) : Prop where
  colon : ':' ∉ header.1.toList
  name : '\r' ∉ header.1.toList
  value : '\r' ∉ header.2

theorem readField_readable {header : String × List Char} (h : Readable header) :
    readField (header.1.toList ++ ':' :: ' ' :: header.2) = some header := by
  have hname : ∀ c ∈ header.1.toList, (decide (c ≠ ':')) = Bool.true := by
    intro c hc
    rw [decide_eq_true_eq]
    rintro rfl
    exact h.colon hc
  unfold readField
  rw [List.span_eq_takeWhile_dropWhile, List.takeWhile_append_of_pos hname,
    List.dropWhile_append_of_pos hname]
  simp

theorem readFields_readable {headers : List (String × List Char)}
    (h : ∀ header ∈ headers, Readable header) :
    (headers.map fun header => header.1.toList ++ ':' :: ' ' :: header.2).mapM readField
      = some headers := by
  induction headers with
  | nil => rfl
  | cons header headers ih =>
      have hrest := ih fun h' hmem => h h' (List.mem_cons_of_mem header hmem)
      rw [List.map_cons, List.mapM_cons, readField_readable (h header List.mem_cons_self), hrest]
      rfl

/-- The digits in front of something else. -/
theorem digitsValue_append (n : Nat) {c : Char} (hc : isDigit c = Bool.false) (rest : List Char) :
    digitsValue (Nat.toDigits 10 n ++ c :: rest) = n := by
  obtain ⟨d, r, heq, hall⟩ := toDigits_cons n
  have hdigits : ∀ d ∈ Nat.toDigits 10 n, isDigit d = Bool.true := heq ▸ hall
  have htake : (Nat.toDigits 10 n ++ c :: rest).takeWhile isDigit = Nat.toDigits 10 n := by
    rw [List.takeWhile_append_of_pos hdigits, List.takeWhile_cons_of_neg (by simp [hc]),
      List.append_nil]
  unfold digitsValue
  rw [htake, Nat.ofDigitChars_ten_toDigits]

/-- A text without the byte. -/
theorem cr_not_mem {text : String} (h : 13 ∉ text.toByteArray.data.toList) :
    '\r' ∉ text.toList := by
  intro hmem
  refine h ?_
  rw [← String.utf8Encode_toList, List.utf8Encode]
  have hbyte : (13 : UInt8) ∈ String.utf8EncodeChar '\r' := by decide
  simpa using List.mem_flatMap.mpr ⟨'\r', hmem, hbyte⟩

/-- No phrase and no media type ends a line. -/
theorem statusCodes_bytes : ∀ entry ∈ statusCodes, 13 ∉ entry.2.toByteArray.data.toList := by
  decide +kernel

theorem mimeTypes_bytes : ∀ entry ∈ mimeTypes, 13 ∉ entry.2.toByteArray.data.toList := by
  decide +kernel

theorem readable_of_bytes {name : String} {value : List Char} (hcolon : ':' ∉ name.toList)
    (hname : 13 ∉ name.toByteArray.data.toList) (hvalue : '\r' ∉ value) :
    Readable (name, value) := ⟨hcolon, cr_not_mem hname, hvalue⟩

theorem cr_not_mem_toDigits (n : Nat) : '\r' ∉ Nat.toDigits 10 n := by
  intro hmem
  obtain ⟨d, l, heq, hall⟩ := toDigits_cons n
  exact absurd (hall '\r' (heq ▸ hmem)) (by decide)

theorem named_contentLength (value : List Char) :
    named "content-length" ("Content-Length", value) = Bool.true := by
  have hlower : "Content-Length".toList.map Char.toLower = "content-length".toList := by decide
  exact decide_eq_true hlower

namespace Reply

variable {r : Reply} {n : Nat}

/-- The status line without its end. -/
def statusLine (r : Reply) : List Char :=
  "HTTP/1.1 ".toList ++ Nat.toDigits 10 r.sentCode
    ++ ' ' :: ((statusCodes.lookup r.sentCode).getD "").toList

theorem statusLine_eq : "HTTP/1.1 ".toList ++ r.status = r.statusLine ++ ['\r', '\n'] := by
  unfold status statusLine
  simp only [List.append_assoc]

theorem statusLine_code : digitsValue (r.statusLine.drop 9) = r.sentCode := by
  have hdrop : r.statusLine.drop 9
      = Nat.toDigits 10 r.sentCode ++ ' ' :: ((statusCodes.lookup r.sentCode).getD "").toList := by
    unfold statusLine
    rw [List.append_assoc]
    rfl
  rw [hdrop, digitsValue_append r.sentCode (by decide)]

theorem cr_not_mem_statusLine : '\r' ∉ r.statusLine := by
  intro hmem
  unfold statusLine at hmem
  rw [List.mem_append, List.mem_append, List.mem_cons] at hmem
  rcases hmem with (hversion | hdigit) | hblank | hreason
  · exact absurd hversion (cr_not_mem (by decide))
  · exact cr_not_mem_toDigits r.sentCode hdigit
  · exact absurd hblank (by decide)
  · cases hlookup : statusCodes.lookup r.sentCode with
    | none => simp [hlookup] at hreason
    | some reason =>
        rw [hlookup] at hreason
        obtain ⟨l₁, l₂, heq, -⟩ := List.lookup_eq_some_iff.mp hlookup
        have hentry : (r.sentCode, reason) ∈ statusCodes := by simp [heq]
        exact cr_not_mem (statusCodes_bytes _ hentry) hreason

/-- A response whose head can be read: the headers stay on their lines, and the
length that they give is `n`. -/
structure Sendable (r : Reply) (n : Nat) : Prop where
  readable : ∀ header ∈ r.headers, Readable header
  length : ∀ header ∈ r.headers, named "content-length" header = Bool.true →
    header.1 = "Content-Length" ∧ header.2 = Nat.toDigits 10 n
  unsaid : (∀ header ∈ r.headers, named "content-length" header = Bool.false) →
    r.sentBody.length = n

/-- Without a "Content-Length" header the length is that of the body. -/
theorem sendable_unsaid (h : ∀ header ∈ r.headers,
    Readable header ∧ named "content-length" header = Bool.false) :
    r.Sendable r.sentBody.length where
  readable header hmem := (h header hmem).1
  length header hmem hnamed := absurd hnamed (by rw [(h header hmem).2]; exact Bool.false_ne_true)
  unsaid _ := rfl

/-- After a HEAD request the length is that of the body that is gone. -/
theorem Sendable.ended (h : r.Sendable n) : (r.ended Bool.true).Sendable r.body.length := by
  have hmem : ∀ header ∈ (r.ended Bool.true).headers,
      header ∈ r.headers ∧ header.1 ≠ "Content-Length"
        ∨ header = ("Content-Length", Nat.toDigits 10 r.body.length) := by
    intro header hmem
    unfold Reply.ended at hmem
    simpa using hmem
  -- every other header of that name was taken out before
  have hlast : ("Content-Length", Nat.toDigits 10 r.body.length) ∈ (r.ended Bool.true).headers := by
    simp [Reply.ended]
  refine ⟨fun header hheader => ?_, fun header hheader hnamed => ?_, fun hunsaid => ?_⟩
  · rcases hmem header hheader with ⟨hreply, -⟩ | rfl
    · exact h.readable header hreply
    · exact readable_of_bytes (by decide) (by decide) (cr_not_mem_toDigits _)
  · rcases hmem header hheader with ⟨hreply, hne⟩ | rfl
    · exact absurd (h.length header hreply hnamed).1 hne
    · exact ⟨rfl, rfl⟩
  · have hnamed := hunsaid _ hlast
    rw [named_contentLength] at hnamed
    cases hnamed

end Reply

section Read

variable {c : Connection} {r : Reply} {n : Nat}

theorem mem_headers {header : String × List Char} :
    header ∈ c.headers r ↔ header ∈ r.headers
      ∨ c.carried = Bool.true ∧ header = ("connection", "Keep-Alive".toList) := by
  unfold Connection.headers
  rw [(c.perm _).mem_iff]
  cases c.carried <;> simp [or_comm]

/-- The headers that `prepare_buffers` adds stay on their lines as well. -/
theorem fields_readable (h : r.Sendable n) : ∀ header ∈ c.fields r, Readable header := by
  have hheaders : ∀ header ∈ c.headers r, Readable header := by
    intro header hmem
    rcases mem_headers.mp hmem with hreply | ⟨-, rfl⟩
    · exact h.readable header hreply
    · exact readable_of_bytes (by decide) (by decide) (cr_not_mem (by decide))
  intro header hmem
  unfold Connection.fields at hmem
  simp only [List.mem_append, List.mem_ite_nil_left, List.mem_ite_nil_right, List.mem_singleton]
    at hmem
  rcases hmem with (((hmem | ⟨-, rfl⟩) | ⟨-, rfl⟩) | ⟨-, rfl⟩) | ⟨-, rfl⟩
  · exact hheaders header hmem
  · exact readable_of_bytes (by decide) (by decide) (cr_not_mem_toDigits _)
  · exact readable_of_bytes (by decide) (by decide) (cr_not_mem (by decide))
  · exact readable_of_bytes (by decide) (by decide) c.date_line
  · exact readable_of_bytes (by decide) (by decide) (cr_not_mem (by decide))

/-- The length that is found first. -/
theorem find_length (h : r.Sendable n) :
    ∃ name, (c.fields r).find? (named "content-length") = some (name, Nat.toDigits 10 n) := by
  unfold Connection.fields
  simp only [List.append_assoc, List.find?_append]
  -- the response has said its length, or `prepare_buffers` adds it
  cases hfind : (c.headers r).find? (named "content-length") with
  | some header =>
      have hnamed := List.find?_some hfind
      rcases mem_headers.mp (List.mem_of_find?_eq_some hfind) with hmem | ⟨-, rfl⟩
      · exact ⟨header.1, congrArg some (Prod.ext rfl (h.length header hmem hnamed).2)⟩
      · exact absurd hnamed (by decide)
  | none =>
      have hnone := List.find?_eq_none.mp hfind
      have hany : (c.headers r).any (named "content-length") = Bool.false :=
        List.any_eq_false.mpr hnone
      have hunsaid : r.sentBody.length = n :=
        h.unsaid fun header hmem => Bool.eq_false_iff.mpr (hnone header (mem_headers.mpr (.inl hmem)))
      refine ⟨"Content-Length", ?_⟩
      rw [hany, if_neg Bool.false_ne_true, List.find?_cons_of_pos (named_contentLength _), hunsaid]
      rfl

/-- The head is a block. -/
theorem prepareBuffers_eq : c.prepareBuffers r
    = block '\r' '\n' (r.statusLine
      :: (c.fields r).map fun header => header.1.toList ++ ':' :: ' ' :: header.2) := by
  have hline : Connection.fieldLine
      = fun header => (header.1.toList ++ ':' :: ' ' :: header.2) ++ ['\r', '\n'] := by
    funext header
    simp only [Connection.fieldLine, List.append_assoc, List.cons_append]
  unfold Connection.prepareBuffers block
  rw [Reply.statusLine_eq, List.flatMap_cons, List.flatMap_map, hline]

/-- **What a client reads**, when the head is in front of anything. -/
theorem readMessage_head (h : r.Sendable n) (head_request : Bool) (text : List Char) :
    readMessage head_request (c.prepareBuffers r ++ text)
      = if bodiless head_request r.sentCode then some (⟨r.sentCode, c.fields r, []⟩, text)
        else if text.length < n then none
        else some (⟨r.sentCode, c.fields r, text.take n⟩, text.drop n) := by
  have hreadable := @fields_readable c r n h
  have hlines : ∀ l ∈ r.statusLine
      :: (c.fields r).map (fun header => header.1.toList ++ ':' :: ' ' :: header.2),
      l ≠ [] ∧ '\r' ∉ l := by
    refine List.forall_mem_cons.mpr ⟨⟨?_, Reply.cr_not_mem_statusLine⟩, fun l hl => ?_⟩
    · exact List.append_ne_nil_of_right_ne_nil _ (List.cons_ne_nil _ _)
    · obtain ⟨header, hmem, rfl⟩ := List.mem_map.mp hl
      obtain ⟨-, hname, hvalue⟩ := hreadable header hmem
      simp [hname, hvalue]
  obtain ⟨name, hfind⟩ := @find_length c r n h
  unfold readMessage
  rw [prepareBuffers_eq, readBlock_block hlines]
  simp only [readFields_readable hreadable, Reply.statusLine_code, Option.bind_eq_bind,
    Option.bind_some, hfind, digitsValue_toDigits]

variable {contents : List Char → List Char} {text : List Char}

theorem write_ok_iff : c.write contents r = .ok text
    ↔ text = c.prepareBuffers r ++ r.payload contents
      ∧ (r.file = none → r.sentBody.length < resStreamThreshold) := by
  unfold Connection.write Reply.payload
  cases hfile : r.file with
  | some path => simp [eq_comm]
  | none =>
      unfold doWriteGeneral
      by_cases hlength : r.sentBody.length < resStreamThreshold
      · simp [hlength, eq_comm]
      · simp [hlength]

/-- **A response in front of anything** is read with the code, the headers and, if
there is to be one, the body. -/
theorem readMessage_write {head_request : Bool} (h : r.Sendable n)
    (hlength : bodiless head_request r.sentCode = Bool.false → (r.payload contents).length = n)
    (hwrite : c.write contents r = .ok text) (rest : List Char) :
    readMessage head_request (text ++ rest)
      = if bodiless head_request r.sentCode then
          some (⟨r.sentCode, c.fields r, []⟩, r.payload contents ++ rest)
        else some (⟨r.sentCode, c.fields r, r.payload contents⟩, rest) := by
  obtain ⟨rfl, -⟩ := write_ok_iff.mp hwrite
  rw [List.append_assoc, readMessage_head h]
  cases hbodiless : bodiless head_request r.sentCode with
  | true => rfl
  | false =>
      obtain rfl := hlength hbodiless
      simp

end Read

end ApiSyncer.Crow
