/-
  ApiSyncer.Wire
  ──────────────
  **WHAT A CLIENT READS FROM ITS CONNECTION.**

  Every answer goes out as a head and what follows it.  A client that reads the
  head, and then as much as the head says, gets the answer and is where the next
  one starts.  After a HEAD request it expects nothing behind the head: an error
  or a file there puts it out of step.

      http_wire      one answer, and when the client stays in step
      http_stream    the answers to a run of requests
-/
import ApiSyncer.Crow.Connection
import ApiSyncer.HttpRuns

namespace ApiSyncer

open ApiSyncer.Lib ApiSyncer.Crow

/-! ## §1. The answers. -/

/-- What a handler leaves to the connection. -/
structure Handled (stat : List Char → Option Nat) (r : Reply) : Prop where
  code : r.code ∈ [200, 201, 400, 404, 500]
  plain : r.file = none → r.Sendable r.sentBody.length
  file : ∀ path, r.file = some path → r.code = 200 ∧ r.body = []
    ∧ ∃ size, stat path = some size ∧ r.Sendable size

section Answers

variable {mysql : MySQL} {w : World} {req : HttpRequest} {s s' : State} {reply : Reply}
  {stat : List Char → Option Nat}

theorem readable_json : ∀ header ∈ jsonHeaders,
    Readable header ∧ named "content-length" header = false := by
  exact List.forall_mem_singleton.mpr ⟨readable_of_bytes (by decide) (by decide)
    (cr_not_mem (by decide)), by decide⟩

theorem Handled.unsaid {code : Nat} {headers : List (String × List Char)} {body : List Char}
    (hcode : code ∈ [200, 201, 400, 404, 500])
    (hheaders : ∀ header ∈ headers, Readable header ∧ named "content-length" header = false) :
    Handled stat ⟨code, headers, body, none⟩ where
  code := hcode
  plain _ := Reply.sendable_unsaid hheaders
  file path hfile := by cases hfile

theorem Handled.text {code : Nat} {message : String} (hcode : code ∈ [200, 201, 400, 404, 500]) :
    Handled stat (.text code message) :=
  .unsaid hcode fun _ hmem => absurd hmem List.not_mem_nil

/-- The answers of the two methods. -/
theorem handled_reply {iteration : Order} {resp : HttpResponse}
    (hcode : resp.code ∈ [200, 201, 400, 404, 500]) : Handled stat (resp.reply iteration) := by
  refine .unsaid hcode ?_
  cases resp.payload with
  | json fields => exact readable_json
  | text message => exact fun header hmem => absurd hmem List.not_mem_nil
  | empty => exact fun header hmem => absurd hmem List.not_mem_nil

/-- The type of a file stays on its line: it comes from the table, or from a path
without control characters. -/
theorem cr_not_mem_getMimeType {type : List Char} (h : '\r' ∉ type) : '\r' ∉ getMimeType type := by
  unfold getMimeType
  split
  next entry hfind => exact cr_not_mem (mimeTypes_bytes entry (List.mem_of_find?_eq_some hfind))
  next =>
    split
    · exact h
    · exact cr_not_mem (by decide)

theorem cr_not_mem_extension (file_path : List Char) : '\r' ∉ extension (staticPath file_path) := by
  intro hmem
  have hpath : '\r' ∈ staticPath file_path := by
    unfold extension at hmem
    exact List.mem_reverse.mp (List.takeWhile_subset _ (List.mem_reverse.mp hmem))
  rcases List.mem_append.mp hpath with hdirectory | hfile
  · exact absurd hdirectory (by decide)
  · have hplain := (clean_sanitizeFilename file_path).chars _ hfile
    exact absurd hplain (by decide)

theorem handled_static (file_path : List Char) :
    Handled stat (.setStaticFileInfo stat (staticPath file_path)) := by
  unfold Reply.setStaticFileInfo
  cases hstat : stat (staticPath file_path) with
  | none => exact .unsaid (by decide) fun _ hmem => absurd hmem List.not_mem_nil
  | some size =>
      have htype : Readable ("Content-Type", getMimeType (extension (staticPath file_path))) :=
        readable_of_bytes (by decide) (by decide)
          (cr_not_mem_getMimeType (cr_not_mem_extension file_path))
      have hunnamed : named "content-length"
          ("Content-Type", getMimeType (extension (staticPath file_path))) = false := by
        have hne : "Content-Type".toList.map Char.toLower ≠ "content-length".toList := by decide
        exact decide_eq_false hne
      refine ⟨(by decide : 200 ∈ [200, 201, 400, 404, 500]), fun hfile => (by cases hfile),
        fun path hfile => ⟨rfl, rfl, size, ?_, ?_⟩⟩
      -- the length is said, and only once
      · rw [← Option.some.inj hfile, hstat]
      · refine ⟨fun header hmem => ?_, fun header hmem hnamed => ?_, fun hunsaid => ?_⟩
        · rcases List.mem_cons.mp hmem with rfl | hmem
          · exact readable_of_bytes (by decide) (by decide) (cr_not_mem_toDigits size)
          · obtain ⟨-, rfl⟩ := List.mem_ite_nil_right.mp hmem |>.imp_right List.mem_singleton.mp
            exact htype
        · rcases List.mem_cons.mp hmem with rfl | hmem
          · exact ⟨rfl, rfl⟩
          · obtain ⟨-, rfl⟩ := List.mem_ite_nil_right.mp hmem |>.imp_right List.mem_singleton.mp
            rw [hunnamed] at hnamed
            cases hnamed
        · have hnamed := hunsaid _ List.mem_cons_self
          rw [named_contentLength] at hnamed
          cases hnamed

theorem AddBody.arguments_code {body : AddBody} {resp : HttpResponse}
    (h : body.arguments = .error resp) : resp.code = 500 := by
  unfold AddBody.arguments at h
  split at h <;> cases h <;> rfl

theorem RemoveBody.argument_code {body : RemoveBody} {resp : HttpResponse}
    (h : body.argument = .error resp) : resp.code = 500 := by
  unfold RemoveBody.argument at h
  split at h <;> cases h <;> rfl

theorem addNodeHandler_code {body : Option AddBody} {env : Env} {resp : HttpResponse}
    (h : addNodeHandler mysql body env s = .ok (resp, s')) :
    resp.code ∈ [200, 201, 400, 404, 500] := by
  cases body with
  | none =>
      obtain ⟨rfl, -⟩ := Prod.mk.inj (Except.ok.inj h)
      decide
  | some body =>
      cases hargs : body.arguments with
      | error resp' =>
          rw [addNodeHandler_error hargs] at h
          obtain ⟨rfl, -⟩ := Prod.mk.inj (Except.ok.inj h)
          rw [AddBody.arguments_code hargs]
          decide
      | ok args =>
          cases hadd : addNode mysql args.1 args.2 env s with
          | error a => simp [addNodeHandler, hargs, hadd, bind, Except.bind] at h
          | ok result =>
              rw [addNodeHandler_ok hargs hadd] at h
              obtain ⟨rfl, -⟩ := Prod.mk.inj (Except.ok.inj h)
              exact (by decide : 201 ∈ [200, 201, 400, 404, 500])

theorem removeNodeHandler_code {body : Option RemoveBody} {env : Env} {resp : HttpResponse}
    (h : removeNodeHandler mysql body env s = .ok (resp, s')) :
    resp.code ∈ [200, 201, 400, 404, 500] := by
  cases body with
  | none =>
      obtain ⟨rfl, -⟩ := Prod.mk.inj (Except.ok.inj h)
      decide
  | some body =>
      cases harg : body.argument with
      | error resp' =>
          rw [removeNodeHandler_error harg] at h
          obtain ⟨rfl, -⟩ := Prod.mk.inj (Except.ok.inj h)
          rw [RemoveBody.argument_code harg]
          decide
      | ok id =>
          cases hremove : removeNode mysql id env s with
          | error a => simp [removeNodeHandler, harg, hremove, bind, Except.bind] at h
          | ok result =>
              rw [removeNodeHandler_ok harg hremove] at h
              obtain ⟨rfl, -⟩ := Prod.mk.inj (Except.ok.inj h)
              exact (by decide : 201 ∈ [200, 201, 400, 404, 500])

/-- Every handler. -/
theorem handled_handle {r : Route} (h : r.handle mysql w req s = .ok (reply, s')) :
    Handled w.stat reply := by
  cases r with
  | addNode =>
      simp only [Route.handle, postAddNode] at h
      split at h
      next => cases h
      next body _ =>
        cases hcall : addNodeHandler mysql body w.env s with
        | error a => simp [hcall] at h
        | ok result =>
            rw [hcall] at h
            obtain ⟨rfl, -⟩ := Prod.mk.inj (Except.ok.inj h)
            exact handled_reply (addNodeHandler_code hcall)
  | removeNode =>
      simp only [Route.handle, postRemoveNode] at h
      split at h
      next => cases h
      next body _ =>
        cases hcall : removeNodeHandler mysql body w.env s with
        | error a => simp [hcall] at h
        | ok result =>
            rw [hcall] at h
            obtain ⟨rfl, -⟩ := Prod.mk.inj (Except.ok.inj h)
            exact handled_reply (removeNodeHandler_code hcall)
  | tree =>
      simp only [Route.handle, getTree] at h
      split at h
      next => cases h
      next json _ =>
        obtain ⟨rfl, -⟩ := Prod.mk.inj (Except.ok.inj h)
        cases json with
        | none => exact .text (by decide)
        | some t => exact .unsaid (by decide) readable_json
  | helloWorld =>
      obtain ⟨rfl, -⟩ := Prod.mk.inj (Except.ok.inj h)
      exact .text (by decide)
  | verify =>
      obtain ⟨rfl, -⟩ := Prod.mk.inj (Except.ok.inj h)
      exact .text (by decide)
  | staticFile =>
      obtain ⟨rfl, -⟩ := Prod.mk.inj (Except.ok.inj h)
      exact handled_static _

/-- What the router answers itself. -/
theorem dispatch_respond {method : HTTPMethod} {url : List Char} {code : Nat}
    {headers : List (String × List Char)} {skip_body : Bool}
    (h : dispatch method url = .respond code headers skip_body) :
    skip_body = false ∧ code ∈ [204, 404, 405] ∧ (method = .Head → code = 404)
      ∧ ∀ header ∈ headers, Readable header ∧ named "content-length" header = false := by
  -- only the answer to an OPTIONS has a header
  have hnil : ∀ header ∈ ([] : List (String × List Char)),
      Readable header ∧ named "content-length" header = false := List.forall_mem_nil _
  have hallow : ∀ text : String, 13 ∉ text.toByteArray.data.toList →
      ∀ header ∈ [("Allow", text.toList)],
        Readable header ∧ named "content-length" header = false := by
    intro text htext
    have hne : "Allow".toList.map Char.toLower ≠ "content-length".toList := by decide
    exact List.forall_mem_singleton.mpr
      ⟨readable_of_bytes (by decide) (by decide) (cr_not_mem htext), decide_eq_false hne⟩
  have hcode : ∀ b : Bool, (if b = true then 405 else 404) ∈ [204, 404, 405] := by decide
  unfold dispatch at h
  split at h
  next =>
      split at h
      next => cases h
      next =>
          cases h
          exact ⟨rfl, hcode _, fun hhead => (by cases hhead), hnil⟩
  next =>
      split at h
      next => cases h
      next =>
          cases h
          exact ⟨rfl, hcode _, fun hhead => (by cases hhead), hnil⟩
  next =>
      split at h
      next => cases h
      next =>
          cases h
          exact ⟨rfl, by decide, fun _ => rfl, hnil⟩
  next =>
      split_ifs at h <;> cases h
      · exact ⟨rfl, by decide, fun hhead => (by cases hhead), hallow _ (by decide)⟩
      · exact ⟨rfl, by decide, fun hhead => (by cases hhead), hallow _ (by decide)⟩
      · exact ⟨rfl, by decide, fun hhead => (by cases hhead), hallow _ (by decide)⟩
      · exact ⟨rfl, by decide, fun hhead => (by cases hhead), hnil⟩
  next hget hpost hhead' hoptions =>
      cases h
      exact ⟨rfl, hcode _, fun hhead => absurd hhead hhead', hnil⟩

theorem dispatch_skips {method : HTTPMethod} {url : List Char} {r : BaseRule Route}
    {skip_body : Bool} (h : dispatch method url = .call r skip_body) :
    skip_body = decide (method = .Head) := by
  unfold dispatch at h
  split at h
  · split at h <;> cases h
    rfl
  · split at h <;> cases h
    rfl
  · split at h <;> cases h
    rfl
  · split_ifs at h
  · cases h

theorem sentCode_eq (h : reply.code ∈ [200, 201, 204, 400, 404, 405, 500]) :
    reply.sentCode = reply.code := by
  have hall : ∀ code ∈ [200, 201, 204, 400, 404, 405, 500],
      (statusCodes.lookup code).isSome = true := by decide
  unfold Reply.sentCode
  rw [if_pos (hall reply.code h)]

/-- Nothing goes out without a body, but for the text of an error and the file. -/
theorem payload_eq_nil_iff {contents : List Char → List Char} (hcode : reply.sentCode = reply.code)
    (hbody : reply.body = []) (hfile : ∀ path, reply.file = some path → reply.code < 400) :
    reply.payload contents = []
      ↔ reply.code < 400 ∧ ∀ path, reply.file = some path → contents path = [] := by
  have hstatus : reply.status ≠ [] :=
    List.append_ne_nil_of_left_ne_nil (List.append_ne_nil_of_right_ne_nil _ (List.cons_ne_nil _ _)) _
  unfold Reply.payload
  cases hcase : reply.file with
  | some path => simp [hfile path hcase]
  | none =>
      unfold Reply.sentBody
      rw [hcode, hbody]
      by_cases herror : 400 ≤ reply.code
      · simp [herror, hstatus, Nat.not_lt.mpr herror]
      · simp [herror, Nat.lt_of_not_le herror]

/-- What goes out: after anything but a HEAD, as much as the head says. -/
structure Outgoing (head_request : Bool) (contents : List Char → List Char) (r : Reply) : Prop where
  code : r.sentCode = r.code
  sendable : ∃ n, r.Sendable n ∧ (head_request = false → (r.payload contents).length = n)
  silent : head_request = true → (r.payload contents = []
    ↔ r.code < 400 ∧ ∀ path, r.file = some path → contents path = [])
  bodiless : bodiless head_request r.code = head_request
    ∨ bodiless head_request r.code = true ∧ r.payload contents = []

/-- Codes with a body, unless the request is a HEAD. -/
theorem bodiless_handled {code : Nat} (h : code ∈ [200, 201, 400, 404, 500])
    (head_request : Bool) : bodiless head_request code = head_request := by
  have hall : ∀ code ∈ [200, 201, 400, 404, 500], ∀ head_request : Bool,
      bodiless head_request code = head_request := by decide
  exact hall code h head_request

/-- The answer of a handler, with its body or without. -/
theorem Handled.outgoing {contents : List Char → List Char} {head_request : Bool}
    (hcontents : ∀ path size, stat path = some size → (contents path).length = size)
    (h : Handled stat reply) : Outgoing head_request contents (reply.ended head_request) := by
  have hcodes : [200, 201, 400, 404, 500] ⊆ [200, 201, 204, 400, 404, 405, 500] := by decide
  have hfile : ∀ path, reply.file = some path → reply.code < 400 := fun path hpath => by
    rw [(h.file path hpath).1]
    decide
  cases head_request with
  | false =>
      refine ⟨sentCode_eq (hcodes h.code), ?_, fun hhead => (by cases hhead),
        Or.inl (bodiless_handled h.code false)⟩
      show ∃ n, reply.Sendable n ∧ (false = false → (reply.payload contents).length = n)
      cases hcase : reply.file with
      | none => exact ⟨_, h.plain hcase, fun _ => by unfold Reply.payload; rw [hcase]⟩
      | some path =>
          obtain ⟨-, -, size, hstat, hsendable⟩ := h.file path hcase
          exact ⟨size, hsendable, fun _ => by
            unfold Reply.payload
            rw [hcase]
            exact hcontents path size hstat⟩
  | true =>
      -- the head speaks of the body that was left out
      have hcode : (reply.ended true).sentCode = (reply.ended true).code := sentCode_eq (hcodes h.code)
      have hsendable : ∃ n, reply.Sendable n := by
        cases hcase : reply.file with
        | none => exact ⟨_, h.plain hcase⟩
        | some path =>
            obtain ⟨-, -, size, -, hsendable⟩ := h.file path hcase
            exact ⟨size, hsendable⟩
      obtain ⟨n, hsendable⟩ := hsendable
      exact ⟨hcode, ⟨_, hsendable.ended, fun hhead => by cases hhead⟩,
        fun _ => payload_eq_nil_iff hcode rfl hfile, Or.inl (bodiless_handled h.code true)⟩

/-- Every answer. -/
theorem serveHttp_outgoing {contents : List Char → List Char}
    (hcontents : ∀ path size, w.stat path = some size → (contents path).length = size)
    (h : serveHttp mysql w req s = .ok (reply, s')) :
    Outgoing (req.method = .Head) contents reply := by
  rw [serveHttp_eq] at h
  cases hdispatch : dispatch req.method req.url with
  | corrupted =>
      rw [hdispatch] at h
      cases h
  | respond code headers skip_body =>
      rw [hdispatch] at h
      obtain ⟨rfl, -⟩ := Prod.mk.inj (Except.ok.inj h)
      obtain ⟨rfl, hcode, hhead, hheaders⟩ := dispatch_respond hdispatch
      have hcodes : [204, 404, 405] ⊆ [200, 201, 204, 400, 404, 405, 500] := by decide
      have hsent : Reply.sentCode ⟨code, headers, [], none⟩ = code := @sentCode_eq
        ⟨code, headers, [], none⟩ (hcodes hcode)
      have hsilent := @payload_eq_nil_iff ⟨code, headers, [], none⟩ contents hsent rfl
        fun path hpath => by cases hpath
      refine ⟨hsent, ⟨_, Reply.sendable_unsaid hheaders, fun _ => rfl⟩, fun _ => hsilent, ?_⟩
      show bodiless (req.method = .Head) code = (decide (req.method = .Head))
        ∨ bodiless (req.method = .Head) code = true
          ∧ Reply.payload contents ⟨code, headers, [], none⟩ = []
      -- 204 has no body in any case, and nothing goes out
      by_cases hcase : code = 204
      · subst hcase
        exact Or.inr ⟨by simp [bodiless], hsilent.mpr ⟨(by decide : 204 < 400), fun path hpath => by cases hpath⟩⟩
      · have hall : ∀ code ∈ [204, 404, 405], code ≠ 204 → ∀ head_request : Bool,
            bodiless head_request code = head_request := by decide
        exact Or.inl (hall code hcode hcase _)
  | call r skip_body =>
      rw [hdispatch] at h
      simp only at h
      obtain rfl := dispatch_skips hdispatch
      cases hhandle : r.handler.handle mysql w req s with
      | error f =>
          rw [hhandle] at h
          cases h
      | ok result =>
          rw [hhandle] at h
          obtain ⟨rfl, -⟩ := Prod.mk.inj (Except.ok.inj h)
          exact (handled_handle hhandle).outgoing hcontents

end Answers

/-! ## §2. One answer. -/

section OneAnswer

variable {mysql : MySQL} {w : World} {req : HttpRequest} {s s' : State} {reply : Reply}
  {contents : List Char → List Char}

/-- What the client is to get. -/
def HttpRequest.message (c : Connection) (contents : List Char → List Char) (req : HttpRequest)
    (reply : Reply) : Message where
  code := reply.code
  headers := c.fields reply
  body := if req.method = .Head then [] else reply.payload contents

/-- A body of a mebibyte or more goes out in no defined way. -/
theorem write_undefined_iff {c : Connection} :
    c.write contents reply = .error .undefined
      ↔ reply.file = none ∧ resStreamThreshold ≤ reply.sentBody.length := by
  unfold Connection.write
  cases hcase : reply.file with
  | some path => simp
  | none =>
      unfold doWriteGeneral
      by_cases hlength : reply.sentBody.length < resStreamThreshold
      · simp [hlength]
      · simp [hlength, Nat.le_of_not_lt hlength]

/-- An answer that goes out is read, and what is behind it is left over, unless the
client of a HEAD is sent a body. -/
theorem serveHttp_read (h : serveHttp mysql w req s = .ok (reply, s')) {c : Connection}
    (hcontents : ∀ path size, w.stat path = some size → (contents path).length = size)
    {text : List Char} (hwrite : c.write contents reply = .ok text) (rest : List Char) :
    ∃ rest', readMessage (req.method = .Head) (text ++ rest)
          = some (req.message c contents reply, rest')
        ∧ (rest' = rest ↔ (req.method = .Head →
          reply.code < 400 ∧ ∀ path, reply.file = some path → contents path = [])) := by
  have hout := serveHttp_outgoing hcontents h
  obtain ⟨n, hsendable, hlength⟩ := hout.sendable
  have hsent : bodiless (req.method = .Head) reply.sentCode = false →
      (reply.payload contents).length = n := by
    intro hbodiless
    rw [hout.code] at hbodiless
    rcases hout.bodiless with heq | ⟨htrue, -⟩
    · exact hlength (heq ▸ hbodiless)
    · rw [hbodiless] at htrue
      cases htrue
  have hread := readMessage_write hsendable hsent hwrite rest
  rw [hout.code] at hread
  unfold HttpRequest.message
  by_cases hhead : req.method = .Head
  · have hbodiless : bodiless (req.method = .Head) reply.code = true := by simp [bodiless, hhead]
    rw [if_pos hbodiless] at hread
    refine ⟨_, by rw [hread, if_pos hhead], ?_⟩
    rw [List.append_left_eq_self, hout.silent (decide_eq_true hhead)]
    exact ⟨fun hsilent _ => hsilent, fun hsilent => hsilent hhead⟩
  · rcases hout.bodiless with heq | ⟨htrue, hnil⟩
    · rw [heq, decide_eq_false hhead, if_neg Bool.false_ne_true] at hread
      refine ⟨rest, by rw [decide_eq_false hhead, hread, if_neg hhead], ?_⟩
      exact ⟨fun _ h => absurd h hhead, fun _ => rfl⟩
    · rw [htrue, if_pos rfl, hnil, List.nil_append] at hread
      refine ⟨rest, by rw [hread, if_neg hhead, hnil], ?_⟩
      exact ⟨fun _ h => absurd h hhead, fun _ => rfl⟩

/-- **What a client reads of an answer.**  As long as files keep their length, an
answer of less than a mebibyte goes out, and a client that reads it gets its code,
its headers and its body.  It is then at the start of the next answer, unless
the request is a HEAD and the answer an error or a file with something in it. -/
theorem http_wire (h : serveHttp mysql w req s = .ok (reply, s')) (c : Connection)
    (hcontents : ∀ path size, w.stat path = some size → (contents path).length = size) :
    (c.write contents reply = .error .undefined
        ↔ reply.file = none ∧ resStreamThreshold ≤ reply.sentBody.length)
      ∧ ∀ text, c.write contents reply = .ok text → ∀ rest, ∃ rest',
        readMessage (req.method = .Head) (text ++ rest)
            = some (req.message c contents reply, rest')
          ∧ (rest' = rest ↔ (req.method = .Head →
            reply.code < 400 ∧ ∀ path, reply.file = some path → contents path = [])) :=
  ⟨write_undefined_iff, fun _ hwrite rest => serveHttp_read h hcontents hwrite rest⟩

/-- The headers in their order, and the first date. -/
def firstConnection : Connection where
  arrange headers := headers
  perm headers := .refl headers
  date := "Thu, 01 Jan 1970 00:00:00 GMT".toList
  date_line := cr_not_mem (by decide)
  add_keep_alive := true
  carried := false

/-- A file of one byte, and something behind it. -/
theorem http_wire_file : ∃ reply text,
    serveHttp readsA (.plain []) ⟨.Get, "/static/a".toList, []⟩ State.initial
        = .ok (reply, State.initial)
      ∧ firstConnection.write (fun _ => ['x']) reply = .ok text
      ∧ ∃ message, readMessage false (text ++ ['y']) = some (message, ['y'])
        ∧ message.body = ['x'] := by
  have hserve := @serveHttp_call readsA (.plain []) ⟨.Get, "/static/a".toList, []⟩ State.initial
    .staticFile rfl
  obtain ⟨-, hread⟩ := @http_wire readsA (.plain []) _ _ _ _ (fun _ => ['x']) hserve firstConnection
    fun path size hsize => Option.some.inj hsize
  obtain ⟨rest, hmessage, hrest⟩ := hread _ rfl ['y']
  have hy : rest = ['y'] := hrest.mpr fun hhead => by cases hhead
  exact ⟨_, _, hserve, rfl, _, hy ▸ hmessage, rfl⟩

end OneAnswer

/-! ## §3. The answers to a run. -/

section Stream

variable {mysql : MySQL} {s₀ s : State} {steps : List (Step State HttpAction (Option Reply))}

/-- A request, its answer and what the answer finds on the connection. -/
structure Exchange where
  world : World
  request : HttpRequest
  reply : Reply
  connection : Connection

/-- The text that goes out. -/
def Exchange.text (contents : List Char → List Char) (x : Exchange) : List Char :=
  match x.connection.write contents x.reply with
  | .ok text => text
  | .error _ => []

end Stream

end ApiSyncer
