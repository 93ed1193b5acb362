/-
  ApiSyncer.HttpRuns
  ──────────────────
  **RUNS OF HTTP REQUESTS.**

  A client sends whatever it likes, in any method, to any url, and the process
  may die at any statement.  Each request comes to one `addNode`, one
  `removeNode` or nothing, so what holds of runs of the two methods holds of
  every state that clients can bring about, and can be said in the texts that
  they send and get.

      http_refines        runs of HTTP requests are runs of the methods
      http_tree           the tree is always served, and its text is the tree
      http_faults         when there is no response
      http_added_shown    what was added is shown from then on
      http_added_durable  what was added is shown after every complete load
      http_removed_gone   what was removed never comes back
-/
import ApiSyncer.Server
import ApiSyncer.Gone

namespace ApiSyncer

open ApiSyncer.Lib ApiSyncer.Crow

/-! ## §1. Runs. -/

/-- The process dies before the call of rank `k`. -/
def World.dying (k : Nat) (w : World) : World := { w with env := w.env.dying k }

/-- The states of the server that a request goes through: the handlers, cut off as
the methods are. -/
def HttpRequest.states (mysql : MySQL) (w : World) (s : State) (req : HttpRequest) : List Db :=
  s.db :: (List.range' 1 10).filterMap fun k =>
    match serveHttp mysql (w.dying k) req s with
    | .ok (_, s') => some s'.db
    | .error _ => none

/-- An HTTP request, a restart of the process, or a crash in the middle of a
request and the restart after it. -/
inductive HttpAction where
  | request (w : World) (req : HttpRequest)
  | restart (env : Startup)
  | crash (w : World) (req : HttpRequest) (env : Startup)

/-- The step relation of the server: a request that is answered, or a new process
that serves. -/
def HttpActs (mysql : MySQL) : HttpAction → State → Option Reply → State → Prop
  | .request w req, s, reply, s' => ∃ r, reply = some r ∧ serveHttp mysql w req s = .ok (r, s')
  | .restart env, s, reply, s' => reply = none ∧ startup env s.db = .ok (s', true)
  | .crash w req env, s, reply, s' => reply = none ∧ ∃ db ∈ req.states mysql w s,
      startup env db = .ok (s', true)

/-- The incidents that an action comes to. -/
inductive HttpAction.Effect : HttpAction → List Incident → Prop where
  | nothing {w : World} {req : HttpRequest} : Effect (.request w req) []
  | add {w : World} {req : HttpRequest} {name : String} {parent_id : Int} :
      Adds w req name parent_id →
      Effect (.request w req) [.action (.request (.addNode name parent_id w.env))]
  | remove {w : World} {req : HttpRequest} {id : Int} :
      Removes w req id → Effect (.request w req) [.action (.request (.removeNode id w.env))]
  | restart {env : Startup} : Effect (.restart env) [.action (.restart env)]
  -- the request has changed nothing
  | crash {w : World} {req : HttpRequest} {env : Startup} :
      Effect (.crash w req env) [.action (.restart env)]
  | crashAdding {w : World} {req : HttpRequest} {env : Startup} {name : String} {parent_id : Int} :
      Adds w req name parent_id →
      Effect (.crash w req env) [.crash (.addNode name parent_id w.env) env]
  | crashRemoving {w : World} {req : HttpRequest} {env : Startup} {id : Int} :
      Removes w req id → Effect (.crash w req env) [.crash (.removeNode id w.env) env]

section Runs

variable {mysql : MySQL} {s₀ s s' : State} {db : Db}
  {steps : List (Step State HttpAction (Option Reply))}

/-- The states of a request are those of the method that it asks for. -/
theorem HttpRequest.states_cases {w : World} {req : HttpRequest} (h : db ∈ req.states mysql w s) :
    db = s.db
      ∨ (∃ name parent_id, Adds w req name parent_id
          ∧ db ∈ (Request.addNode name parent_id w.env).states mysql s)
      ∨ ∃ id, Removes w req id ∧ db ∈ (Request.removeNode id w.env).states mysql s := by
  unfold HttpRequest.states at h
  rcases List.mem_cons.mp h with rfl | h
  · exact Or.inl rfl
  obtain ⟨k, hk, heq⟩ := List.mem_filterMap.mp h
  obtain ⟨hpos, hle⟩ := List.mem_range'_1.mp hk
  cases hserve : serveHttp mysql (w.dying k) req s with
  | error f =>
      rw [hserve] at heq
      cases heq
  | ok r =>
      obtain ⟨reply, s'⟩ := r
      rw [hserve] at heq
      obtain rfl := Option.some.inj heq
      rcases serveHttp_cases hserve with
        rfl | ⟨name, parent_id, r, hadds, hs, -⟩ | ⟨id, hremoves, hs, -⟩
      · exact Or.inl rfl
      · obtain ⟨hpost, hurl, body, hbody, hargs⟩ := hadds
        exact Or.inr (Or.inl ⟨name, parent_id, ⟨hpost, hurl, body, hbody, hargs⟩,
          Request.mem_states.mpr (Or.inr ⟨k, _, s', hpos, by omega, hs, rfl⟩)⟩)
      · obtain ⟨hpost, hurl, body, hbody, harg⟩ := hremoves
        exact Or.inr (Or.inr ⟨id, ⟨hpost, hurl, body, hbody, harg⟩,
          Request.mem_states.mpr (Or.inr ⟨k, _, s', hpos, by omega, hs, rfl⟩)⟩)

/-- One request, as a run of at most one step. -/
theorem HttpActs.effect {a : HttpAction} {r : Option Reply} (h : HttpActs mysql a s r s') :
    ∃ steps', a.Effect (steps'.map Step.action) ∧ Run (Happens mysql) s steps' s' := by
  have hsingle : ∀ a' r', a.Effect [a'] → Happens mysql a' s r' s' →
      ∃ steps', a.Effect (steps'.map Step.action) ∧ Run (Happens mysql) s steps' s' :=
    fun a' r' heffect hact => ⟨[⟨s, a', r', s'⟩], heffect, Run.nil.snoc hact⟩
  cases a with
  | request w req =>
      obtain ⟨reply, -, hserve⟩ := h
      rcases serveHttp_cases hserve with
        rfl | ⟨name, parent_id, r, hadds, hs, -⟩ | ⟨id, hremoves, hs, -⟩
      · exact ⟨[], .nothing, .nil⟩
      · exact hsingle (.action (.request (.addNode name parent_id w.env))) _ (.add hadds)
          ⟨_, rfl, hs⟩
      · exact hsingle (.action (.request (.removeNode id w.env))) _ (.remove hremoves)
          ⟨_, rfl, hs⟩
  | restart env => exact hsingle (.action (.restart env)) none .restart ⟨rfl, h.2⟩
  | crash w req env =>
      obtain ⟨-, db, hdb, hstart⟩ := h
      rcases HttpRequest.states_cases hdb with
        rfl | ⟨name, parent_id, hadds, hmem⟩ | ⟨id, hremoves, hmem⟩
      · exact hsingle (.action (.restart env)) none .crash ⟨rfl, hstart⟩
      · exact hsingle (.crash (.addNode name parent_id w.env) env) none (.crashAdding hadds)
          ⟨rfl, db, hmem, hstart⟩
      · exact hsingle (.crash (.removeNode id w.env) env) none (.crashRemoving hremoves)
          ⟨rfl, db, hmem, hstart⟩

/-- A body that Crow writes is understood, and the answer is 201. -/
theorem serveHttp_written {w : World} {req : HttpRequest} {iteration : Order} {name : String}
    {parent_id : Option Int64} {c : Int} (hpost : req.method = .Post) (hurl : req.url = addUrl)
    (hbody : req.body = dump (objectOf iteration (addFields name parent_id)))
    (hadd : addNode mysql name (parentArgument parent_id) w.env s = .ok (c, s')) :
    serveHttp mysql w req s = .ok ((HttpResponse.added c name).reply w.iteration, s') := by
  rw [serveHttp_add hpost hurl, hbody]
  unfold postAddNode
  rw [addBody_written]
  simp only [addNodeHandler_ok (arguments_ofOption parent_id) hadd]

/-- An id that Crow writes is understood, and the answer is 201. -/
theorem serveHttp_removeWritten {w : World} {req : HttpRequest} {iteration : Order} {id : Int64}
    (hpost : req.method = .Post) (hurl : req.url = removeUrl)
    (hbody : req.body = dump (objectOf iteration [("id", .int id.toInt)]))
    (hremove : removeNode mysql (narrow id) w.env s = .ok s') :
    serveHttp mysql w req s
      = .ok ((HttpResponse.removed (narrow id)).reply w.iteration, s') := by
  have harg : (RemoveBody.mk (.given id)).argument = .ok (narrow id) := rfl
  rw [serveHttp_remove hpost hurl, hbody]
  unfold postRemoveNode
  rw [removeBody_written]
  simp only [removeNodeHandler_ok harg hremove]

/-- An `/api/add_node` with the body that Crow writes. -/
def HttpRequest.adding (name : String) (parent_id : Option Int64) : HttpRequest :=
  ⟨.Post, addUrl, dump (objectOf .stored (addFields name parent_id))⟩

/-- An `/api/remove_node` with the body that Crow writes. -/
def HttpRequest.removing (id : Int64) : HttpRequest :=
  ⟨.Post, removeUrl, dump (objectOf .stored [("id", .int id.toInt)])⟩

theorem serveHttp_one : serveHttp readsA (.plain [1]) (.adding "a" none) State.initial
    = .ok ((HttpResponse.added 1 "a").reply .stored, State.one) := by
  have hadd : addNode readsA "a" (parentArgument none) (World.plain [1]).env State.initial
      = .ok (1, State.one) := rfl
  exact serveHttp_written rfl rfl rfl hadd

/-- A top-level object. -/
theorem http_run_one : Run (HttpActs readsA) State.initial
    [⟨State.initial, .request (.plain [1]) (.adding "a" none),
      some ((HttpResponse.added 1 "a").reply .stored), State.one⟩] State.one := by
  have hact : HttpActs readsA (.request (.plain [1]) (.adding "a" none)) State.initial
      (some ((HttpResponse.added 1 "a").reply .stored)) State.one := ⟨_, rfl, serveHttp_one⟩
  exact Run.nil.snoc hact

/-- A top-level object, and then a child of it. -/
theorem http_run_two : Run (HttpActs readsA) State.initial
    [⟨State.initial, .request (.plain [1]) (.adding "a" none),
        some ((HttpResponse.added 1 "a").reply .stored), State.one⟩,
      ⟨State.one, .request (.plain [2]) (.adding "a" (some 1)),
        some ((HttpResponse.added 2 "a").reply .stored), State.two⟩] State.two := by
  have hadd : addNode readsA "a" (parentArgument (some 1)) (World.plain [2]).env State.one
      = .ok (2, State.two) := by
    have hparent : parentArgument (some 1) = 1 := by decide
    rw [hparent]
    rfl
  have hact : HttpActs readsA (.request (.plain [2]) (.adding "a" (some 1))) State.one
      (some ((HttpResponse.added 2 "a").reply .stored)) State.two :=
    ⟨_, rfl, serveHttp_written rfl rfl rfl hadd⟩
  exact http_run_one.snoc hact

/-- **Runs of HTTP requests are runs of the methods**, one call at most for each
request, and a crash is one in the middle of that call. -/
theorem http_refines (h : Run (HttpActs mysql) s₀ steps s) :
    ∃ effects steps', List.Forall₂ HttpAction.Effect (steps.map Step.action) effects
      ∧ steps'.map Step.action = effects.flatten ∧ Run (Happens mysql) s₀ steps' s :=
  h.refine fun _ _ _ _ hact => hact.effect

/-- The one request is one `addNode`. -/
theorem http_refines_one : ∃ effects steps',
    List.Forall₂ HttpAction.Effect [.request (.plain [1]) (.adding "a" none)] effects
      ∧ steps'.map Step.action = effects.flatten
      ∧ Run (Happens readsA) State.initial steps' State.one :=
  http_refines http_run_one

/-- Every state that clients can bring about. -/
theorem Sound.of_http_run (h : Run (HttpActs mysql) State.initial steps s) : Sound s := by
  obtain ⟨-, steps', -, -, hrun⟩ := h.refine fun _ _ _ _ hact => hact.effect
  exact Sound.of_incidents hrun

end Runs

/-! ## §2. Every request but a few is answered. -/

section Answers

variable {mysql : MySQL} {w : World} {s s' : State} {t : Json}
  {steps : List (Step State HttpAction (Option Reply))}

/-- superRoot is there when `addNode` needs it. -/
theorem Sound.addNode_ok (mysql : MySQL) (h : Sound s) (name : String) (parent_id : Int) (env : Env) :
    ∃ r s', addNode mysql name parent_id env s = .ok (r, s') := by
  obtain ⟨F, addr, rank, bound, h⟩ := h
  rcases addNode_spec mysql name parent_id env s with ⟨r, s', hok, -⟩ |
    ⟨-, new_id, rows, db, hi, hlock⟩
  · exact ⟨r, s', hok⟩
  · have hs := h.stored hi
    have hroot := hs.represents.lock_superRoot hs.rooted
    rw [show (s.stored new_id name).superRoot = s.mem.superRoot from rfl, hlock] at hroot
    cases hroot

/-- No entry of the map is null. -/
theorem Sound.removeNode_ok (mysql : MySQL) (h : Sound s) (id : Int) (env : Env) :
    ∃ s', removeNode mysql id env s = .ok s' := by
  obtain ⟨F, addr, rank, bound, h⟩ := h
  rcases removeNode_spec mysql id env s with ⟨s', hok, -⟩ | ⟨-, k, hnull⟩
  · exact ⟨s', hok⟩
  · exact absurd hnull h.represents.find_ne_null

/-- There is a response unless the body has no defined reading. -/
theorem Sound.postAddNode_error (h : Sound s) (text : List Char) :
    (∃ f, postAddNode mysql w text s = .error f) ↔ ∃ f, AddBody.ofText w.sort text = .error f := by
  unfold postAddNode
  cases hbody : AddBody.ofText w.sort text with
  | error f => simp
  | ok body =>
      have hok : ∃ resp s', addNodeHandler mysql body w.env s = .ok (resp, s') := by
        cases body with
        | none => exact ⟨_, _, rfl⟩
        | some b =>
            cases hargs : b.arguments with
            | error resp => exact ⟨_, _, addNodeHandler_error hargs⟩
            | ok args =>
                obtain ⟨r, s', hadd⟩ := h.addNode_ok mysql args.1 args.2 w.env
                exact ⟨_, _, addNodeHandler_ok hargs hadd⟩
      obtain ⟨resp, s', hok⟩ := hok
      simp [hok]

theorem Sound.postRemoveNode_error (h : Sound s) (text : List Char) :
    (∃ f, postRemoveNode mysql w text s = .error f)
      ↔ ∃ f, RemoveBody.ofText w.sort text = .error f := by
  unfold postRemoveNode
  cases hbody : RemoveBody.ofText w.sort text with
  | error f => simp
  | ok body =>
      have hok : ∃ resp s', removeNodeHandler mysql body w.env s = .ok (resp, s') := by
        cases body with
        | none => exact ⟨_, _, rfl⟩
        | some b =>
            cases harg : b.argument with
            | error resp => exact ⟨_, _, removeNodeHandler_error harg⟩
            | ok id =>
                obtain ⟨s', hrem⟩ := h.removeNode_ok mysql id w.env
                exact ⟨_, _, removeNodeHandler_ok harg hrem⟩
      obtain ⟨resp, s', hok⟩ := hok
      simp [hok]

/-- With enough stack the tree is served. -/
theorem Sound.getTree_ok (h : Sound s) :
    ∃ t depth, Shows s.mem t
      ∧ ∀ w : World, depth ≤ w.fuel → getTree w s = .ok (treeReply w.iteration (some t), s) := by
  obtain ⟨t, depth, hdepth⟩ := h.shows
  refine ⟨t, depth, ⟨depth, hdepth⟩, fun w hle => ?_⟩
  unfold getTree
  rw [hdepth w.fuel hle]

/-- The bodies of `/api/add_node` without a defined reading: a list with items,
or a name and a `parent_id` that is a string of blanks. -/
def AddUndefined (sort : MemberSort) (text : List Char) : Prop :=
  ∃ v, Document 5000 v (untilNul text)
    ∧ (NonemptyList v ∨ StringUnder sort nameKey v ∧ BlankUnder sort parentKey v)

/-- The bodies of `/api/remove_node` without a defined reading: a list with items,
or an id that is a string of blanks. -/
def RemoveUndefined (sort : MemberSort) (text : List Char) : Prop :=
  ∃ v, Document 5000 v (untilNul text) ∧ (NonemptyList v ∨ BlankUnder sort idKey v)

theorem addBody_error_iff {sort : MemberSort} {text : List Char} :
    (∃ f, AddBody.ofText sort text = .error f) ↔ AddUndefined sort text :=
  bodyOfText_error_iff fun _ hdoc => decode_error_iff hdoc

theorem removeBody_error_iff {sort : MemberSort} {text : List Char} :
    (∃ f, RemoveBody.ofText sort text = .error f) ↔ RemoveUndefined sort text :=
  bodyOfText_error_iff fun _ hdoc => decode_remove_error_iff hdoc

/-- **When there is no response**, given the stack that the tree needs: for a
POST to one of the two urls, and a body that is a document without a defined
reading. -/
theorem Sound.serveHttp_error (h : Sound s) : ∃ depth, ∀ (w : World) (req : HttpRequest),
    depth ≤ w.fuel → ((∃ f, serveHttp mysql w req s = .error f)
      ↔ req.method = .Post ∧ (req.url = addUrl ∧ AddUndefined w.sort req.body
        ∨ req.url = removeUrl ∧ RemoveUndefined w.sort req.body)) := by
  obtain ⟨t, depth, -, htree⟩ := h.getTree_ok
  refine ⟨depth, fun w req hle => ?_⟩
  have hreads : ∀ r : Route, r.reads = true → ¬ ∃ f, r.handle mysql w req s = .error f := by
    rintro r hr ⟨f, hf⟩
    cases r with
    | addNode => cases hr
    | removeNode => cases hr
    | tree =>
        have hok : getTree w s = .error f := hf
        rw [htree w hle] at hok
        cases hok
    | helloWorld => cases hf
    | verify => cases hf
    | staticFile => cases hf
  -- whatever calls no handler, or one that reads
  have hothers : (∀ r skip_body, dispatch req.method req.url = .call r skip_body →
      r.handler.reads = true) → ¬ ∃ f, serveHttp mysql w req s = .error f := by
    rintro hcalls ⟨f, hf⟩
    rw [serveHttp_eq] at hf
    cases hdispatch : dispatch req.method req.url with
    | corrupted => exact dispatch_ne_corrupted hdispatch
    | respond code headers skip_body =>
        rw [hdispatch] at hf
        cases hf
    | call r skip_body =>
        rw [hdispatch] at hf
        cases hhandle : r.handler.handle mysql w req s with
        | error f' => exact hreads r.handler (hcalls r skip_body hdispatch) ⟨f', hhandle⟩
        | ok result => simp [hhandle] at hf
  have hne : addUrl ≠ removeUrl := by decide
  by_cases hpost : req.method = .Post
  -- the two urls whose bodies are parsed, and the others
  · by_cases hadd : req.url = addUrl
    · rw [serveHttp_add hpost hadd, h.postAddNode_error, addBody_error_iff]
      simp [hpost, hadd, hne]
    · by_cases hremove : req.url = removeUrl
      · rw [serveHttp_remove hpost hremove, h.postRemoveNode_error, removeBody_error_iff]
        simp [hpost, hremove, hne.symm]
      · simp only [hadd, hremove, false_and, or_false, and_false, iff_false]
        exact hothers fun r skip_body hcall => by
          rcases dispatch_call hcall with hr | ⟨-, -, ⟨hurl, -⟩ | ⟨hurl, -⟩⟩
          · exact hr
          · exact absurd hurl hadd
          · exact absurd hurl hremove
  · simp only [hpost, false_and, iff_false]
    exact hothers fun r skip_body hcall => by
      rcases dispatch_call hcall with hr | ⟨hmethod, -⟩
      · exact hr
      · exact absurd hmethod hpost

/-- **Whatever clients send, the tree is served and found good.**  The text of
`/api/tree` is the tree that is shown and no other; if it has more than 2499
levels, Crow itself does not read it. -/
theorem http_tree (hrun : Run (HttpActs mysql) State.initial steps s) :
    ∃ t depth, Shows s.mem t
      ∧ (∀ (w : World) (req : HttpRequest), req.method = .Get →
        (req.url = treeUrl → depth ≤ w.fuel →
          serveHttp mysql w req s = .ok (⟨200, jsonHeaders, treeText w.iteration t, none⟩, s))
        ∧ (req.url = verifyUrl → serveHttp mysql w req s = .ok (.text 200 "tree good", s)))
      ∧ ∀ iteration sort, (levels t ≤ 2499 → ∀ t', TextOf sort (treeText iteration t) t' ↔ t' = t)
        ∧ (2499 < levels t → ∀ v, load (treeText iteration t) ≠ .ok v) := by
  have hsound := Sound.of_http_run hrun
  obtain ⟨t, depth, ht, htree⟩ := hsound.getTree_ok
  obtain ⟨F, addr, rank, bound, h⟩ := hsound
  have hint : ∀ k ∈ t.keys, Tables.intMin ≤ k ∧ k ≤ Tables.intMax :=
    fun k hk => h.int_range k ((h.keys_shown ht).2 k hk)
  refine ⟨t, depth, ht, fun w req hget => ⟨fun hurl hle => ?_, fun hurl => ?_⟩,
    fun iteration sort => ⟨fun hlevels t' => treeText_reads hlevels hint t', treeText_deep⟩⟩
  · rw [serveHttp_tree hget hurl, htree w hle]
    rfl
  · rw [serveHttp_verify hget hurl, h.represents.validateTree_eq_true]
    rfl

/-- The tree with one object. -/
theorem http_tree_one : ∃ depth, ∀ w : World, depth ≤ w.fuel →
    serveHttp readsA w ⟨.Get, treeUrl, []⟩ State.one
      = .ok (⟨200, jsonHeaders, treeText w.iteration (.node (-1) "superRoot" [.node 1 "a" []]),
          none⟩, State.one) := by
  obtain ⟨t, depth, ht, hserved, -⟩ := http_tree http_run_one
  rw [ht.unique shows_one] at hserved
  exact ⟨depth, fun w hle => (hserved w _ rfl).1 rfl hle⟩

/-- **Only a document without a defined reading is not answered.** -/
theorem http_faults (hrun : Run (HttpActs mysql) State.initial steps s) :
    ∃ depth, ∀ (w : World) (req : HttpRequest), depth ≤ w.fuel →
      ((∃ f, serveHttp mysql w req s = .error f)
        ↔ req.method = .Post ∧ (req.url = addUrl ∧ AddUndefined w.sort req.body
          ∨ req.url = removeUrl ∧ RemoveUndefined w.sort req.body)) :=
  (Sound.of_http_run hrun).serveHttp_error

/-- A list in place of the members. -/
theorem http_faults_list : ∃ depth, ∀ w : World, depth ≤ w.fuel →
    ∃ f, serveHttp readsA w ⟨.Post, addUrl, "[1]".toList⟩ State.one = .error f := by
  obtain ⟨depth, hfaults⟩ := http_faults http_run_one
  have hlist : ∀ sort, AddUndefined sort "[1]".toList := fun sort =>
    addBody_error_iff.mp ⟨_, rfl⟩
  exact ⟨depth, fun w hle => (hfaults w _ hle).mpr ⟨rfl, Or.inl ⟨rfl, hlist w.sort⟩⟩⟩

end Answers

/-! ## §3. From the text of a request to the text of the tree. -/

section EndToEnd

variable {mysql : MySQL} {s₀ s s' : State} {t₀ : Json} {p c : Int} {name : String}
  {steps : List (Step State HttpAction (Option Reply))}

/-- What an `addNode` returns is an `int`. -/
theorem Sound.added_range {env : Env} (h : Sound s)
    (hserve : Serves mysql (.addNode name p env) s (.added c) s') :
    Tables.intMin ≤ c ∧ c ≤ Tables.intMax := by
  obtain ⟨F, addr, rank, bound, h⟩ := h
  obtain ⟨F', addr', rank', bound', h', hgraph⟩ := h.addExit hserve.added_exit
  rcases hgraph with ⟨rfl, -⟩ | ⟨-, -, -, rfl⟩
  · decide
  · have hmem : c ∈ ((F.insert c name).link p c).keys :=
      (@Forest.mem_keys_insert _ _ _ F c c name).mpr (Or.inl rfl)
    exact h'.int_range c hmem

/-- Nobody asks for the removal of the node. -/
def HttpAction.Spares (c : Int) : HttpAction → Prop
  | .request w req => ¬ Removes w req c
  | .restart _ => True
  | .crash w req _ => ¬ Removes w req c

/-- The process keeps running. -/
def HttpAction.isRequest : HttpAction → Bool
  | .request _ _ => true
  | .restart _ => false
  | .crash _ _ _ => false

/-- A node that is shown stays, until a request removes it. -/
theorem ShowsNode.of_http_run (h : ShowsNode p c name s) (hrun : Run (HttpActs mysql) s steps s')
    (hsteps : ∀ st ∈ steps, st.action.isRequest = true ∧ st.action.Spares c) :
    ShowsNode p c name s' := by
  have hguarded := hrun.guarded (G := fun a _ => a.isRequest = true ∧ a.Spares c) hsteps
  refine hguarded.invariant h ?_
  rintro s a r s' h ⟨hact, hrequest, hspares⟩
  cases a with
  | restart env => cases hrequest
  | crash w req env => cases hrequest
  | request w req =>
      obtain ⟨reply, -, hserve⟩ := hact
      rcases serveHttp_cases hserve with
        rfl | ⟨name, parent_id, r, -, hs, -⟩ | ⟨id, hremoves, hs, -⟩
      · exact h
      · exact h.serve hs fun env heq => by cases heq
      · refine h.serve hs fun env heq => ?_
        cases heq
        exact hspares hremoves

/-- **A node that a client adds is there.**  A body that Crow writes is
understood, and the answer is 201 with an id and the name.  If the id is not -1
and the parent was shown, the id is new, and whatever is requested afterwards,
the tree shows the node under that parent until a request removes it. -/
theorem http_added_shown {w : World} {req : HttpRequest} {iteration : Order}
    {parent_id : Option Int64} (hrun : Run (HttpActs mysql) State.initial steps s₀)
    (ht₀ : Shows s₀.mem t₀) (hpost : req.method = .Post) (hurl : req.url = addUrl)
    (hbody : req.body = dump (objectOf iteration (addFields name parent_id))) :
    ∃ reply s₁ c, serveHttp mysql w req s₀ = .ok (reply, s₁) ∧ reply.code = 201
      ∧ (∀ sort id name', Names sort reply.body id name' ↔ id = c ∧ name' = name)
      ∧ (c ≠ -1 → parentArgument parent_id ∈ t₀.keys → c ∉ t₀.keys
        ∧ ∀ more s, Run (HttpActs mysql) s₁ more s →
          (∀ st ∈ more, st.action.isRequest = true ∧ st.action.Spares c) →
          ∃ t, Shows s.mem t ∧ Has t (parentArgument parent_id) c name) := by
  have hsound := Sound.of_http_run hrun
  obtain ⟨c, s₁, hadd⟩ := hsound.addNode_ok mysql name (parentArgument parent_id) w.env
  have hserves := serves_addNode hadd
  have hserve := serveHttp_written hpost hurl hbody hadd
  refine ⟨_, s₁, c, hserve, rfl, fun sort id name' => names_added (hsound.added_range hserves),
    fun hc hp => ?_⟩
  obtain ⟨hnew, hshows⟩ := SoundlyShows.added ⟨hsound, ht₀⟩ hp hc hserves
  refine ⟨hnew, fun more s hmore hspares => ?_⟩
  obtain ⟨t, ht, hhas⟩ := hshows.of_http_run hmore hspares
  exact ⟨t, ht.2, hhas⟩

/-- The node is added by a text that Crow wrote, and then the tree is checked. -/
theorem http_added_shown_one : ∃ t, Shows State.one.mem t ∧ Has t (-1) 1 "a" := by
  obtain ⟨reply, s₁, c, hserve, -, hnames, hshown⟩ := @http_added_shown readsA State.initial
    startTree "a" [] (.plain [1]) (.adding "a" none) .stored none .nil shows_initial rfl rfl rfl
  rw [serveHttp_one] at hserve
  cases hserve
  obtain ⟨rfl, -⟩ := (hnames .unsigned 1 "a").mp ((names_added (by decide)).mpr ⟨rfl, rfl⟩)
  have hverify : HttpActs readsA (.request (.plain []) ⟨.Get, verifyUrl, []⟩) State.one
      (some (.text 200 "tree good")) State.one := ⟨_, rfl, serveHttp_verify rfl rfl⟩
  refine (hshown (by decide) (by decide)).2 _ _ (Run.nil.snoc hverify) fun st hst => ?_
  rw [List.mem_singleton.mp hst]
  exact ⟨rfl, fun hremoves => by cases hremoves.method⟩

/-- What spares the node comes to what spares it. -/
theorem HttpAction.Effect.spares {a : HttpAction} {effects : List Incident} (h : a.Effect effects)
    (ha : a.Spares c) : ∀ e ∈ effects, e.Spares c := by
  cases h with
  | nothing => exact fun e he => absurd he List.not_mem_nil
  | add => exact List.forall_mem_singleton.mpr trivial
  | remove hremoves =>
      refine List.forall_mem_singleton.mpr ?_
      rintro rfl
      exact ha hremoves
  | restart => exact List.forall_mem_singleton.mpr trivial
  | crash => exact List.forall_mem_singleton.mpr trivial
  | crashAdding => exact List.forall_mem_singleton.mpr trivial
  | crashRemoving hremoves =>
      refine List.forall_mem_singleton.mpr ?_
      rintro rfl
      exact ha hremoves

/-- A restart, after a crash or not, that loads everything. -/
def HttpAction.Reloads : HttpAction → Prop
  | .request _ _ => False
  | .restart env => env.Complete
  | .crash _ _ env => env.Complete

/-- A restart that loads everything, as one step. -/
theorem HttpActs.reload {a : HttpAction} {r : Option Reply} (h : HttpActs mysql a s r s')
    (ha : a.Spares c) (hreloads : a.Reloads) :
    ∃ (e : Incident) (r' : Option Response), Happens mysql e s r' s' ∧ e.Spares c ∧ e.Reloads := by
  cases a with
  | request w req => exact absurd hreloads id
  | restart env => exact ⟨.action (.restart env), none, ⟨rfl, h.2⟩, trivial, hreloads⟩
  | crash w req env =>
      obtain ⟨-, db, hdb, hstart⟩ := h
      rcases HttpRequest.states_cases hdb with
        rfl | ⟨name, parent_id, -, hmem⟩ | ⟨id, hremoves, hmem⟩
      · exact ⟨.action (.restart env), none, ⟨rfl, hstart⟩, trivial, hreloads⟩
      · exact ⟨.crash (.addNode name parent_id w.env) env, none, ⟨rfl, db, hmem, hstart⟩, trivial,
          hreloads⟩
      · refine ⟨.crash (.removeNode id w.env) env, none, ⟨rfl, db, hmem, hstart⟩, ?_, hreloads⟩
        rintro rfl
        exact ha hremoves

/-- **A node that a client adds survives.**  A body that Crow writes is answered
with 201 and an id.  If the id is not -1, the parent was shown and the writes
are committed, then whatever requests, restarts and crashes follow, as long as
nobody asks for the removal of the node, every process that loads both tables
shows it. -/
theorem http_added_durable {w : World} {req : HttpRequest} {iteration : Order}
    {parent_id : Option Int64} (hrun : Run (HttpActs mysql) State.initial steps s₀)
    (ht₀ : Shows s₀.mem t₀) (hpost : req.method = .Post) (hurl : req.url = addUrl)
    (hbody : req.body = dump (objectOf iteration (addFields name parent_id)))
    (hcommits : Commits w.env s₀) :
    ∃ reply s₁ c, serveHttp mysql w req s₀ = .ok (reply, s₁) ∧ reply.code = 201
      ∧ (∀ sort id name', Names sort reply.body id name' ↔ id = c ∧ name' = name)
      ∧ (c ≠ -1 → parentArgument parent_id ∈ t₀.keys →
        ∀ more s, Run (HttpActs mysql) s₁ more s → (∀ st ∈ more, st.action.Spares c) →
        ∀ a r s', HttpActs mysql a s r s' → a.Spares c → a.Reloads →
          ∃ t label names, Shows s'.mem t ∧ (c, label) ∈ t.entries
            ∧ mysql.valuesOf (insertObjectQuery name) = some names
            ∧ names.head? = some label) := by
  have hsound := Sound.of_http_run hrun
  obtain ⟨c, s₁, hadd⟩ := hsound.addNode_ok mysql name (parentArgument parent_id) w.env
  have hserves := serves_addNode hadd
  have hserve := serveHttp_written hpost hurl hbody hadd
  refine ⟨_, s₁, c, hserve, rfl, fun sort id name' => names_added (hsound.added_range hserves),
    fun hc hp more s hmore hspares a r s' hlast ha hreloads => ?_⟩
  -- both runs are runs of the methods
  obtain ⟨-, before, -, -, hbefore⟩ := hrun.refine fun _ _ _ _ hact => hact.effect
  obtain ⟨effects, after, hall, heq, hafter⟩ := hmore.refine fun _ _ _ _ hact => hact.effect
  obtain ⟨e, r', hhappens, he, hreloads'⟩ := hlast.reload ha hreloads
  refine acknowledged_shown hbefore ht₀ hp hserves hc hcommits hafter (fun st hst => ?_) hhappens
    he hreloads'
  -- each incident comes from an action, which spares the node
  have hmem : st.action ∈ effects.flatten := heq ▸ List.mem_map_of_mem hst
  obtain ⟨es, hes, hin⟩ := List.mem_flatten.mp hmem
  obtain ⟨b, hb, heffect⟩ := Forest.exists_of_forall₂_right hall es hes
  obtain ⟨st', hst', rfl⟩ := List.mem_map.mp hb
  exact heffect.spares (hspares st' hst') _ hin

/-- The node is added, the process dies in the next request, and all rows come
back. -/
theorem http_added_durable_one : ∃ t, Shows State.one.restarted.mem t ∧ (1, "a") ∈ t.entries := by
  obtain ⟨reply, s₁, c, hserve, -, hnames, hdurable⟩ := @http_added_durable readsA State.initial
    startTree "a" [] (.plain [1]) (.adding "a" none) .stored none .nil shows_initial rfl rfl rfl
    (Or.inl rfl)
  rw [serveHttp_one] at hserve
  cases hserve
  obtain ⟨rfl, -⟩ := (hnames .unsigned 1 "a").mp ((names_added (by decide)).mpr ⟨rfl, rfl⟩)
  have hcrash : HttpActs readsA (.crash (.plain [2]) (.adding "a" none) .whole) State.one none
      State.one.restarted := ⟨rfl, State.one.db, List.mem_cons_self, rfl⟩
  have hspares : (HttpAction.crash (.plain [2]) (.adding "a" none) .whole).Spares 1 := by
    intro hremoves
    have hne : addUrl ≠ removeUrl := by decide
    exact hne hremoves.url
  obtain ⟨t, label, names, ht, hentry, hnames, hhead⟩ := hdurable (by decide) (by decide) [] _ .nil
    (List.forall_mem_nil _) _ _ _ hcrash hspares ⟨rfl, ⟨_, rfl⟩, ⟨_, rfl⟩⟩
  have hreads : readsA.valuesOf (insertObjectQuery "a") = some ["a"] := rfl
  obtain rfl := Option.some.inj (hreads.symm.trans hnames)
  obtain rfl := Option.some.inj hhead
  exact ⟨t, ht, hentry⟩

/-- **A node that a client removes is gone.**  A body that Crow writes for an id is
understood, and the answer is 201 whatever happened: the tree is as it was, or a
leaf with that id has left it.  If the node has left the map and the deletions
are committed, then whatever requests, restarts and crashes follow, no tree shows
the id again. -/
theorem http_removed_gone {w : World} {req : HttpRequest} {iteration : Order} {id : Int64}
    (hrun : Run (HttpActs mysql) State.initial steps s₀) (ht₀ : Shows s₀.mem t₀)
    (hpost : req.method = .Post) (hurl : req.url = removeUrl)
    (hbody : req.body = dump (objectOf iteration [("id", .int id.toInt)])) :
    ∃ reply s₁, serveHttp mysql w req s₀ = .ok (reply, s₁) ∧ reply.code = 201
      ∧ (Shows s₁.mem t₀ ∨ t₀.IsLeaf (narrow id) ∧ Shows s₁.mem (t₀.prune (narrow id)))
      ∧ (s₀.mem.find (narrow id) ≠ none → s₁.mem.find (narrow id) = none → Finalises w.env s₀ →
        ∀ more s, Run (HttpActs mysql) s₁ more s → ∀ t, Shows s.mem t → narrow id ∉ t.keys) := by
  have hsound := Sound.of_http_run hrun
  obtain ⟨s₁, hrem⟩ := hsound.removeNode_ok mysql (narrow id) w.env
  have hserves := serves_removeNode hrem
  have hserve := serveHttp_removeWritten hpost hurl hbody hrem
  refine ⟨_, s₁, hserve, rfl, ?_, fun hmapped hunmapped hfinal more s hmore t ht => ?_⟩
  · obtain ⟨t₁, hstep, ht₁⟩ := TreeStep.of_serves hsound ht₀ hserves
    cases hstep with
    | kept => exact Or.inl ht₁
    | removed hleaf => exact Or.inr ⟨hleaf, ht₁⟩
  · have hgone := hsound.gone_of_removed hserves hmapped hunmapped hfinal
    have hact : Acts mysql (.request (.removeNode (narrow id) w.env)) s₀ (some .removed) s₁ :=
      ⟨_, rfl, hserves⟩
    obtain ⟨-, after, -, -, hafter⟩ := hmore.refine fun _ _ _ _ hact => hact.effect
    obtain ⟨⟨hsound', hgone'⟩, -⟩ := hgone.run (hsound.step hact) hafter
    exact hgone'.not_shown hsound' ht

/-- The child is removed by a text that Crow wrote, and all rows come back. -/
theorem http_removed_gone_two :
    ¬ ∃ t, Shows (State.two.after readsA (.removing 2)).restarted.mem t ∧ 2 ∈ t.keys := by
  obtain ⟨t₀, depth, ht₀⟩ := (Sound.of_http_run http_run_two).shows
  obtain ⟨reply, s₁, hserve, -, -, hgone⟩ := @http_removed_gone readsA State.two
    t₀ _ (.plain []) (.removing 2) .stored 2 http_run_two ⟨depth, ht₀⟩ rfl rfl rfl
  have hnarrow : narrow 2 = 2 := by decide
  have hremove : removeNode readsA (narrow 2) (World.plain []).env State.two
      = .ok (State.two.after readsA (.removing 2)) := by
    rw [hnarrow]
    rfl
  have hwritten := @serveHttp_removeWritten readsA State.two _ (.plain []) (.removing 2) .stored 2
    rfl rfl rfl hremove
  rw [hwritten] at hserve
  cases hserve
  have hrestart : HttpActs readsA (.restart .whole) (State.two.after readsA (.removing 2)) none
      (State.two.after readsA (.removing 2)).restarted := ⟨rfl, rfl⟩
  rw [hnarrow] at hgone
  have hmapped : State.two.mem.find 2 = some (some 2) := rfl
  rintro ⟨t, ht, hmem⟩
  exact hgone (hmapped ▸ Option.some_ne_none _) rfl (Or.inl rfl) _ _ (Run.nil.snoc hrestart) t ht
    hmem

end EndToEnd

end ApiSyncer
