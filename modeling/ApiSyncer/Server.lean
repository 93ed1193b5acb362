/-
  ApiSyncer.Server
  ────────────────
  **THE SERVER: FROM THE METHOD, URL AND BODY OF A REQUEST TO A RESPONSE.**

  The rules of `setupRoutes`, with the one for static files that `run` adds, go
  through Crow's router; a handler reads the text of the body, acts on the state
  and writes the text of the answer.

      app_handleFull     where every method and url leads
      http_dispatch      which requests reach which handler
      serveHttp_cases    what a request does: nothing, or one `addNode` or
                         `removeNode`
      http_static_confined
                         which files are sent
-/
import ApiSyncer.Crow.Response
import ApiSyncer.Crow.Router
import ApiSyncer.Shown
import ApiSyncer.TreeText

namespace ApiSyncer

open ApiSyncer.Lib ApiSyncer.Crow

/-! ## §1. The routes. -/

/-- The handlers. -/
inductive Route where
  | addNode
  | removeNode
  | tree
  | helloWorld
  | verify
  | staticFile
  deriving DecidableEq, Repr

def addUrl : List Char := "/api/add_node".toList

def removeUrl : List Char := "/api/remove_node".toList

def treeUrl : List Char := "/api/tree".toList

def helloUrl : List Char := "/api/helloWorld".toList

def verifyUrl : List Char := "/api/dev/verify".toList

/-- What stands before the path of a static file. -/
def staticUrl : List Char := "/static/".toList

/-- `CROW_ROUTE(app, url).methods(method)(handler)`. -/
def Route.rule : Route → BaseRule Route
  | .addNode => ⟨addUrl, HTTPMethod.Post.bit, .addNode⟩
  | .removeNode => ⟨removeUrl, HTTPMethod.Post.bit, .removeNode⟩
  | .tree => ⟨treeUrl, HTTPMethod.Get.bit, .tree⟩
  | .helloWorld => ⟨helloUrl, HTTPMethod.Get.bit, .helloWorld⟩
  | .verify => ⟨verifyUrl, HTTPMethod.Get.bit, .verify⟩
  -- a rule answers GET unless it says otherwise
  | .staticFile => ⟨"/static/<path>".toList, HTTPMethod.Get.bit, .staticFile⟩

/-- `setupRoutes`, and then `add_static_dir`. -/
def appRules : List (BaseRule Route) :=
  [Route.addNode.rule, Route.removeNode.rule, Route.tree.rule, Route.helloWorld.rule,
    Route.verify.rule, Route.staticFile.rule]

theorem appRules_registrable : Router.Registrable appRules where
  rules r hr := by
    simp only [appRules, List.mem_cons, List.not_mem_nil, or_false] at hr
    rcases hr with rfl | rfl | rfl | rfl | rfl | rfl <;> exact ⟨by decide, by decide⟩
  count := by decide

theorem rulesFor_post :
    rulesFor .Post appRules = [Route.addNode.rule, Route.removeNode.rule] := by decide

theorem rulesFor_get : rulesFor .Get appRules
    = [Route.tree.rule, Route.helloWorld.rule, Route.verify.rule, Route.staticFile.rule] := by
  decide

theorem rulesFor_other {m : HTTPMethod} (hget : m ≠ .Get) (hpost : m ≠ .Post) :
    rulesFor m appRules = [] := by
  revert hget hpost
  cases m <;> decide

/-- The registration does not throw. -/
theorem validate_isSome : (Router.validate appRules).isSome = true := by
  rw [Option.isSome_iff_ne_none, Ne, Router.validate_eq_none_iff appRules_registrable, not_exists]
  intro m
  rw [not_not]
  by_cases hget : m = .Get
  · subst hget
    rw [rulesFor_get]
    decide
  · by_cases hpost : m = .Post
    · subst hpost
      rw [rulesFor_post]
      decide
    · rw [rulesFor_other hget hpost]
      exact List.nodup_nil

/-- The router of the running server. -/
def app : Router Route := (Router.validate appRules).get validate_isSome

theorem app_eq_route (method : HTTPMethod) (url : List Char) :
    app.handleFull method url = route appRules method url :=
  Router.handleFull_eq appRules_registrable (Option.some_get validate_isSome).symm method url

/-! ## §2. Where a url leads. -/

/-- The handlers of GET. -/
def getRoute (url : List Char) : Option Route :=
  if url = treeUrl then some .tree
  else if url = helloUrl then some .helloWorld
  else if url = verifyUrl then some .verify
  else if url.take staticUrl.length = staticUrl ∧ url.drop staticUrl.length ≠ [] then
    some .staticFile
  else none

/-- The handlers of POST. -/
def postRoute (url : List Char) : Option Route :=
  if url = addUrl then some .addNode
  else if url = removeUrl then some .removeNode
  else none

/-- Where method and url lead. -/
def dispatch (method : HTTPMethod) (url : List Char) : Router.Answer Route :=
  match method with
  | .Get =>
      match getRoute url with
      | some r => .call r.rule false
      | none => .respond (if (postRoute url).isSome then 405 else 404) [] false
  | .Post =>
      match postRoute url with
      | some r => .call r.rule false
      | none => .respond (if (getRoute url).isSome then 405 else 404) [] false
  | .Head =>
      match getRoute url with
      | some r => .call r.rule true
      | none => .respond 404 [] false
  | .Options =>
      if url = ['/', '*'] then .respond 204 [("Allow", "OPTIONS, HEAD, GET, POST".toList)] false
      else if (getRoute url).isSome then
        .respond 204 [("Allow", "OPTIONS, HEAD, GET".toList)] false
      else if (postRoute url).isSome then
        .respond 204 [("Allow", "OPTIONS, HEAD, POST".toList)] false
      else .respond 404 [] false
  | _ => .respond (if (getRoute url).isSome || (postRoute url).isSome then 405 else 404) [] false

section Dispatch

variable {ρ : Type} {r : BaseRule ρ} {url : List Char}

theorem ruleItems_plain {rule : List Char} (h : '<' ∉ rule) : ruleItems rule = rule.map .char := by
  induction rule with
  | nil => rfl
  | cons c rule ih =>
      have hc : c ≠ '<' := fun heq => h (heq ▸ List.mem_cons_self)
      rw [ruleItems, ih fun hmem => h (List.mem_cons_of_mem _ hmem), List.map_cons]
      intro rest heq
      exact absurd heq hc

/-- A rule without parameters fits its own url. -/
theorem fits_plain (h : '<' ∉ r.rule) : r.fits url = decide (url = r.rule) := by
  unfold BaseRule.fits
  rw [ruleItems_plain h, ← List.append_nil (r.rule.map _), Node.matchesUrl_key, Bool.eq_iff_iff]
  simp only [matchesUrl, Bool.and_eq_true, decide_eq_true_iff, List.isEmpty_iff]
  constructor
  · rintro ⟨htake, hdrop⟩
    rw [← List.take_append_drop r.rule.length url, htake, hdrop, List.append_nil]
  · rintro rfl
    simp

theorem fits_static : Route.staticFile.rule.fits url
    = decide (url.take staticUrl.length = staticUrl ∧ url.drop staticUrl.length ≠ []) := by
  have hitems : ruleItems Route.staticFile.rule.rule = staticUrl.map .char ++ [.path] := by decide
  unfold BaseRule.fits
  rw [hitems, Node.matchesUrl_key, Bool.eq_iff_iff]
  simp [matchesUrl]

theorem appRules_noSlash : ∀ r ∈ appRules, r.hasTrailingSlash = false := by decide

/-- No rule of the server redirects. -/
theorem target_of (m : HTTPMethod) : Target.of (rulesFor m appRules) url
    = match (rulesFor m appRules).find? fun r => r.fits url with
      | some r => .rule r
      | none => .nowhere := by
  have hslash : ((rulesFor m appRules).any fun r => r.lacksSlash url) = false := by
    rw [List.any_eq_false]
    intro r hr
    have hno := appRules_noSlash r (List.mem_filter.mp hr).1
    simp [BaseRule.lacksSlash, hno]
  unfold Target.of
  rw [hslash, if_neg Bool.false_ne_true]
  cases (rulesFor m appRules).find? fun r => r.fits url <;> rfl

theorem find?_cons_ite {α : Type} (p : α → Bool) (a : α) (l : List α) :
    (a :: l).find? p = if p a = true then some a else l.find? p := by
  rw [List.find?_cons]
  cases p a <;> rfl

theorem find_get : ((rulesFor .Get appRules).find? fun r => r.fits url)
    = (getRoute url).map Route.rule := by
  have htree : Route.tree.rule.fits url = decide (url = treeUrl) := fits_plain (by decide)
  have hhello : Route.helloWorld.rule.fits url = decide (url = helloUrl) := fits_plain (by decide)
  have hverify : Route.verify.rule.fits url = decide (url = verifyUrl) := fits_plain (by decide)
  rw [rulesFor_get]
  unfold getRoute
  simp only [find?_cons_ite, htree, hhello, hverify, fits_static, decide_eq_true_iff]
  split_ifs <;> rfl

theorem find_post : ((rulesFor .Post appRules).find? fun r => r.fits url)
    = (postRoute url).map Route.rule := by
  have hadd : Route.addNode.rule.fits url = decide (url = addUrl) := fits_plain (by decide)
  have hremove : Route.removeNode.rule.fits url = decide (url = removeUrl) := fits_plain (by decide)
  rw [rulesFor_post]
  unfold postRoute
  simp only [find?_cons_ite, hadd, hremove, decide_eq_true_iff]
  split_ifs <;> rfl

theorem target_get : Target.of (rulesFor .Get appRules) url
    = match getRoute url with
      | some r => .rule r.rule
      | none => .nowhere := by
  rw [target_of, find_get]
  cases getRoute url <;> rfl

theorem target_post : Target.of (rulesFor .Post appRules) url
    = match postRoute url with
      | some r => .rule r.rule
      | none => .nowhere := by
  rw [target_of, find_post]
  cases postRoute url <;> rfl

theorem target_other {m : HTTPMethod} (hget : m ≠ .Get) (hpost : m ≠ .Post) :
    Target.of (rulesFor m appRules) url = .nowhere := by
  rw [rulesFor_other hget hpost]
  rfl

/-- The methods with a rule for the url. -/
theorem isNowhere_target (m : HTTPMethod) : (!(Target.of (rulesFor m appRules) url).isNowhere)
    = (decide (m = .Get) && (getRoute url).isSome
      || decide (m = .Post) && (postRoute url).isSome) := by
  by_cases hget : m = .Get
  · subst hget
    rw [target_get]
    cases getRoute url <;> simp [Target.isNowhere]
  · by_cases hpost : m = .Post
    · subst hpost
      rw [target_post]
      cases postRoute url <;> simp [Target.isNowhere]
    · rw [target_other hget hpost]
      simp [hget, hpost, Target.isNowhere]

theorem any_target : (HTTPMethod.all.any fun m => !(Target.of (rulesFor m appRules) url).isNowhere)
    = ((getRoute url).isSome || (postRoute url).isSome) := by
  simp only [isNowhere_target]
  cases (getRoute url).isSome <;> cases (postRoute url).isSome <;> decide

theorem filter_target : (HTTPMethod.all.filter
      fun m => !(Target.of (rulesFor m appRules) url).isNowhere)
    = (if (getRoute url).isSome then [.Get] else [])
      ++ if (postRoute url).isSome then [.Post] else [] := by
  simp only [isNowhere_target]
  cases (getRoute url).isSome <;> cases (postRoute url).isSome <;> decide

/-- No url has handlers of both methods. -/
theorem postRoute_of_getRoute (h : (getRoute url).isSome = true) : postRoute url = none := by
  unfold postRoute
  split
  next heq =>
      subst heq
      exact absurd h (by decide)
  next =>
      split
      next heq =>
          subst heq
          exact absurd h (by decide)
      next => rfl

/-- **Where every method and url leads.** -/
theorem app_handleFull (method : HTTPMethod) (url : List Char) :
    app.handleFull method url = dispatch method url := by
  rw [app_eq_route]
  -- a method without rules
  have hother : ∀ m : HTTPMethod, m ≠ .Get → m ≠ .Post → m ≠ .Head → m ≠ .Options →
      route appRules m url
        = .respond (if (getRoute url).isSome || (postRoute url).isSome then 405 else 404) []
          false := by
    intro m hget hpost hhead hoptions
    have hroute : route appRules m url
        = if (Target.of (rulesFor m appRules) url).isNowhere
            && HTTPMethod.all.any fun m => !(Target.of (rulesFor m appRules) url).isNowhere then
          .respond 405 [] false
        else (Target.of (rulesFor m appRules) url).answer url false := by
      cases m <;> first | rfl | exact absurd rfl hhead | exact absurd rfl hoptions
    rw [hroute, any_target, target_other hget hpost]
    cases (getRoute url).isSome <;> cases (postRoute url).isSome <;> rfl
  cases method with
  | Get =>
      simp only [route, any_target, target_get, dispatch]
      cases hget : getRoute url with
      | some r => rfl
      | none => cases (postRoute url).isSome <;> rfl
  | Post =>
      simp only [route, any_target, target_post, dispatch]
      cases hpost : postRoute url with
      | some r => rfl
      | none => cases hget : getRoute url <;> simp [Target.isNowhere, Target.answer]
  | Head =>
      simp only [route, target_get, @target_other url .Head (by decide) (by decide), dispatch]
      cases getRoute url <;> rfl
  | Options =>
      have hmethods : (HTTPMethod.all.filter
          fun m => m ≠ .Head && !(rulesFor m appRules).isEmpty) = [.Get, .Post] := by decide
      simp only [route, filter_target, hmethods, dispatch]
      by_cases hstar : url = ['/', '*']
      · rw [if_pos hstar, if_pos hstar]
        rfl
      · rw [if_neg hstar, if_neg hstar]
        cases hget : (getRoute url).isSome with
        | true =>
            rw [postRoute_of_getRoute hget]
            rfl
        | false => cases (postRoute url).isSome <;> rfl
  | _ => exact hother _ (by decide) (by decide) (by decide) (by decide)

end Dispatch

/-! ## §3. Handling a request. -/

structure HttpRequest where
  method : HTTPMethod
  url : List Char
  body : List Char

/-- What else a request depends on: the calls to the database, the orders that
the standard library leaves open, the depth of the stack and the files. -/
structure World where
  env : Env
  sort : MemberSort
  iteration : Order
  fuel : ℕ
  stat : List Char → Option Nat

/-- Why there is no response: the process is gone, a variable is read that was
not written to, or the router throws. -/
inductive Fault where
  | aborted (a : Abort)
  | undefined
  | corrupted

/-- The body of a `wvalue` has its content type. -/
def jsonHeaders : List (String × List Char) := [("Content-Type", "application/json".toList)]

def HttpResponse.reply (iteration : Order) (resp : HttpResponse) : Reply where
  code := resp.code
  headers :=
    match resp.payload with
    | .json _ => jsonHeaders
    | _ => []
  body := resp.body iteration
  file := none

/-- The answer of `/api/tree`. -/
def treeReply (iteration : Order) : Option Json → Reply
  | some json => ⟨200, jsonHeaders, treeText iteration json, none⟩
  | none => .text 404 "SuperRoot not found"

/-- The answer of `/api/dev/verify`. -/
def verifyReply (good : Bool) : Reply := .text 200 (if good then "tree good" else "tree bad")

/-- `POST /api/add_node`, from the text of the body on. -/
def postAddNode (mysql : MySQL) (w : World) (text : List Char) (s : State) :
    Except Fault (Reply × State) :=
  match AddBody.ofText w.sort text with
  | .error _ => .error .undefined
  | .ok body =>
      match addNodeHandler mysql body w.env s with
      | .error a => .error (.aborted a)
      | .ok (resp, s') => .ok (resp.reply w.iteration, s')

/-- `POST /api/remove_node`. -/
def postRemoveNode (mysql : MySQL) (w : World) (text : List Char) (s : State) :
    Except Fault (Reply × State) :=
  match RemoveBody.ofText w.sort text with
  | .error _ => .error .undefined
  | .ok body =>
      match removeNodeHandler mysql body w.env s with
      | .error a => .error (.aborted a)
      | .ok (resp, s') => .ok (resp.reply w.iteration, s')

/-- `GET /api/tree`. -/
def getTree (w : World) (s : State) : Except Fault (Reply × State) :=
  match apiTree s.mem w.fuel with
  | .error a => .error (.aborted a)
  | .ok json => .ok (treeReply w.iteration json, s)

/-- The handlers of `setupRoutes`, and that of the static files. -/
def Route.handle (mysql : MySQL) (w : World) (req : HttpRequest) (s : State) :
    Route → Except Fault (Reply × State)
  | .addNode => postAddNode mysql w req.body s
  | .removeNode => postRemoveNode mysql w req.body s
  | .tree => getTree w s
  | .helloWorld => .ok (.text 200 "Hello World!", s)
  | .verify => .ok (verifyReply (validateTree s.mem), s)
  | .staticFile =>
      .ok (.setStaticFileInfo w.stat (staticPath (req.url.drop staticUrl.length)), s)

/-- `handle_full`, with the handler of the rule. -/
def serveHttp (mysql : MySQL) (w : World) (req : HttpRequest) (s : State) :
    Except Fault (Reply × State) :=
  match app.handleFull req.method req.url with
  | .respond code headers skip_body => .ok (Reply.ended skip_body ⟨code, headers, [], none⟩, s)
  | .call r skip_body =>
      match r.handler.handle mysql w req s with
      | .error f => .error f
      | .ok (reply, s') => .ok (reply.ended skip_body, s')
  | .corrupted => .error .corrupted

/-! ## §4. What a request does. -/

/-- The request asks for an `addNode` with the arguments. -/
structure Adds (w : World) (req : HttpRequest) (name : String) (parent_id : Int) : Prop where
  method : req.method = .Post
  url : req.url = addUrl
  body : ∃ body, AddBody.ofText w.sort req.body = .ok (some body)
    ∧ body.arguments = .ok (name, parent_id)

/-- The request asks for a `removeNode` with the argument. -/
structure Removes (w : World) (req : HttpRequest) (id : Int) : Prop where
  method : req.method = .Post
  url : req.url = removeUrl
  body : ∃ body, RemoveBody.ofText w.sort req.body = .ok (some body) ∧ body.argument = .ok id

section Effects

variable {mysql : MySQL} {w : World} {req : HttpRequest} {s s' : State} {reply : Reply}

/-- What `/api/add_node` did: nothing, or an `addNode`. -/
theorem postAddNode_cases {text : List Char}
    (h : postAddNode mysql w text s = .ok (reply, s')) :
    s' = s ∨ ∃ name parent_id r,
      (∃ body, AddBody.ofText w.sort text = .ok (some body)
        ∧ body.arguments = .ok (name, parent_id))
      ∧ Serves mysql (.addNode name parent_id w.env) s (.added r) s'
      ∧ reply = (HttpResponse.added r name).reply w.iteration := by
  unfold postAddNode at h
  cases hbody : AddBody.ofText w.sort text with
  | error f => simp [hbody] at h
  | ok body =>
      simp only [hbody] at h
      cases body with
      | none => exact Or.inl (Prod.mk.inj (Except.ok.inj h)).2.symm
      | some b =>
          cases hargs : b.arguments with
          | error resp =>
              rw [addNodeHandler_error hargs] at h
              exact Or.inl (Prod.mk.inj (Except.ok.inj h)).2.symm
          | ok args =>
              obtain ⟨name, parent_id⟩ := args
              cases hadd : addNode mysql name parent_id w.env s with
              | error a => simp [addNodeHandler, hargs, hadd, bind, Except.bind] at h
              | ok result =>
                  obtain ⟨r, s₁⟩ := result
                  rw [addNodeHandler_ok hargs hadd] at h
                  obtain ⟨rfl, rfl⟩ := Prod.mk.inj (Except.ok.inj h)
                  refine Or.inr ⟨name, parent_id, r, ⟨b, rfl, hargs⟩, ?_, rfl⟩
                  unfold Serves
                  simp only [serve, hadd]
                  rfl

/-- What `/api/remove_node` did: nothing, or a `removeNode`. -/
theorem postRemoveNode_cases {text : List Char}
    (h : postRemoveNode mysql w text s = .ok (reply, s')) :
    s' = s ∨ ∃ id,
      (∃ body, RemoveBody.ofText w.sort text = .ok (some body) ∧ body.argument = .ok id)
      ∧ Serves mysql (.removeNode id w.env) s .removed s'
      ∧ reply = (HttpResponse.removed id).reply w.iteration := by
  unfold postRemoveNode at h
  cases hbody : RemoveBody.ofText w.sort text with
  | error f => simp [hbody] at h
  | ok body =>
      simp only [hbody] at h
      cases body with
      | none => exact Or.inl (Prod.mk.inj (Except.ok.inj h)).2.symm
      | some b =>
          cases harg : b.argument with
          | error resp =>
              rw [removeNodeHandler_error harg] at h
              exact Or.inl (Prod.mk.inj (Except.ok.inj h)).2.symm
          | ok id =>
              cases hrem : removeNode mysql id w.env s with
              | error a => simp [removeNodeHandler, harg, hrem, bind, Except.bind] at h
              | ok s₁ =>
                  rw [removeNodeHandler_ok harg hrem] at h
                  obtain ⟨rfl, rfl⟩ := Prod.mk.inj (Except.ok.inj h)
                  refine Or.inr ⟨id, ⟨b, rfl, harg⟩, ?_, rfl⟩
                  unfold Serves
                  simp only [serve, hrem]
                  rfl

theorem handler_rule (r : Route) : r.rule.handler = r := by
  cases r <;> rfl

/-- A request is answered by the router, or one handler is called. -/
theorem serveHttp_eq : serveHttp mysql w req s
    = match dispatch req.method req.url with
      | .respond code headers skip_body => .ok (Reply.ended skip_body ⟨code, headers, [], none⟩, s)
      | .call r skip_body =>
          match r.handler.handle mysql w req s with
          | .error f => .error f
          | .ok (reply, s') => .ok (reply.ended skip_body, s')
      | .corrupted => .error .corrupted := by
  unfold serveHttp
  rw [app_handleFull]

/-- The handlers that change nothing. -/
def Route.reads : Route → Bool
  | .addNode => false
  | .removeNode => false
  | _ => true

theorem getTree_state (h : getTree w s = .ok (reply, s')) : s' = s := by
  unfold getTree at h
  cases htree : apiTree s.mem w.fuel with
  | error a =>
      rw [htree] at h
      cases h
  | ok json =>
      rw [htree] at h
      exact (Prod.mk.inj (Except.ok.inj h)).2.symm

theorem handle_reads {r : Route} (hr : r.reads = true)
    (h : r.handle mysql w req s = .ok (reply, s')) : s' = s := by
  cases r with
  | addNode => cases hr
  | removeNode => cases hr
  | tree => exact getTree_state h
  | helloWorld => exact (Prod.mk.inj (Except.ok.inj h)).2.symm
  | verify => exact (Prod.mk.inj (Except.ok.inj h)).2.symm
  | staticFile => exact (Prod.mk.inj (Except.ok.inj h)).2.symm

theorem getRoute_reads {url : List Char} {r : Route} (h : getRoute url = some r) :
    r.reads = true := by
  unfold getRoute at h
  split_ifs at h <;> cases h <;> rfl

theorem postRoute_cases {url : List Char} {r : Route} (h : postRoute url = some r) :
    url = addUrl ∧ r = .addNode ∨ url = removeUrl ∧ r = .removeNode := by
  unfold postRoute at h
  split_ifs at h with hadd hremove
  · exact Or.inl ⟨hadd, (Option.some.inj h).symm⟩
  · exact Or.inr ⟨hremove, (Option.some.inj h).symm⟩

/-- Whatever calls a handler. -/
theorem dispatch_call {r : BaseRule Route} {skip_body : Bool}
    (h : dispatch req.method req.url = .call r skip_body) :
    r.handler.reads = true
      ∨ req.method = .Post ∧ skip_body = false
        ∧ (req.url = addUrl ∧ r.handler = .addNode ∨ req.url = removeUrl ∧ r.handler = .removeNode) := by
  unfold dispatch at h
  split at h
  next =>
      split at h
      next r' hget =>
          cases h
          rw [handler_rule]
          exact Or.inl (getRoute_reads hget)
      next => cases h
  next hpost =>
      split at h
      next r' hroute =>
          cases h
          rw [handler_rule]
          exact Or.inr ⟨hpost, rfl, postRoute_cases hroute⟩
      next => cases h
  next =>
      split at h
      next r' hget =>
          cases h
          rw [handler_rule]
          exact Or.inl (getRoute_reads hget)
      next => cases h
  next => split_ifs at h
  next => cases h

theorem dispatch_ne_corrupted : dispatch req.method req.url ≠ .corrupted := by
  intro h
  unfold dispatch at h
  split at h
  next => split at h <;> cases h
  next => split at h <;> cases h
  next => split at h <;> cases h
  next => split_ifs at h
  next => cases h

/-- A handler that leaves the body as it is. -/
theorem serveHttp_call {r : Route} (h : dispatch req.method req.url = .call r.rule false) :
    serveHttp mysql w req s = r.handle mysql w req s := by
  rw [serveHttp_eq, h]
  simp only [handler_rule]
  cases r.handle mysql w req s <;> rfl

theorem serveHttp_add (hmethod : req.method = .Post) (hurl : req.url = addUrl) :
    serveHttp mysql w req s = postAddNode mysql w req.body s :=
  serveHttp_call (r := .addNode) (by rw [hmethod, hurl]; rfl)

theorem serveHttp_remove (hmethod : req.method = .Post) (hurl : req.url = removeUrl) :
    serveHttp mysql w req s = postRemoveNode mysql w req.body s :=
  serveHttp_call (r := .removeNode) (by rw [hmethod, hurl]; rfl)

theorem serveHttp_tree (hmethod : req.method = .Get) (hurl : req.url = treeUrl) :
    serveHttp mysql w req s = getTree w s :=
  serveHttp_call (r := .tree) (by rw [hmethod, hurl]; rfl)

theorem serveHttp_verify (hmethod : req.method = .Get) (hurl : req.url = verifyUrl) :
    serveHttp mysql w req s = .ok (verifyReply (validateTree s.mem), s) :=
  serveHttp_call (r := .verify) (by rw [hmethod, hurl]; rfl)

/-- **What a request does**: nothing, or the one `addNode` or `removeNode` that
it asks for. -/
theorem serveHttp_cases (h : serveHttp mysql w req s = .ok (reply, s')) :
    s' = s
      ∨ (∃ name parent_id r, Adds w req name parent_id
          ∧ Serves mysql (.addNode name parent_id w.env) s (.added r) s'
          ∧ reply = (HttpResponse.added r name).reply w.iteration)
      ∨ ∃ id, Removes w req id ∧ Serves mysql (.removeNode id w.env) s .removed s'
          ∧ reply = (HttpResponse.removed id).reply w.iteration := by
  rw [serveHttp_eq] at h
  cases hdispatch : dispatch req.method req.url with
  | respond code headers skip_body =>
      rw [hdispatch] at h
      exact Or.inl (Prod.mk.inj (Except.ok.inj h)).2.symm
  | corrupted =>
      rw [hdispatch] at h
      cases h
  | call r skip_body =>
      rw [hdispatch] at h
      simp only at h
      cases hhandle : r.handler.handle mysql w req s with
      | error f =>
          rw [hhandle] at h
          cases h
      | ok result =>
          obtain ⟨reply', s₁⟩ := result
          rw [hhandle] at h
          obtain ⟨rfl, rfl⟩ := Prod.mk.inj (Except.ok.inj h)
          rcases dispatch_call hdispatch with hreads |
            ⟨hpost, rfl, ⟨hurl, hr⟩ | ⟨hurl, hr⟩⟩
          · exact Or.inl (handle_reads hreads hhandle)
          · rw [hr] at hhandle
            rcases postAddNode_cases hhandle with heq | ⟨name, p, r, hbody, hs, hreply⟩
            · exact Or.inl heq
            · exact Or.inr (Or.inl ⟨name, p, r, ⟨hpost, hurl, hbody⟩, hs, hreply⟩)
          · rw [hr] at hhandle
            rcases postRemoveNode_cases hhandle with heq | ⟨id, hbody, hs, hreply⟩
            · exact Or.inl heq
            · exact Or.inr (Or.inr ⟨id, ⟨hpost, hurl, hbody⟩, hs, hreply⟩)

end Effects

section Handlers

variable {method : HTTPMethod} {url : List Char} {route : Route} {skip_body : Bool}

/-- The requests that reach a handler. -/
theorem dispatch_call_iff :
    (∃ r, dispatch method url = .call r skip_body ∧ r.handler = route)
      ↔ (method = .Get ∧ skip_body = false ∨ method = .Head ∧ skip_body = true)
          ∧ getRoute url = some route
        ∨ (method = .Post ∧ skip_body = false) ∧ postRoute url = some route := by
  have hcall : ∀ (r' : Route) b, (∃ r, Router.Answer.call r'.rule b = .call r skip_body
      ∧ r.handler = route) ↔ skip_body = b ∧ r' = route := by
    intro r' b
    constructor
    · rintro ⟨r, heq, rfl⟩
      obtain ⟨rfl, rfl⟩ := Router.Answer.call.inj heq
      exact ⟨rfl, (handler_rule r').symm⟩
    · rintro ⟨rfl, rfl⟩
      exact ⟨_, rfl, handler_rule r'⟩
  cases method with
  | Get =>
      simp only [dispatch]
      cases getRoute url with
      | none => simp
      | some r' =>
          rw [hcall]
          simp
  | Post =>
      simp only [dispatch]
      cases postRoute url with
      | none => simp
      | some r' =>
          rw [hcall]
          simp
  | Head =>
      simp only [dispatch]
      cases getRoute url with
      | none => simp
      | some r' =>
          rw [hcall]
          simp
  | Options =>
      simp only [dispatch]
      split_ifs <;> simp
  | _ => simp [dispatch]

/-- The requests for a url that has handlers of other methods only. -/
theorem dispatch_405_iff :
    (∃ headers skip_body, dispatch method url = .respond 405 headers skip_body)
      ↔ method ≠ .Head ∧ method ≠ .Options
        ∧ (method ≠ .Get ∧ (getRoute url).isSome = true
          ∨ method ≠ .Post ∧ (postRoute url).isSome = true) := by
  have hexcl := @postRoute_of_getRoute url
  cases method with
  | Get =>
      simp only [dispatch]
      cases hget : getRoute url with
      | none => cases postRoute url <;> simp
      | some r' => simp [hexcl (by rw [hget]; rfl)]
  | Post =>
      simp only [dispatch]
      cases hpost : postRoute url with
      | none => cases getRoute url <;> simp
      | some r' =>
          -- no url has handlers of both methods
          have hnone : getRoute url = none := by
            by_contra hsome
            rw [hexcl (Option.isSome_iff_ne_none.mpr hsome)] at hpost
            cases hpost
          simp [hnone]
  | Head =>
      simp only [dispatch]
      cases getRoute url <;> simp
  | Options =>
      simp only [dispatch]
      split_ifs <;> simp
  | _ =>
      simp only [dispatch]
      cases getRoute url <;> cases postRoute url <;> simp

end Handlers

/-- **Which requests reach which handler**, by the method and the url alone: a GET
of one of its urls, a HEAD of it, whose body is left out, or a POST.  A url that
has handlers of other methods only is answered 405, unless it is a HEAD or an
OPTIONS, and the tables of the router are never found corrupted. -/
theorem http_dispatch (method : HTTPMethod) (url : List Char) :
    (∀ route skip_body, (∃ r, app.handleFull method url = .call r skip_body ∧ r.handler = route)
        ↔ (method = .Get ∧ skip_body = false ∨ method = .Head ∧ skip_body = true)
            ∧ getRoute url = some route
          ∨ (method = .Post ∧ skip_body = false) ∧ postRoute url = some route)
      ∧ ((∃ headers skip_body, app.handleFull method url = .respond 405 headers skip_body)
        ↔ method ≠ .Head ∧ method ≠ .Options
          ∧ (method ≠ .Get ∧ (getRoute url).isSome = true
            ∨ method ≠ .Post ∧ (postRoute url).isSome = true))
      ∧ app.handleFull method url ≠ .corrupted := by
  rw [app_handleFull]
  exact ⟨fun route skip_body => dispatch_call_iff, dispatch_405_iff,
    fun h => @dispatch_ne_corrupted ⟨method, url, []⟩ h⟩

/-! ## §5. The files that are sent. -/

section Files

variable {mysql : MySQL} {w : World} {req : HttpRequest} {s s' : State} {reply : Reply}
  {path : List Char}

/-- Only the handler of static files answers with a file. -/
theorem handle_file {r : Route} (h : r.handle mysql w req s = .ok (reply, s'))
    (hfile : reply.file = some path) :
    r = .staticFile ∧ s' = s ∧ path = staticPath (req.url.drop staticUrl.length)
      ∧ (w.stat path).isSome = true := by
  cases r with
  | addNode =>
      simp only [Route.handle, postAddNode] at h
      split at h
      next => cases h
      next =>
          split at h
          next => cases h
          next =>
              obtain ⟨rfl, -⟩ := Prod.mk.inj (Except.ok.inj h)
              cases hfile
  | removeNode =>
      simp only [Route.handle, postRemoveNode] at h
      split at h
      next => cases h
      next =>
          split at h
          next => cases h
          next =>
              obtain ⟨rfl, -⟩ := Prod.mk.inj (Except.ok.inj h)
              cases hfile
  | tree =>
      simp only [Route.handle, getTree] at h
      split at h
      next => cases h
      next json _ =>
          obtain ⟨rfl, -⟩ := Prod.mk.inj (Except.ok.inj h)
          cases json <;> cases hfile
  | helloWorld =>
      obtain ⟨rfl, -⟩ := Prod.mk.inj (Except.ok.inj h)
      cases hfile
  | verify =>
      obtain ⟨rfl, -⟩ := Prod.mk.inj (Except.ok.inj h)
      cases hfile
  | staticFile =>
      -- the only handler that sets a file
      obtain ⟨rfl, rfl⟩ := Prod.mk.inj (Except.ok.inj h)
      refine ⟨rfl, rfl, ?_⟩
      unfold Reply.setStaticFileInfo at hfile
      split at hfile
      next size hstat =>
          obtain rfl := Option.some.inj hfile
          exact ⟨rfl, by rw [hstat]; rfl⟩
      next => cases hfile

/-- The requests for static files. -/
theorem static_call {method : HTTPMethod} {url : List Char} {skip_body : Bool}
    (h : (method = .Get ∧ skip_body = false ∨ method = .Head ∧ skip_body = true)
        ∧ getRoute url = some .staticFile
      ∨ (method = .Post ∧ skip_body = false) ∧ postRoute url = some .staticFile) :
    (method = .Get ∨ method = .Head) ∧ url = staticUrl ++ url.drop staticUrl.length := by
  rcases h with ⟨hmethod, hroute⟩ | ⟨-, hroute⟩
  · refine ⟨hmethod.imp And.left And.left, ?_⟩
    have hstatic : url.take staticUrl.length = staticUrl := by
      by_contra hno
      have hcond : ¬ (url.take staticUrl.length = staticUrl ∧ url.drop staticUrl.length ≠ []) :=
        fun hboth => hno hboth.1
      unfold getRoute at hroute
      rw [if_neg hcond] at hroute
      split_ifs at hroute <;> cases hroute
    calc url = url.take staticUrl.length ++ url.drop staticUrl.length :=
          (List.take_append_drop _ _).symm
      _ = staticUrl ++ url.drop staticUrl.length := by rw [hstatic]
  · unfold postRoute at hroute
    split_ifs at hroute <;> cases hroute

/-- **The only files that are sent are below the directory of static files**,
whatever the url: the file is named by a GET or a HEAD, the name is clean and does
not end at a NUL, and from wherever the path is followed, it stays below. -/
theorem http_static_confined (h : serveHttp mysql w req s = .ok (reply, s'))
    (hfile : reply.file = some path) :
    (req.method = .Get ∨ req.method = .Head) ∧ s' = s
      ∧ ∃ file_path, req.url = staticUrl ++ file_path
        ∧ path = staticDirectory ++ sanitizeFilename file_path
        ∧ Clean (sanitizeFilename file_path) ∧ (w.stat path).isSome = true
        ∧ (∀ c ∈ path, c ≠ '\x00')
        ∧ ∀ cwd, cwd ++ [['s', 't', 'a', 't', 'i', 'c']]
          <+: follow leadsUp staysThere cwd (components '/' path) := by
  rw [serveHttp_eq] at h
  cases hdispatch : dispatch req.method req.url with
  | respond code headers skip_body =>
      rw [hdispatch] at h
      obtain ⟨rfl, -⟩ := Prod.mk.inj (Except.ok.inj h)
      cases skip_body <;> cases hfile
  | corrupted => exact absurd hdispatch dispatch_ne_corrupted
  | call r skip_body =>
      rw [hdispatch] at h
      simp only at h
      cases hhandle : r.handler.handle mysql w req s with
      | error f =>
          rw [hhandle] at h
          cases h
      | ok result =>
          obtain ⟨reply', s₁⟩ := result
          rw [hhandle] at h
          obtain ⟨rfl, rfl⟩ := Prod.mk.inj (Except.ok.inj h)
          have hfile' : reply'.file = some path := by
            cases skip_body <;> exact hfile
          obtain ⟨hroute, rfl, rfl, hstat⟩ := handle_file hhandle hfile'
          obtain ⟨hmethod, hurl⟩ := static_call (dispatch_call_iff.mp ⟨r, hdispatch, hroute⟩)
          obtain ⟨hconfined, hnul⟩ :=
            staticPath_confined (req.url.drop staticUrl.length) []
          refine ⟨hmethod, rfl, _, hurl, rfl, clean_sanitizeFilename _, hstat, hnul, fun cwd => ?_⟩
          exact (staticPath_confined _ cwd).1

end Files

/-- Rows get the ids in turn, and every file is there. -/
def World.plain (ids : List Int) : World where
  env := .allocating ids
  sort := .unsigned
  iteration := .stored
  fuel := 10
  stat _ := some 1

/-- A file that is sent. -/
theorem http_static_confined_file : ∃ reply path,
    serveHttp readsA (.plain []) ⟨.Get, "/static/a".toList, []⟩ State.initial
        = .ok (reply, State.initial)
      ∧ reply.file = some path
      ∧ [['s', 't', 'a', 't', 'i', 'c']] <+: follow leadsUp staysThere [] (components '/' path) := by
  have hserve := @serveHttp_call readsA (.plain []) ⟨.Get, "/static/a".toList, []⟩ State.initial
    .staticFile rfl
  obtain ⟨-, -, _, -, -, -, -, -, hconfined⟩ := http_static_confined hserve rfl
  exact ⟨_, _, hserve, rfl, hconfined []⟩

end ApiSyncer
