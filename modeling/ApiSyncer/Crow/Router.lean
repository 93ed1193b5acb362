/-
  ApiSyncer.Crow.Router
  ─────────────────────
  **CROW'S ROUTER.**

  Every method has a table of rules and a tree of their urls, filled when the
  server starts: a rule whose url ends in a slash also enters the url without
  it, under the index that stands for a redirect.  A request is answered by the
  router itself or goes to the handler of a rule.

      validate_eq_none_iff   when the registration of the rules throws
      handleFull_eq          a request goes to the first rule registered for its
                             method whose url matches
-/
import ApiSyncer.Crow.Trie
import Mathlib.Data.List.Basic
import Mathlib.Logic.Function.Basic

namespace ApiSyncer.Crow

/-! ## §1. Methods and rules. -/

/-- `enum class HTTPMethod : char`. -/
inductive HTTPMethod where
  | Delete | Get | Head | Post | Put | Connect | Options | Trace | Patch | Purge | Copy | Lock
  | MkCol | Move | Propfind | Proppatch | Search | Unlock | Bind | Rebind | Unbind | Acl | Report
  | MkActivity | Checkout | Merge | MSearch | Notify | Subscribe | Unsubscribe | MkCalendar | Link
  | Unlink | Source
  deriving DecidableEq, Repr

namespace HTTPMethod

/-- Up to `InternalMethodCount`. -/
def all : List HTTPMethod :=
  [Delete, Get, Head, Post, Put, Connect, Options, Trace, Patch, Purge, Copy, Lock, MkCol, Move,
    Propfind, Proppatch, Search, Unlock, Bind, Rebind, Unbind, Acl, Report, MkActivity, Checkout,
    Merge, MSearch, Notify, Subscribe, Unsubscribe, MkCalendar, Link, Unlink, Source]

/-- `std::string method_name(HTTPMethod method)`. -/
def methodName : HTTPMethod → String
  | Delete => "DELETE" | Get => "GET" | Head => "HEAD" | Post => "POST" | Put => "PUT"
  | Connect => "CONNECT" | Options => "OPTIONS" | Trace => "TRACE"
  | Patch => "PATCH" | Purge => "PURGE"
  | Copy => "COPY" | Lock => "LOCK" | MkCol => "MKCOL" | Move => "MOVE"
  | Propfind => "PROPFIND" | Proppatch => "PROPPATCH" | Search => "SEARCH" | Unlock => "UNLOCK"
  | Bind => "BIND" | Rebind => "REBIND" | Unbind => "UNBIND" | Acl => "ACL"
  | Report => "REPORT" | MkActivity => "MKACTIVITY" | Checkout => "CHECKOUT" | Merge => "MERGE"
  | MSearch => "M-SEARCH" | Notify => "NOTIFY" | Subscribe => "SUBSCRIBE"
  | Unsubscribe => "UNSUBSCRIBE" | MkCalendar => "MKCALENDAR"
  | Link => "LINK" | Unlink => "UNLINK" | Source => "SOURCE"

/-- The number of the method. -/
def index (m : HTTPMethod) : Nat := all.idxOf m

/-- The bit of the method in `methods_`, of which there are 32. -/
def bit (m : HTTPMethod) : BitVec 32 := 1#32 <<< m.index

theorem mem_all (m : HTTPMethod) : m ∈ all := by
  cases m <;> decide

theorem nodup_all : all.Nodup := by decide

end HTTPMethod

/-- A rule with its handler. -/
structure BaseRule (ρ : Type) where
  rule : List Char
  methods : BitVec 32
  handler : ρ
  deriving DecidableEq, Repr

namespace BaseRule

variable {ρ : Type}

/-- The bit of the method is set. -/
def serves (r : BaseRule ρ) (m : HTTPMethod) : Bool := r.methods &&& m.bit ≠ 0

/-- The methods `foreach_method` visits. -/
def foreachMethod (r : BaseRule ρ) : List HTTPMethod := HTTPMethod.all.filter r.serves

def hasTrailingSlash (r : BaseRule ρ) : Bool :=
  1 < r.rule.length && r.rule.getLast? = some '/'

end BaseRule

/-! ## §2. Registration. -/

/-- `RULE_SPECIAL_REDIRECT_SLASH`. -/
def redirectSlash : Nat := 1

/-- `struct PerMethod`. -/
structure PerMethod (ρ : Type) where
  rules : List (Option (BaseRule ρ))
  trie : Node

/-- The indices 0 and 1 have no rule. -/
def PerMethod.start {ρ : Type} : PerMethod ρ := ⟨[none, none], Node.head⟩

/-- What `internal_add_rule_object` does for one method; it throws for a url that
has been added. -/
def PerMethod.addRule {ρ : Type} (pm : PerMethod ρ) (r : BaseRule ρ) : Option (PerMethod ρ) := do
  let rules := pm.rules ++ [some r]
  -- the index is a `uint16_t`
  let trie ← Node.add (ruleItems r.rule) ((rules.length - 1) % 65536) pm.trie
  let trie ←
    if r.hasTrailingSlash then Node.add (ruleItems r.rule.dropLast) redirectSlash trie
    else some trie
  return ⟨rules, trie⟩

/-- `per_methods_`. -/
abbrev Router (ρ : Type) := HTTPMethod → PerMethod ρ

namespace Router

variable {ρ : Type}

/-- One method's entry, put through `f`. -/
def modify (f : HTTPMethod → PerMethod ρ → Option (PerMethod ρ)) (router : Router ρ)
    (m : HTTPMethod) : Option (Router ρ) :=
  (f m (router m)).map fun pm => Function.update router m pm

/-- `void internal_add_rule_object(const std::string& rule, BaseRule* ruleObject)`. -/
def internalAddRuleObject (router : Router ρ) (r : BaseRule ρ) : Option (Router ρ) :=
  r.foreachMethod.foldlM (modify fun _ pm => pm.addRule r) router

/-- `per_method.trie.validate()`. -/
def validateTrie (pm : PerMethod ρ) : Option (PerMethod ρ) :=
  pm.trie.validate.map fun trie => ⟨pm.rules, trie⟩

/-- `void validate()`, with the rules in the order in which they were made. -/
def validate (all_rules : List (BaseRule ρ)) : Option (Router ρ) := do
  let router ← all_rules.foldlM internalAddRuleObject fun _ => .start
  HTTPMethod.all.foldlM (modify fun _ => validateTrie) router

/-! ## §3. Requests. -/

/-- What becomes of a request: the router answers, a rule is called, or the
tables are found corrupted and an exception leaves the router.  With `skip_body`
only the length of the body is sent. -/
inductive Answer (ρ : Type) where
  | respond (code : Nat) (headers : List (String × List Char)) (skip_body : Bool)
  | call (r : BaseRule ρ) (skip_body : Bool)
  | corrupted

/-- The part of a `routing_handle_result` that is a match. -/
structure Found where
  rule_index : Nat
  method : HTTPMethod
  skip_body : Bool

/-- The value of "Allow". -/
def allow (methods : List HTTPMethod) : List Char :=
  methods.foldl (fun allow m => allow ++ ", ".toList ++ m.methodName.toList)
    "OPTIONS, HEAD".toList

/-- `handle_initial`: an answer, or a match to be handled. -/
def handleInitial (router : Router ρ) (method : HTTPMethod) (url : List Char) :
    Answer ρ ⊕ Found :=
  let find m := (router m).trie.find url
  match method with
  | .Head =>
      let rule_index := find .Head
      if rule_index ≠ 0 then .inr ⟨rule_index, .Head, true⟩
      else
        -- HEAD falls back on GET
        let rule_index := find .Get
        if rule_index ≠ 0 then .inr ⟨rule_index, .Get, true⟩ else .inl (.respond 404 [] false)
  | .Options =>
      if url = ['/', '*'] then
        let methods := HTTPMethod.all.filter fun m =>
          m ≠ .Head && !(router m).trie.children.isEmpty
        .inl (.respond 204 [("Allow", allow methods)] false)
      else
        let matched := HTTPMethod.all.filter fun m => find m ≠ 0
        if matched ≠ [] then
          .inl (.respond 204 [("Allow", allow (matched.filter fun m => m ≠ .Head))] false)
        else .inl (.respond 404 [] false)
  | method =>
      let rule_index := find method
      if rule_index ≠ 0 then .inr ⟨rule_index, method, false⟩
      else if HTTPMethod.all.any fun m => find m ≠ 0 then .inl (.respond 405 [] false)
      else .inl (.respond 404 [] false)

/-- `handle`, up to the call of the rule. -/
def handle (router : Router ρ) (url : List Char) (found : Found) : Answer ρ :=
  let rules := (router found.method).rules
  if rules.length ≤ found.rule_index then .corrupted
  else if found.rule_index = redirectSlash then
    .respond 301 [("Location", url ++ ['/'])] found.skip_body
  else
    match rules[found.rule_index]? with
    | some (some r) => .call r found.skip_body
    | _ => .corrupted

/-- `handle_full`. -/
def handleFull (router : Router ρ) (method : HTTPMethod) (url : List Char) : Answer ρ :=
  match handleInitial router method url with
  | .inl answer => answer
  | .inr found => handle router url found

end Router

/-! ## §4. The same without trees. -/

namespace BaseRule

variable {ρ : Type}

/-- The url of the rule matches. -/
def fits (r : BaseRule ρ) (url : List Char) : Bool := matchesUrl (ruleItems r.rule) url

/-- The url lacks the slash at the end of the rule's. -/
def lacksSlash (r : BaseRule ρ) (url : List Char) : Bool :=
  r.hasTrailingSlash && matchesUrl (ruleItems r.rule.dropLast) url

/-- The urls a rule enters. -/
def urls (r : BaseRule ρ) : List (List RuleItem) :=
  ruleItems r.rule :: if r.hasTrailingSlash then [ruleItems r.rule.dropLast] else []

/-- The url starts with a slash and has no NUL. -/
structure Registrable (r : BaseRule ρ) : Prop where
  slash : r.rule.head? = some '/'
  noNul : nul ∉ r.rule

end BaseRule

/-- Where the url leads among the rules of one method. -/
inductive Target (ρ : Type) where
  | nowhere
  | redirect
  | rule (r : BaseRule ρ)

namespace Target

variable {ρ : Type}

/-- A url that lacks a slash is redirected, whatever else matches; otherwise the
rule that was registered first is taken. -/
def of (rules : List (BaseRule ρ)) (url : List Char) : Target ρ :=
  if rules.any fun r => r.lacksSlash url then .redirect
  else
    match rules.find? fun r => r.fits url with
    | some r => .rule r
    | none => .nowhere

def isNowhere : Target ρ → Bool
  | nowhere => true
  | _ => false

theorem eq_nowhere {t : Target ρ} (h : t.isNowhere = true) : t = nowhere := by
  cases t with
  | nowhere => rfl
  | redirect => cases h
  | rule r => cases h

/-- What the request comes to there. -/
def answer (url : List Char) (skip_body : Bool) : Target ρ → Router.Answer ρ
  | nowhere => .respond 404 [] false
  | redirect => .respond 301 [("Location", url ++ ['/'])] skip_body
  | rule r => .call r skip_body

end Target

/-- The rules registered for a method. -/
def rulesFor {ρ : Type} (m : HTTPMethod) (all_rules : List (BaseRule ρ)) : List (BaseRule ρ) :=
  all_rules.filter fun r => r.serves m

/-- Routing by the list of the rules. -/
def route {ρ : Type} (all_rules : List (BaseRule ρ)) (method : HTTPMethod) (url : List Char) :
    Router.Answer ρ :=
  let target m := Target.of (rulesFor m all_rules) url
  match method with
  | .Head =>
      if (target .Head).isNowhere then (target .Get).answer url true
      else (target .Head).answer url true
  | .Options =>
      if url = ['/', '*'] then
        let methods := HTTPMethod.all.filter fun m =>
          m ≠ .Head && !(rulesFor m all_rules).isEmpty
        .respond 204 [("Allow", Router.allow methods)] false
      else
        let matched := HTTPMethod.all.filter fun m => !(target m).isNowhere
        if matched ≠ [] then
          .respond 204 [("Allow", Router.allow (matched.filter fun m => m ≠ .Head))] false
        else .respond 404 [] false
  | method =>
      if (target method).isNowhere && HTTPMethod.all.any fun m => !(target m).isNowhere then
        .respond 405 [] false
      else (target method).answer url false

/-! ## §5. Entry by entry. -/

section Update

variable {κ σ : Type} [DecidableEq κ]

/-- Updating the entries of the keys one after the other updates each by
itself. -/
theorem foldlM_update (f : κ → σ → Option σ) {l : List κ} (hl : l.Nodup) {g g' : κ → σ} :
    l.foldlM (fun g k => (f k (g k)).map fun v => Function.update g k v) g = some g'
      ↔ ∀ k, (if k ∈ l then f k (g k) else some (g k)) = some (g' k) := by
  induction l generalizing g with
  | nil => simp [funext_iff]
  | cons a l ih =>
      obtain ⟨ha, hl⟩ := List.nodup_cons.mp hl
      rw [List.foldlM_cons]
      cases hfa : f a (g a) with
      | none =>
          constructor
          · intro h
            cases h
          · intro h
            have := h a
            rw [if_pos List.mem_cons_self, hfa] at this
            cases this
      | some v =>
          show l.foldlM _ (Function.update g a v) = some g' ↔ _
          rw [ih hl]
          refine forall_congr' fun k => ?_
          by_cases hk : k = a
          · subst hk
            simp [ha, hfa]
          · simp [hk]

/-- Several rounds of updates, of which each goes through its own keys. -/
theorem foldlM_rounds {α : Type} (f : α → σ → Option σ) (keys : α → List κ)
    (hkeys : ∀ a, (keys a).Nodup) {l : List α} {g g' : κ → σ} :
    l.foldlM (fun g a => (keys a).foldlM
        (fun g k => (f a (g k)).map fun v => Function.update g k v) g) g = some g'
      ↔ ∀ k, (l.filter fun a => k ∈ keys a).foldlM (fun v a => f a v) (g k) = some (g' k) := by
  induction l generalizing g with
  | nil => simp [funext_iff]
  | cons a l ih =>
      have hround : ∀ mid : κ → σ, _ := fun mid =>
        @foldlM_update κ σ _ (fun _ => f a) (keys a) (hkeys a) g mid
      rw [List.foldlM_cons]
      constructor
      · intro h k
        obtain ⟨mid, hmid, hrest⟩ := Option.bind_eq_some_iff.mp h
        have hk := (hround mid).mp hmid k
        have hrest := ih.mp hrest k
        rw [List.filter_cons]
        split at hk
        next hmem =>
            rw [if_pos (decide_eq_true hmem), List.foldlM_cons, hk]
            exact hrest
        next hmem =>
            rw [if_neg (by simpa using hmem), Option.some.inj hk]
            exact hrest
      · intro h
        have hstep : ∀ k, ∃ v, (if k ∈ keys a then f a (g k) else some (g k)) = some v
            ∧ (l.filter fun a => k ∈ keys a).foldlM (fun v a => f a v) v = some (g' k) := by
          intro k
          have hk := h k
          rw [List.filter_cons] at hk
          split
          next hmem =>
              rw [if_pos (decide_eq_true hmem), List.foldlM_cons] at hk
              exact Option.bind_eq_some_iff.mp hk
          next hmem =>
              rw [if_neg (by simpa using hmem)] at hk
              exact ⟨_, rfl, hk⟩
        choose mid hmid hrest using hstep
        exact Option.bind_eq_some_iff.mpr ⟨mid, (hround mid).mpr hmid, ih.mpr hrest⟩

end Update

namespace Router

variable {ρ : Type} {all_rules : List (BaseRule ρ)} {router : Router ρ}

/-- **The registration, method by method.** -/
theorem validate_iff : validate all_rules = some router
    ↔ ∀ m, (((rulesFor m all_rules).foldlM PerMethod.addRule .start).bind validateTrie)
        = some (router m) := by
  have hadd : ∀ mid : Router ρ, _ := fun mid =>
    @foldlM_rounds HTTPMethod (PerMethod ρ) _ (BaseRule ρ) (fun r pm => pm.addRule r)
      BaseRule.foreachMethod (fun r => HTTPMethod.nodup_all.filter _) all_rules
      (fun _ => .start) mid
  have hvalidate : ∀ mid : Router ρ, _ := fun mid =>
    @foldlM_update HTTPMethod (PerMethod ρ) _ (fun _ => validateTrie) HTTPMethod.all
      HTTPMethod.nodup_all mid router
  have hfor : ∀ m, (all_rules.filter fun r => m ∈ r.foreachMethod) = rulesFor m all_rules := by
    intro m
    refine List.filter_congr fun r _ => ?_
    simp [BaseRule.foreachMethod, HTTPMethod.mem_all]
  simp only [hfor] at hadd
  simp only [HTTPMethod.mem_all, if_true] at hvalidate
  constructor
  · intro h m
    obtain ⟨mid, hmid, hrest⟩ := Option.bind_eq_some_iff.mp h
    exact Option.bind_eq_some_iff.mpr
      ⟨mid m, (hadd mid).mp hmid m, (hvalidate mid).mp hrest m⟩
  · intro h
    choose mid hmid hrest using fun m => Option.bind_eq_some_iff.mp (h m)
    exact Option.bind_eq_some_iff.mpr ⟨mid, (hadd mid).mpr hmid, (hvalidate mid).mpr hrest⟩

end Router

/-! ## §6. One method's table and tree. -/

section Built

variable {ρ : Type} {rs : List (BaseRule ρ)} {r : BaseRule ρ} {pm : PerMethod ρ}

/-- What the rule with the number enters into the tree. -/
def BaseRule.entries (r : BaseRule ρ) (k : Nat) : List Rule :=
  (ruleItems r.rule, k)
    :: if r.hasTrailingSlash then [(ruleItems r.rule.dropLast, redirectSlash)] else []

/-- The rules are numbered from 2 on. -/
def entries (rs : List (BaseRule ρ)) : List Rule :=
  (rs.zipIdx 2).flatMap fun x => x.1.entries x.2

theorem BaseRule.entries_fst (r : BaseRule ρ) (k : Nat) : (r.entries k).map Prod.fst = r.urls := by
  unfold BaseRule.entries BaseRule.urls
  split <;> rfl

theorem entries_append_singleton (rs : List (BaseRule ρ)) (r : BaseRule ρ) :
    entries (rs ++ [r]) = entries rs ++ r.entries (2 + rs.length) := by
  simp [entries, List.zipIdx_append]

theorem entries_fst (rs : List (BaseRule ρ)) :
    (entries rs).map Prod.fst = rs.flatMap BaseRule.urls := by
  have hfst : ∀ k, ((rs.zipIdx k).flatMap fun x => x.1.entries x.2).map Prod.fst
      = rs.flatMap BaseRule.urls := by
    induction rs with
    | nil =>
        intro k
        rfl
    | cons r rs ih =>
        intro k
        rw [List.zipIdx_cons, List.flatMap_cons, List.map_append, BaseRule.entries_fst, ih,
          List.flatMap_cons]
  exact hfst 2

theorem mem_ruleItems {c : Char} {url : List Char} (h : .char c ∈ ruleItems url) : c ∈ url := by
  induction url using ruleItems.induct with
  | case1 url ih =>
      rcases List.mem_cons.mp h with heq | hmem
      · cases heq
      · have := ih hmem
        simp [this]
  | case2 d url hpath ih =>
      rw [ruleItems] at h
      · rcases List.mem_cons.mp h with heq | hmem
        · cases heq
          exact List.mem_cons_self
        · exact List.mem_cons_of_mem _ (ih hmem)
      · exact hpath
  | case3 => cases h

theorem ruleItems_slash (url : List Char) :
    ruleItems ('/' :: url) = .char '/' :: ruleItems url := by
  rw [ruleItems]
  intro rest h
  simp at h

/-- What a registrable rule enters: urls without NUL behind a slash. -/
theorem BaseRule.Registrable.urls (hr : r.Registrable) {url : List RuleItem}
    (h : url ∈ r.urls) :
    .char nul ∉ url ∧ ∃ rest, url = .char '/' :: rest := by
  obtain ⟨hslash, hnul⟩ := hr
  obtain ⟨tail, htail⟩ : ∃ tail, r.rule = '/' :: tail := by
    cases hrule : r.rule with
    | nil =>
        rw [hrule] at hslash
        cases hslash
    | cons c tail =>
        rw [hrule] at hslash
        cases Option.some.inj hslash
        exact ⟨tail, rfl⟩
  unfold BaseRule.urls at h
  rcases List.mem_cons.mp h with rfl | h
  · refine ⟨fun hmem => hnul (mem_ruleItems hmem), ruleItems tail, ?_⟩
    rw [htail, ruleItems_slash]
  · split at h
    next htrailing =>
        obtain rfl := List.mem_singleton.mp h
        refine ⟨fun hmem => hnul (List.dropLast_subset _ (mem_ruleItems hmem)), ?_⟩
        -- a rule of more than one character keeps its first
        cases tail with
        | nil => simp [BaseRule.hasTrailingSlash, htail] at htrailing
        | cons c tail => exact ⟨_, by rw [htail, List.dropLast_cons_cons, ruleItems_slash]⟩
    next => cases h

/-- A tree of the listed rules, whose urls begin with a slash. -/
structure TreeOf (l : List Rule) (n : Node) : Prop where
  plain : n.Plain
  under : Node.Under '/' n
  rules : n.rules.Perm l

theorem TreeOf.head : TreeOf [] Node.head where
  plain := trivial
  under := ⟨rfl, rfl, fun _ h => (List.not_mem_nil h).elim⟩
  rules := List.Perm.refl _

theorem TreeOf.perm {l m : List Rule} {n : Node} (h : TreeOf l n) (hperm : l.Perm m) :
    TreeOf m n :=
  ⟨h.plain, h.under, h.rules.trans hperm⟩

/-- **One more url**: it is new and in the tree from now on, or it is there
already. -/
theorem TreeOf.add {l : List Rule} {n : Node} (h : TreeOf l n) {url : List RuleItem} {i : Nat}
    (hurl : .char nul ∉ url ∧ ∃ rest, url = .char '/' :: rest) (hi : i ≠ 0) :
    (url ∉ l.map Prod.fst ∧ ∃ n', Node.add url i n = some n' ∧ TreeOf ((url, i) :: l) n')
      ∨ url ∈ l.map Prod.fst ∧ Node.add url i n = none := by
  obtain ⟨hnul, rest, rfl⟩ := hurl
  have hnone := @Node.add_eq_none_iff i _ _ hnul h.plain
  rw [(h.rules.map Prod.fst).mem_iff] at hnone
  cases hadd : Node.add (.char '/' :: rest) i n with
  | none => exact Or.inr ⟨hnone.mp hadd, rfl⟩
  | some n' =>
      have hentered := Node.add_some hnul hi h.plain hadd
      obtain ⟨hindex, hchildren⟩ := Node.add_children hnul hi h.plain hadd
      refine Or.inl ⟨fun hmem => ?_, n', rfl, hentered.plain, ⟨?_, ?_, ?_⟩, ?_⟩
      · rw [hnone.mpr hmem] at hadd
        cases hadd
      · exact hindex.trans h.under.rule_index
      · exact hentered.param.trans h.under.param
      · intro child' hchild'
        rcases hchildren child' hchild' with hlabel | ⟨child, hchild, hlabel⟩
        · exact hlabel
        · rw [hlabel]
          exact h.under.children child hchild
      · exact hentered.rules.trans (h.rules.cons _)

/-- The table and the tree after the rules. -/
structure Built (rs : List (BaseRule ρ)) (pm : PerMethod ρ) : Prop where
  rules : pm.rules = [none, none] ++ rs.map some
  tree : TreeOf (entries rs) pm.trie
  nodup : ((entries rs).map Prod.fst).Nodup

theorem Built.start : Built [] (PerMethod.start : PerMethod ρ) :=
  ⟨rfl, TreeOf.head, List.nodup_nil⟩

/-- What one more rule makes of the list. -/
theorem entries_snoc_perm (rs : List (BaseRule ρ)) (r : BaseRule ρ) :
    (entries (rs ++ [r])).Perm
      ((if r.hasTrailingSlash then [(ruleItems r.rule.dropLast, redirectSlash)] else [])
        ++ (ruleItems r.rule, 2 + rs.length) :: entries rs) := by
  rw [entries_append_singleton]
  refine List.perm_append_comm.trans ?_
  exact List.perm_middle.symm

/-- **One more rule**: it is entered, or a url is there twice. -/
theorem Built.addRule (h : Built rs pm) (hr : r.Registrable) (hcount : rs.length < 65534) :
    (∃ pm', pm.addRule r = some pm' ∧ Built (rs ++ [r]) pm')
      ∨ pm.addRule r = none ∧ ¬ ((entries (rs ++ [r])).map Prod.fst).Nodup := by
  have hindex : ((pm.rules ++ [some r]).length - 1) % 65536 = 2 + rs.length := by
    rw [h.rules]
    simp only [List.length_append, List.length_map, List.length_cons, List.length_nil]
    omega
  have hrules : pm.rules ++ [some r] = [none, none] ++ (rs ++ [r]).map some := by simp [h.rules]
  have hperm := entries_snoc_perm rs r
  have hnodup := (hperm.map Prod.fst).nodup_iff
  unfold PerMethod.addRule
  simp only [hindex]
  rcases h.tree.add (hr.urls List.mem_cons_self) (by omega : 2 + rs.length ≠ 0) with
    ⟨hnew, n₁, hadd₁, htree₁⟩ | ⟨hold, hadd₁⟩
  · have hcons : (((ruleItems r.rule, 2 + rs.length) :: entries rs).map Prod.fst).Nodup :=
      List.nodup_cons.mpr ⟨hnew, h.nodup⟩
    by_cases htrailing : r.hasTrailingSlash = true
    · -- the url without the slash comes on top
      rw [if_pos htrailing, List.singleton_append] at hperm hnodup
      have hurl : ruleItems r.rule.dropLast ∈ r.urls := by simp [BaseRule.urls, htrailing]
      rcases htree₁.add (hr.urls hurl) Nat.one_ne_zero with
        ⟨hnew₂, n₂, hadd₂, htree₂⟩ | ⟨hold₂, hadd₂⟩
      · refine Or.inl ⟨⟨pm.rules ++ [some r], n₂⟩, ?_, hrules, htree₂.perm hperm.symm, ?_⟩
        · simp [hadd₁, htrailing, redirectSlash, hadd₂]
        · exact hnodup.mpr (List.nodup_cons.mpr ⟨hnew₂, hcons⟩)
      · refine Or.inr ⟨by simp [hadd₁, htrailing, redirectSlash, hadd₂], fun hn => ?_⟩
        exact (List.nodup_cons.mp (hnodup.mp hn)).1 hold₂
    · rw [if_neg htrailing, List.nil_append] at hperm hnodup
      refine Or.inl ⟨⟨pm.rules ++ [some r], n₁⟩, ?_, hrules, htree₁.perm hperm.symm, ?_⟩
      · simp [hadd₁, htrailing]
      · exact hnodup.mpr hcons
  · refine Or.inr ⟨by simp [hadd₁], fun hn => ?_⟩
    have hcons := (List.nodup_append.mp (List.map_append ▸ hnodup.mp hn)).2.1
    exact (List.nodup_cons.mp hcons).1 hold

/-- **All rules**: they are entered, or a url is there twice. -/
theorem Built.addRules {rs' : List (BaseRule ρ)} (hr : ∀ r ∈ rs', r.Registrable) :
    ∀ {rs : List (BaseRule ρ)} {pm : PerMethod ρ}, Built rs pm → rs.length + rs'.length ≤ 65534 →
      (∃ pm', rs'.foldlM PerMethod.addRule pm = some pm' ∧ Built (rs ++ rs') pm')
        ∨ rs'.foldlM PerMethod.addRule pm = none ∧ ¬ ((rs ++ rs').flatMap BaseRule.urls).Nodup := by
  induction rs' with
  | nil =>
      intro rs pm h _
      exact Or.inl ⟨pm, rfl, by rwa [List.append_nil]⟩
  | cons r rs' ih =>
      intro rs pm h hcount
      have hlength : (r :: rs').length = rs'.length + 1 := rfl
      have happend : rs ++ r :: rs' = (rs ++ [r]) ++ rs' := by simp
      rw [List.foldlM_cons, happend]
      rcases h.addRule (hr r List.mem_cons_self) (by omega) with ⟨pm₁, hadd, h₁⟩ | ⟨hadd, hnot⟩
      · rw [hadd]
        refine ih (fun r' hr' => hr r' (List.mem_cons_of_mem _ hr')) h₁ ?_
        rw [List.length_append, List.length_singleton]
        omega
      · rw [hadd]
        refine Or.inr ⟨rfl, fun hnodup => hnot ?_⟩
        rw [entries_fst]
        rw [List.flatMap_append] at hnodup
        exact (List.nodup_append.mp hnodup).1

/-- What the index that is found for a url says. -/
def Leads (pm : PerMethod ρ) (url : List Char) : Target ρ → Prop
  | .nowhere => pm.trie.find url = 0
  | .redirect => pm.trie.find url = redirectSlash ∧ redirectSlash < pm.rules.length
  | .rule r => redirectSlash < pm.trie.find url ∧ pm.rules[pm.trie.find url]? = some (some r)

theorem mem_entries {rs : List (BaseRule ρ)} {rule : Rule} (h : rule ∈ entries rs) :
    ∃ k r, rs[k]? = some r
      ∧ (rule = (ruleItems r.rule, 2 + k)
        ∨ r.hasTrailingSlash = true ∧ rule = (ruleItems r.rule.dropLast, redirectSlash)) := by
  obtain ⟨⟨r, i⟩, hmem, hrule⟩ := List.mem_flatMap.mp h
  obtain ⟨hle, hget⟩ := List.mem_zipIdx_iff_le_and_getElem?_sub.mp hmem
  refine ⟨i - 2, r, hget, ?_⟩
  rcases List.mem_cons.mp hrule with heq | hrule
  · have hi : 2 + (i - 2) = i := by omega
    rw [hi]
    exact Or.inl heq
  · split at hrule
    next htrailing => exact Or.inr ⟨htrailing, List.mem_singleton.mp hrule⟩
    next => cases hrule

theorem entry_mem {rs : List (BaseRule ρ)} {k : Nat} {r : BaseRule ρ} (h : rs[k]? = some r) :
    (ruleItems r.rule, 2 + k) ∈ entries rs
      ∧ (r.hasTrailingSlash = true → (ruleItems r.rule.dropLast, redirectSlash) ∈ entries rs) := by
  have hsub : 2 + k - 2 = k := by omega
  have hmem : (r, 2 + k) ∈ rs.zipIdx 2 := by
    rw [List.mem_zipIdx_iff_le_and_getElem?_sub]
    exact ⟨by omega, by rw [hsub]; exact h⟩
  refine ⟨List.mem_flatMap.mpr ⟨_, hmem, List.mem_cons_self⟩, fun htrailing => ?_⟩
  refine List.mem_flatMap.mpr ⟨_, hmem, ?_⟩
  simp [BaseRule.entries, htrailing]

theorem Target.of_nowhere {url : List Char} (hslash : ∀ r ∈ rs, r.lacksSlash url = false)
    (hfits : ∀ r ∈ rs, r.fits url = false) : Target.of rs url = .nowhere := by
  have hany : (rs.any fun r => r.lacksSlash url) = false := by simpa using hslash
  have hfind : (rs.find? fun r => r.fits url) = none := by simpa using hfits
  unfold Target.of
  rw [hany, hfind]
  rfl

/-- **The search by tree and table is the search by the list.** -/
theorem Built.leads (h : Built rs pm) (url : List Char) :
    Leads ⟨pm.rules, pm.trie.optimize⟩ url (Target.of rs url) := by
  have hne : ∀ rule ∈ entries rs, rule.2 ≠ 0 := by
    intro rule hrule
    obtain ⟨k, r, -, rfl | ⟨-, rfl⟩⟩ := mem_entries hrule
    · show 2 + k ≠ 0
      omega
    · exact Nat.one_ne_zero
  have hfind : pm.trie.optimize.find url = findRule url (entries rs) :=
    Node.find_optimize h.tree.plain h.tree.rules url
  -- no entry matches, or the one of the smallest index
  rcases findRule_cases url hne with ⟨hzero, hnone⟩ | ⟨rule, hmem, hmatch, heq, hmin⟩
  · have hof : Target.of rs url = .nowhere := by
      refine Target.of_nowhere ?_ ?_
      · intro r hr
        obtain ⟨k, hk⟩ := List.mem_iff_getElem?.mp hr
        cases htrailing : r.hasTrailingSlash with
        | false => simp [BaseRule.lacksSlash, htrailing]
        | true =>
            simp only [BaseRule.lacksSlash, htrailing, Bool.true_and]
            exact hnone _ ((entry_mem hk).2 htrailing)
      · intro r hr
        obtain ⟨k, hk⟩ := List.mem_iff_getElem?.mp hr
        exact hnone _ (entry_mem hk).1
    rw [hof]
    exact hfind.trans hzero
  · obtain ⟨k, r, hk, rfl | ⟨htrailing, rfl⟩⟩ := mem_entries hmem
    · -- no url without its slash matches: its index would be smaller
      have hany : (rs.any fun r => r.lacksSlash url) = false := by
        rw [List.any_eq_false]
        intro r' hr' hlacks
        obtain ⟨k', hk'⟩ := List.mem_iff_getElem?.mp hr'
        obtain ⟨htrailing, hmatch'⟩ := Bool.and_eq_true_iff.mp hlacks
        have : 2 + k ≤ redirectSlash := hmin _ ((entry_mem hk').2 htrailing) hmatch'
        unfold redirectSlash at this
        omega
      -- and no rule before it fits, for the same reason
      have hfirst : (rs.find? fun r => r.fits url) = some r := by
        obtain ⟨hlt, hget⟩ := List.getElem?_eq_some_iff.mp hk
        rw [List.find?_eq_some_iff_getElem]
        refine ⟨hmatch, k, hlt, hget, fun j hj => ?_⟩
        have hj' : rs[j]? = some rs[j] := List.getElem?_eq_getElem (by omega)
        cases hfits : rs[j].fits url with
        | false => rfl
        | true =>
            have : 2 + k ≤ 2 + j := hmin _ (entry_mem hj').1 hfits
            omega
      have hof : Target.of rs url = .rule r := by
        unfold Target.of
        rw [hany, hfirst]
        rfl
      rw [hof]
      show redirectSlash < pm.trie.optimize.find url ∧ pm.rules[_]? = _
      rw [hfind, heq, h.rules]
      refine ⟨by unfold redirectSlash; omega, ?_⟩
      rw [List.getElem?_append_right (by simp)]
      have hsub : 2 + k - [(none : Option (BaseRule ρ)), none].length = k := by simp
      rw [hsub, List.getElem?_map, hk]
      rfl
    -- an entry of index 1 is a url without its slash
    · have hlacks : r.lacksSlash url = true := by
        rw [BaseRule.lacksSlash, htrailing]
        exact hmatch
      have hof : Target.of rs url = .redirect := by
        have hany : (rs.any fun r => r.lacksSlash url) = true :=
          List.any_eq_true.mpr ⟨r, List.mem_of_getElem? hk, hlacks⟩
        unfold Target.of
        rw [hany]
        rfl
      rw [hof]
      refine ⟨hfind.trans heq, ?_⟩
      show redirectSlash < pm.rules.length
      rw [h.rules]
      simp [redirectSlash]

end Built

/-! ## §7. The router. -/

namespace Router

variable {ρ : Type} {all_rules : List (BaseRule ρ)} {router : Router ρ} {url : List Char}

/-- The rules of a server: each can be registered, and their number fits the
indices. -/
structure Registrable (all_rules : List (BaseRule ρ)) : Prop where
  rules : ∀ r ∈ all_rules, r.Registrable
  count : all_rules.length ≤ 65534

/-- The table and tree of one method, after all rules. -/
theorem Registrable.method (h : Registrable all_rules) (m : HTTPMethod) :
    (∃ pm, (rulesFor m all_rules).foldlM PerMethod.addRule .start = some pm
        ∧ Built (rulesFor m all_rules) pm)
      ∨ (rulesFor m all_rules).foldlM PerMethod.addRule .start = none
        ∧ ¬ ((rulesFor m all_rules).flatMap BaseRule.urls).Nodup := by
  have hlength : (rulesFor m all_rules).length ≤ all_rules.length := List.length_filter_le _ _
  have hcount : (rulesFor m all_rules).length ≤ 65534 := Nat.le_trans hlength h.count
  have hregistrable : ∀ r ∈ rulesFor m all_rules, r.Registrable :=
    fun r hr => h.rules r (List.mem_filter.mp hr).1
  exact Built.addRules hregistrable Built.start (by simpa using hcount)

theorem validateTrie_built {rs : List (BaseRule ρ)} {pm : PerMethod ρ} (h : Built rs pm) :
    validateTrie pm = some ⟨pm.rules, pm.trie.optimize⟩ := by
  unfold validateTrie
  rw [Node.validate_some h.tree.under h.tree.plain]
  rfl

/-- **Registration throws exactly when two urls of one method are the same.** -/
theorem validate_eq_none_iff (h : Registrable all_rules) :
    validate all_rules = none
      ↔ ∃ m, ¬ ((rulesFor m all_rules).flatMap BaseRule.urls).Nodup := by
  constructor
  · intro hnone
    by_contra hno
    have hnodup : ∀ m, ((rulesFor m all_rules).flatMap BaseRule.urls).Nodup := by
      intro m
      by_contra hm
      exact hno ⟨m, hm⟩
    have hbuilt : ∀ m, ∃ pm, ((rulesFor m all_rules).foldlM PerMethod.addRule .start).bind
        validateTrie = some pm := by
      intro m
      rcases h.method m with ⟨pm, hadd, hbuilt⟩ | ⟨-, hm⟩
      · exact ⟨_, by rw [hadd]; exact validateTrie_built hbuilt⟩
      · exact absurd (hnodup m) hm
    choose router hrouter using hbuilt
    rw [validate_iff.mpr hrouter] at hnone
    cases hnone
  · rintro ⟨m, hm⟩
    cases hvalidate : validate all_rules with
    | none => rfl
    | some router =>
        have hrouter := validate_iff.mp hvalidate m
        rcases h.method m with ⟨pm, hadd, hbuilt⟩ | ⟨hadd, -⟩
        · have hnodup := hbuilt.nodup
          rw [entries_fst] at hnodup
          exact absurd hnodup hm
        · rw [hadd] at hrouter
          cases hrouter

/-- A validated router leads where the lists do. -/
theorem leads (h : Registrable all_rules) (hrouter : validate all_rules = some router)
    (m : HTTPMethod) (url : List Char) :
    Leads (router m) url (Target.of (rulesFor m all_rules) url) := by
  have hm := validate_iff.mp hrouter m
  rcases h.method m with ⟨pm, hadd, hbuilt⟩ | ⟨hadd, -⟩
  · rw [hadd] at hm
    have heq : router m = ⟨pm.rules, pm.trie.optimize⟩ :=
      (Option.some.inj ((validateTrie_built hbuilt).symm.trans hm)).symm
    rw [heq]
    exact hbuilt.leads url
  · rw [hadd] at hm
    cases hm

/-- A method without rules has an empty tree, and no other has. -/
theorem isEmpty_children (h : Registrable all_rules) (hrouter : validate all_rules = some router)
    (m : HTTPMethod) : (router m).trie.children.isEmpty = (rulesFor m all_rules).isEmpty := by
  have hm := validate_iff.mp hrouter m
  rcases h.method m with ⟨pm, hadd, hbuilt⟩ | ⟨hadd, -⟩
  · rw [hadd] at hm
    have heq : router m = ⟨pm.rules, pm.trie.optimize⟩ :=
      (Option.some.inj ((validateTrie_built hbuilt).symm.trans hm)).symm
    rw [heq]
    cases hrs : rulesFor m all_rules with
    | nil =>
        rw [hrs] at hadd
        rw [← Option.some.inj hadd]
        rfl
    | cons r rs =>
        rw [hrs] at hbuilt
        have hrules := hbuilt.tree.rules
        have hindex := hbuilt.tree.under.rule_index
        obtain ⟨rules, ⟨i, k, p, children⟩⟩ := pm
        cases children with
        | nil =>
            have hzero : i = 0 := hindex
            subst hzero
            have hnil := List.Perm.eq_nil (hrules.symm : (entries (r :: rs)).Perm [])
            have hfst := congrArg (List.map Prod.fst) hnil
            rw [entries_fst] at hfst
            simp [BaseRule.urls] at hfst
        | cons child children => rfl
  · rw [hadd] at hm
    cases hm

/-- Handling what was found. -/
theorem handle_eq {m : HTTPMethod} {url : List Char} {t : Target ρ} {skip_body : Bool}
    (h : Leads (router m) url t) (ht : t.isNowhere = false) :
    handle router url ⟨(router m).trie.find url, m, skip_body⟩ = t.answer url skip_body := by
  cases t with
  | nowhere => cases ht
  | redirect =>
      obtain ⟨hfind, hlt⟩ := h
      unfold handle
      rw [hfind, if_neg (Nat.not_le.mpr hlt), if_pos rfl]
      rfl
  | rule r =>
      obtain ⟨hlt, hget⟩ := h
      have hbound := (List.getElem?_eq_some_iff.mp hget).1
      unfold handle
      rw [if_neg (Nat.not_le.mpr hbound), if_neg (Nat.ne_of_gt hlt), hget]
      rfl

theorem find_ne_zero {m : HTTPMethod} {url : List Char} {t : Target ρ}
    (h : Leads (router m) url t) : (router m).trie.find url ≠ 0 ↔ t.isNowhere = false := by
  cases t with
  | nowhere =>
      have hfind : (router m).trie.find url = 0 := h
      simp [hfind, Target.isNowhere]
  | redirect =>
      have hfind : (router m).trie.find url = redirectSlash := h.1
      simp [hfind, redirectSlash, Target.isNowhere]
  | rule r =>
      have hlt : redirectSlash < (router m).trie.find url := h.1
      simp [Target.isNowhere, Nat.ne_of_gt (Nat.lt_of_le_of_lt (Nat.zero_le _) hlt)]

/-- The methods that are neither HEAD nor OPTIONS. -/
theorem handleFull_other (hleads : ∀ m, Leads (router m) url (Target.of (rulesFor m all_rules) url))
    (hmatched : ∀ m, decide ((router m).trie.find url ≠ 0)
      = !(Target.of (rulesFor m all_rules) url).isNowhere)
    {m : HTTPMethod} (hhead : m ≠ .Head) (hoptions : m ≠ .Options) :
    handleFull router m url = route all_rules m url := by
  have hroute : route all_rules m url
      = if (Target.of (rulesFor m all_rules) url).isNowhere
          && HTTPMethod.all.any fun m => !(Target.of (rulesFor m all_rules) url).isNowhere then
        .respond 405 [] false
      else (Target.of (rulesFor m all_rules) url).answer url false := by
    cases m <;> first | rfl | exact absurd rfl hhead | exact absurd rfl hoptions
  have hinitial : handleInitial router m url
      = if (router m).trie.find url ≠ 0 then .inr ⟨(router m).trie.find url, m, false⟩
      else if HTTPMethod.all.any fun m => (router m).trie.find url ≠ 0 then
        .inl (.respond 405 [] false)
      else .inl (.respond 404 [] false) := by
    cases m <;> first | rfl | exact absurd rfl hhead | exact absurd rfl hoptions
  have hne := find_ne_zero (hleads m)
  unfold handleFull
  rw [hroute, hinitial]
  simp only [hmatched]
  cases ht : (Target.of (rulesFor m all_rules) url).isNowhere with
  | false =>
      rw [if_pos (hne.mpr ht)]
      exact handle_eq (hleads m) ht
  | true =>
      rw [if_neg fun hn => Bool.false_ne_true ((hne.mp hn).symm.trans ht), Target.eq_nowhere ht,
        Bool.true_and]
      cases HTTPMethod.all.any fun m => !(Target.of (rulesFor m all_rules) url).isNowhere <;> rfl

theorem handleFull_head (hleads : ∀ m, Leads (router m) url (Target.of (rulesFor m all_rules) url)) :
    handleFull router .Head url = route all_rules .Head url := by
  have hown := find_ne_zero (hleads .Head)
  have hget := find_ne_zero (hleads .Get)
  simp only [handleFull, handleInitial, route]
  cases ht : (Target.of (rulesFor .Head all_rules) url).isNowhere with
  | false =>
      rw [if_pos (hown.mpr ht)]
      exact handle_eq (hleads .Head) ht
  | true =>
      rw [if_neg fun hn => Bool.false_ne_true ((hown.mp hn).symm.trans ht), if_pos rfl]
      cases htg : (Target.of (rulesFor .Get all_rules) url).isNowhere with
      | false =>
          rw [if_pos (hget.mpr htg)]
          exact handle_eq (hleads .Get) htg
      | true =>
          rw [if_neg fun hn => Bool.false_ne_true ((hget.mp hn).symm.trans htg),
            Target.eq_nowhere htg]
          rfl

/-- **Every request is answered as the list of the rules says.** -/
theorem handleFull_eq (h : Registrable all_rules) (hrouter : validate all_rules = some router)
    (method : HTTPMethod) (url : List Char) :
    handleFull router method url = route all_rules method url := by
  have hleads := fun m => leads h hrouter m url
  have hmatched : ∀ m, decide ((router m).trie.find url ≠ 0)
      = !(Target.of (rulesFor m all_rules) url).isNowhere := by
    intro m
    rw [Bool.eq_iff_iff, decide_eq_true_iff, find_ne_zero (hleads m)]
    simp
  by_cases hhead : method = .Head
  · subst hhead
    exact handleFull_head hleads
  · by_cases hoptions : method = .Options
    · subst hoptions
      simp only [handleFull, handleInitial, route, hmatched, isEmpty_children h hrouter]
      by_cases hstar : url = ['/', '*']
      · rw [if_pos hstar, if_pos hstar]
      · rw [if_neg hstar, if_neg hstar]
        by_cases hsome : (HTTPMethod.all.filter
            fun m => !(Target.of (rulesFor m all_rules) url).isNowhere) ≠ []
        · rw [if_pos hsome, if_pos hsome]
        · rw [if_neg hsome, if_neg hsome]
    · exact handleFull_other hleads hmatched hhead hoptions

/-- **The router is the list of its rules.**  It can be set up exactly if no
method has a url twice, where a rule that ends in a slash also takes the url
without it; and then every request is answered as the list says. -/
theorem router_faithful (h : Registrable all_rules) :
    ((∃ router, validate all_rules = some router)
        ↔ ∀ m, ((rulesFor m all_rules).flatMap BaseRule.urls).Nodup)
      ∧ ∀ router, validate all_rules = some router → ∀ method url,
        handleFull router method url = route all_rules method url := by
  refine ⟨?_, fun router hrouter method url => handleFull_eq h hrouter method url⟩
  rw [← Option.isSome_iff_exists, Option.isSome_iff_ne_none, Ne, validate_eq_none_iff h, not_exists]
  exact forall_congr' fun m => not_not

/-- Two rules of GET that differ in the slash at the end. -/
def slashTwice : List (BaseRule Unit) :=
  [⟨['/', 'a', '/'], HTTPMethod.Get.bit, ()⟩, ⟨['/', 'a'], HTTPMethod.Get.bit, ()⟩]

theorem slashTwice_registrable : Registrable slashTwice where
  rules r hr := by
    simp only [slashTwice, List.mem_cons, List.not_mem_nil, or_false] at hr
    rcases hr with rfl | rfl <;> exact ⟨by decide, by decide⟩
  count := by decide

/-- The second registration throws. -/
theorem router_faithful_slashTwice : ¬ ∃ router, validate slashTwice = some router := by
  intro hrouter
  have hget := (router_faithful slashTwice_registrable).1.mp hrouter .Get
  revert hget
  decide

end Router

end ApiSyncer.Crow
