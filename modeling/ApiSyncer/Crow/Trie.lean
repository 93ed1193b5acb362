/-
  ApiSyncer.Crow.Trie
  ───────────────────
  **CROW'S SEARCH TREE OF URLS.**

  `add` enters a url character by character, `optimize` joins the chains of
  nodes that branch nowhere, and `find` follows every child that fits and keeps
  the smallest index.  All three are compared with the plain list of the rules
  that are entered in the tree: joining leaves the list as it is, and searching
  the tree finds what searching the list finds.

      find_eq          the search is that of the list
      rules_optimize   joining keeps the list
      add_some         entering a url puts one more rule into the list
      add_eq_none_iff  a url that is in the trie is refused
      validate_some    the head of a tree of urls that begin alike is simple
-/
import Mathlib.Data.List.Basic
import Mathlib.Data.List.Nodup
import Mathlib.Data.List.Perm.Basic

namespace ApiSyncer.Crow

/-! ## §1. The tree. -/

/-- One piece of the url of a rule: a character, or `<path>`. -/
inductive RuleItem where
  | char (c : Char)
  | path
  deriving DecidableEq, Repr

/-- The url of a rule, piece by piece. -/
def ruleItems : List Char → List RuleItem
  | '<' :: 'p' :: 'a' :: 't' :: 'h' :: '>' :: url => .path :: ruleItems url
  | c :: url => .char c :: ruleItems url
  | [] => []

/-- The character behind the last one of a `std::string`. -/
def nul : Char := Char.ofNat 0

/-- A `Trie::Node`; no index is 0, and `param` says that it stands for `<path>`. -/
inductive Node where
  | node (rule_index : Nat) (key : List Char) (param : Bool) (children : List Node)

namespace Node

def rule_index : Node → Nat
  | node r _ _ _ => r

def key : Node → List Char
  | node _ k _ _ => k

def param : Node → Bool
  | node _ _ p _ => p

def children : Node → List Node
  | node _ _ _ cs => cs

/-- `update_found` of `find`. -/
def updateFound (found ret : Nat) : Nat :=
  if ret ≠ 0 ∧ (found = 0 ∨ found > ret) then ret else found

mutual
/-- `find`, from the node on; the url is what is left of it. -/
def find (url : List Char) : Node → Nat
  | node rule_index _ _ children =>
      if url = [] then rule_index else findChildren url 0 children
def findChildren (url : List Char) (found : Nat) : List Node → Nat
  | [] => found
  | child :: children =>
      let ret :=
        -- `<path>` takes the rest of the url
        if child.param then child.find []
        else if url.take child.key.length = child.key then child.find (url.drop child.key.length)
        else 0
      findChildren url (updateFound found ret) children
end

/-- `bool IsSimpleNode() const`. -/
def isSimpleNode (rule_index : Nat) (param : Bool) (children : List Node) : Bool :=
  rule_index = 0 && children.length < 2 && !param && children.all fun x => !x.param

mutual
/-- `void optimizeNode(Node& node)`, of a node that has got the key: a simple
node takes the index and the children of its child over. -/
def optimizeFrom (key : List Char) (param : Bool) : Node → Node
  | node rule_index _ _ [] => node rule_index key param []
  | node rule_index _ _ (child :: children) =>
      if isSimpleNode rule_index param (child :: children) then
        optimizeFrom (key ++ child.key) param child
      else node rule_index key param (optimizeChildren (child :: children))
def optimizeChildren : List Node → List Node
  | [] => []
  | child :: children =>
      optimizeFrom child.key child.param child :: optimizeChildren children
end

/-- `void optimize()`, of the head. -/
def optimize : Node → Node
  | node rule_index key param children => node rule_index key param (optimizeChildren children)

/-- `void validate()`; it throws unless the head is simple. -/
def validate (head : Node) : Option Node :=
  if isSimpleNode head.rule_index head.param head.children then some head.optimize else none

/-- The head of a new tree. -/
def head : Node := node 0 [] false []

/-- A new node for one piece. -/
def fresh : RuleItem → Node
  | .char c => node 0 [c] false []
  | .path => node 0 [] true []

/-- The child `add` goes on with. -/
def starts (item : RuleItem) (child : Node) : Bool :=
  match item with
  -- the key of a `<path>` node is empty, and its character 0 is NUL
  | .char c => child.key.headD nul = c
  | .path => child.param

/-- The first child for the piece, or a new one behind the others. -/
def addChild (item : RuleItem) (add : Node → Option Node) : List Node → Option (List Node)
  | [] => (add (fresh item)).map fun child => [child]
  | child :: children =>
      if child.starts item then (add child).map fun child => child :: children
      else (addChild item add children).map fun children => child :: children

/-- `void add(const std::string& url, uint16_t rule_index)`; it throws for a url
that has an index. -/
def add : List RuleItem → Nat → Node → Option Node
  | [], i, node r k p children => if r = 0 then some (node i k p children) else none
  | item :: url, i, node r k p children =>
      (addChild item (add url i) children).map fun children => node r k p children

end Node

/-! ## §2. The rules of a tree. -/

/-- A url, and the index of its rule. -/
abbrev Rule := List RuleItem × Nat

namespace Node

/-- What the key of a node stands for. -/
def labelOf (key : List Char) (param : Bool) : List RuleItem :=
  if param then [.path] else key.map .char

def label (n : Node) : List RuleItem := labelOf n.key n.param

/-- The rules behind a label. -/
def behind (label : List RuleItem) (rules : List Rule) : List Rule :=
  rules.map fun rule => (label ++ rule.1, rule.2)

mutual
/-- The rules entered at a node and under it. -/
def rules : Node → List Rule
  | node rule_index _ _ children =>
      (if rule_index = 0 then [] else [([], rule_index)]) ++ rulesOf children
def rulesOf : List Node → List Rule
  | [] => []
  | child :: children => behind child.label child.rules ++ rulesOf children
end

end Node

/-- The url of a rule matches: character by character, and `<path>` is all of a
rest that is not empty. -/
def matchesUrl : List RuleItem → List Char → Bool
  | [], url => url.isEmpty
  | .char _ :: _, [] => false
  | .char c :: items, d :: url => c = d && matchesUrl items url
  | .path :: items, url => !url.isEmpty && items.isEmpty

/-- The smallest index of a list, or 0. -/
def best (indices : List Nat) : Nat := indices.foldl Node.updateFound 0

/-- Search without a tree: the smallest index of a rule whose url matches. -/
def findRule (url : List Char) (rules : List Rule) : Nat :=
  best ((rules.filter fun rule => matchesUrl rule.1 url).map Prod.snd)

/-! ## §3. The smallest index. -/

section Best

open Node

theorem updateFound_zero (a : Nat) : updateFound a 0 = a := by
  simp [updateFound]

theorem zero_updateFound (a : Nat) : updateFound 0 a = a := by
  by_cases h : a = 0
  · simp [updateFound, h]
  · simp [updateFound, h]

theorem updateFound_assoc (a b c : Nat) :
    updateFound (updateFound a b) c = updateFound a (updateFound b c) := by
  unfold updateFound
  split_ifs <;> omega

theorem foldl_updateFound (a : Nat) (l : List Nat) :
    l.foldl updateFound a = updateFound a (best l) := by
  unfold best
  induction l generalizing a with
  | nil => exact (updateFound_zero a).symm
  | cons b l ih =>
      rw [List.foldl_cons, List.foldl_cons, ih, ih (updateFound 0 b), zero_updateFound,
        updateFound_assoc]

theorem best_cons (a : Nat) (l : List Nat) : best (a :: l) = updateFound a (best l) := by
  rw [best, List.foldl_cons, foldl_updateFound, zero_updateFound]

theorem best_append (l m : List Nat) : best (l ++ m) = updateFound (best l) (best m) := by
  rw [best, List.foldl_append, foldl_updateFound]
  rfl

/-- The order of the rules does not matter. -/
theorem best_perm {l m : List Nat} (h : l.Perm m) : best l = best m := by
  have hcomm : ∀ a b, updateFound a b = updateFound b a := by
    intro a b
    unfold updateFound
    split_ifs <;> omega
  induction h with
  | nil => rfl
  | @cons a l m _ ih => rw [best_cons, best_cons, ih]
  | swap a b l =>
      rw [best_cons, best_cons, best_cons, best_cons, ← updateFound_assoc, hcomm b a,
        updateFound_assoc]
  | trans _ _ ih₁ ih₂ => exact ih₁.trans ih₂

/-- What is found is in the list. -/
theorem best_mem {l : List Nat} (h : best l ≠ 0) : best l ∈ l := by
  induction l with
  | nil => exact absurd rfl h
  | cons a l ih =>
      rw [best_cons] at h ⊢
      unfold updateFound at h ⊢
      split
      next hcond => exact List.mem_cons_of_mem _ (ih hcond.1)
      next => exact List.mem_cons_self

/-- Nothing in the list is smaller. -/
theorem best_le {l : List Nat} {a : Nat} (hmem : a ∈ l) (ha : a ≠ 0) :
    best l ≠ 0 ∧ best l ≤ a := by
  induction l with
  | nil => cases hmem
  | cons b l ih =>
      rw [best_cons]
      unfold updateFound
      rcases List.mem_cons.mp hmem with rfl | hmem
      · split <;> omega
      · have := ih hmem
        split <;> omega

theorem findRule_perm {url : List Char} {l m : List Rule} (h : l.Perm m) :
    findRule url l = findRule url m :=
  best_perm ((h.filter _).map _)

theorem findRule_append {url : List Char} (l m : List Rule) :
    findRule url (l ++ m) = updateFound (findRule url l) (findRule url m) := by
  unfold findRule
  rw [List.filter_append, List.map_append, best_append]

/-- **What is found**: no rule matches, or the index is that of a matching rule
and the smallest. -/
theorem findRule_cases (url : List Char) {l : List Rule} (hl : ∀ rule ∈ l, rule.2 ≠ 0) :
    (findRule url l = 0 ∧ ∀ rule ∈ l, matchesUrl rule.1 url = false)
      ∨ ∃ rule ∈ l, matchesUrl rule.1 url = true ∧ findRule url l = rule.2
        ∧ ∀ other ∈ l, matchesUrl other.1 url = true → rule.2 ≤ other.2 := by
  have hle : ∀ other ∈ l, matchesUrl other.1 url = true →
      findRule url l ≠ 0 ∧ findRule url l ≤ other.2 := by
    intro other hother hmatch
    exact best_le (List.mem_map.mpr ⟨other, List.mem_filter.mpr ⟨hother, hmatch⟩, rfl⟩)
      (hl other hother)
  by_cases hzero : findRule url l = 0
  · refine Or.inl ⟨hzero, fun rule hrule => ?_⟩
    cases hmatch : matchesUrl rule.1 url with
    | false => rfl
    | true => exact absurd hzero (hle rule hrule hmatch).1
  · obtain ⟨rule, hrule, heq⟩ := List.mem_map.mp (best_mem hzero)
    obtain ⟨hmem, hmatch⟩ := List.mem_filter.mp hrule
    refine Or.inr ⟨rule, hmem, hmatch, heq.symm, fun other hother hmatch' => ?_⟩
    have := (hle other hother hmatch').2
    unfold findRule at this
    omega

/-- Nothing is found among rules that do not match. -/
theorem findRule_eq_zero {url : List Char} {l : List Rule}
    (h : ∀ rule ∈ l, matchesUrl rule.1 url = false) : findRule url l = 0 := by
  have hnil : l.filter (fun rule => matchesUrl rule.1 url) = [] := by
    rw [List.filter_eq_nil_iff]
    intro rule hrule
    rw [h rule hrule]
    exact Bool.false_ne_true
  unfold findRule
  rw [hnil]
  rfl

end Best

/-! ## §4. Searching the tree. -/

namespace Node

mutual
/-- No child has an empty key, unless it stands for `<path>`. -/
def Labelled : Node → Prop
  | node _ _ _ children => LabelledAll children
def LabelledAll : List Node → Prop
  | [] => True
  | child :: children => child.label ≠ [] ∧ child.Labelled ∧ LabelledAll children
end

theorem matchesUrl_path (items : List RuleItem) {url : List Char} (hurl : url ≠ []) :
    matchesUrl (.path :: items) url = matchesUrl items [] := by
  have hempty : url.isEmpty = false := by simpa using hurl
  cases items with
  | nil => simp [matchesUrl, hempty]
  | cons item items => cases item <;> simp [matchesUrl]

theorem matchesUrl_key (key : List Char) (items : List RuleItem) (url : List Char) :
    matchesUrl (key.map .char ++ items) url
      = (decide (url.take key.length = key) && matchesUrl items (url.drop key.length)) := by
  induction key generalizing url with
  | nil => simp
  | cons c key ih =>
      cases url with
      | nil => simp [matchesUrl]
      | cons d url =>
          show (decide (c = d) && matchesUrl (key.map .char ++ items) url) = _
          rw [ih]
          simp [Bool.and_assoc, eq_comm]

/-- A child that fits is searched with the rest of the url. -/
theorem findRule_behind {child : Node} {url : List Char} (hurl : url ≠ []) :
    findRule url (behind child.label child.rules)
      = if child.param then findRule [] child.rules
        else if url.take child.key.length = child.key then
          findRule (url.drop child.key.length) child.rules
        else 0 := by
  unfold findRule behind
  rw [List.filter_map, List.map_map]
  have hsnd : (Prod.snd ∘ fun rule : Rule => (child.label ++ rule.1, rule.2)) = Prod.snd := rfl
  rw [hsnd]
  split
  next hparam =>
      have hlabel : child.label = [.path] := by simp [label, labelOf, hparam]
      have hfilter : ((fun rule : Rule => matchesUrl rule.1 url)
          ∘ fun rule : Rule => (child.label ++ rule.1, rule.2))
          = fun rule : Rule => matchesUrl rule.1 [] := by
        funext rule
        show matchesUrl (child.label ++ rule.1) url = _
        rw [hlabel]
        exact matchesUrl_path rule.1 hurl
      rw [hfilter]
  next hparam =>
      have hlabel : child.label = child.key.map .char := by simp [label, labelOf, hparam]
      have hfilter : ((fun rule : Rule => matchesUrl rule.1 url)
          ∘ fun rule : Rule => (child.label ++ rule.1, rule.2))
          = fun rule : Rule => (decide (url.take child.key.length = child.key)
            && matchesUrl rule.1 (url.drop child.key.length)) := by
        funext rule
        show matchesUrl (child.label ++ rule.1) url = _
        rw [hlabel]
        exact matchesUrl_key child.key rule.1 url
      rw [hfilter]
      split
      next htake => simp [htake]
      next htake => simp [htake, best]

/-- Behind a label nothing matches the empty url. -/
theorem findRule_nil_behind {label : List RuleItem} (h : label ≠ []) (rules : List Rule) :
    findRule [] (behind label rules) = 0 := by
  refine findRule_eq_zero fun rule hrule => ?_
  obtain ⟨rule', -, rfl⟩ := List.mem_map.mp hrule
  cases label with
  | nil => exact absurd rfl h
  | cons item label => cases item <;> simp [matchesUrl]

theorem findRule_nil_rulesOf {children : List Node} (h : LabelledAll children) :
    findRule [] (rulesOf children) = 0 := by
  induction children with
  | nil => rfl
  | cons child children ih =>
      obtain ⟨hlabel, -, hrest⟩ := h
      rw [rulesOf, findRule_append, findRule_nil_behind hlabel, ih hrest]
      rfl

mutual
/-- **Searching the tree finds what searching the list of its rules finds.** -/
theorem find_eq : ∀ (n : Node) (url : List Char), n.Labelled → n.find url = findRule url n.rules
  | node rule_index key param children, url, h => by
      rw [find, rules, findRule_append]
      split
      next hurl =>
          subst hurl
          rw [findRule_nil_rulesOf h, updateFound_zero]
          split
          next hzero =>
              rw [hzero]
              rfl
          next hzero => exact (zero_updateFound rule_index).symm
      next hurl =>
          have hown : findRule url (if rule_index = 0 then [] else [([], rule_index)]) = 0 := by
            refine findRule_eq_zero fun rule hrule => ?_
            split at hrule
            · cases hrule
            · obtain rfl := List.mem_singleton.mp hrule
              simpa [matchesUrl] using hurl
          rw [hown, findChildren_eq children url 0 hurl h]
theorem findChildren_eq : ∀ (children : List Node) (url : List Char) (found : Nat), url ≠ [] →
    LabelledAll children →
      findChildren url found children = updateFound found (findRule url (rulesOf children))
  | [], url, found, _, _ => (updateFound_zero found).symm
  | child :: children, url, found, hurl, h => by
      obtain ⟨-, hchild, hrest⟩ := h
      rw [findChildren, rulesOf, findRule_append, findRule_behind hurl,
        findChildren_eq children url _ hurl hrest, updateFound_assoc]
      simp only [find_eq child _ hchild]
end

end Node

/-! ## §5. Joining nodes. -/

namespace Node

theorem behind_behind (l m : List RuleItem) (a : List Rule) :
    behind l (behind m a) = behind (l ++ m) a := by
  simp [behind, Function.comp_def]

/-- A simple node has no index and at most one child, and neither stands for
`<path>`. -/
theorem isSimpleNode_iff {rule_index : Nat} {param : Bool} {child : Node} {children : List Node} :
    isSimpleNode rule_index param (child :: children) = true
      ↔ rule_index = 0 ∧ children = [] ∧ param = false ∧ child.param = false := by
  have hlength : children.length = 0 ↔ children = [] := List.length_eq_zero_iff
  constructor
  · intro h
    simp only [isSimpleNode, List.length_cons, Bool.and_eq_true, decide_eq_true_eq,
      Bool.not_eq_true', List.all_cons] at h
    obtain ⟨⟨⟨hindex, hshort⟩, hparam⟩, hchild, -⟩ := h
    exact ⟨hindex, hlength.mp (by omega), hparam, hchild⟩
  · rintro ⟨rfl, rfl, rfl, hchild⟩
    simp [isSimpleNode, hchild]

theorem labelOf_append (key key' : List Char) :
    labelOf (key ++ key') false = labelOf key false ++ labelOf key' false := by
  simp [labelOf]

mutual
/-- **Joining keeps the rules**, in their order. -/
theorem rules_optimizeFrom : ∀ (n : Node) (key : List Char) (param : Bool),
    behind (optimizeFrom key param n).label (optimizeFrom key param n).rules
      = behind (labelOf key param) n.rules
  | node rule_index k p [], key, param => by
      rw [optimizeFrom]
      rfl
  | node rule_index k p (child :: children), key, param => by
      rw [optimizeFrom]
      split
      next hsimple =>
          obtain ⟨rfl, rfl, rfl, hchild⟩ := isSimpleNode_iff.mp hsimple
          rw [rules_optimizeFrom child, labelOf_append, ← behind_behind]
          simp [rules, rulesOf, label, hchild]
      next =>
          show behind (labelOf key param) (rules _) = _
          rw [rules, rules, rulesOf_optimizeChildren (child :: children)]
theorem rulesOf_optimizeChildren : ∀ children : List Node,
    rulesOf (optimizeChildren children) = rulesOf children
  | [] => rfl
  | child :: children => by
      rw [optimizeChildren, rulesOf, rulesOf, rules_optimizeFrom child,
        rulesOf_optimizeChildren children]
      rfl
end

theorem rules_optimize (n : Node) : n.optimize.rules = n.rules := by
  obtain ⟨rule_index, key, param, children⟩ := n
  rw [optimize, rules, rules, rulesOf_optimizeChildren]

mutual
/-- No label gets empty. -/
theorem labelled_optimizeFrom : ∀ (n : Node) (key : List Char) (param : Bool),
    labelOf key param ≠ [] → n.Labelled →
      (optimizeFrom key param n).label ≠ [] ∧ (optimizeFrom key param n).Labelled
  | node rule_index k p [], key, param, hlabel, _ => by
      rw [optimizeFrom]
      exact ⟨hlabel, trivial⟩
  | node rule_index k p (child :: children), key, param, hlabel, h => by
      obtain ⟨-, hchild, -⟩ := id h
      rw [optimizeFrom]
      split
      next hsimple =>
          obtain ⟨-, -, rfl, -⟩ := isSimpleNode_iff.mp hsimple
          refine labelled_optimizeFrom child _ _ ?_ hchild
          rw [labelOf_append]
          exact List.append_ne_nil_of_left_ne_nil hlabel _
      next => exact ⟨hlabel, labelled_optimizeChildren (child :: children) h⟩
theorem labelled_optimizeChildren : ∀ children : List Node, LabelledAll children →
    LabelledAll (optimizeChildren children)
  | [], _ => trivial
  | child :: children, h => by
      obtain ⟨hlabel, hchild, hrest⟩ := h
      obtain ⟨hlabel', hchild'⟩ := labelled_optimizeFrom child child.key child.param hlabel hchild
      exact ⟨hlabel', hchild', labelled_optimizeChildren children hrest⟩
end

theorem labelled_optimize {n : Node} (h : n.Labelled) : n.optimize.Labelled := by
  obtain ⟨rule_index, key, param, children⟩ := n
  exact labelled_optimizeChildren children h

/-! ## §6. Entering a url. -/

/-- A child for one piece, as `add` makes it. -/
def For (item : RuleItem) (child : Node) : Prop :=
  child.key = (fresh item).key ∧ child.param = (fresh item).param ∧ item ≠ .char nul

mutual
/-- Every node is for one piece, and the children of a node are for different
ones. -/
def Plain : Node → Prop
  | node _ _ _ children => PlainAll children
def PlainAll : List Node → Prop
  | [] => True
  | child :: children =>
      (∃ item, child.For item) ∧ child.Plain ∧ (∀ other ∈ children, other.label ≠ child.label)
        ∧ PlainAll children
end

theorem label_of_for {item : RuleItem} {child : Node} (h : child.For item) :
    child.label = [item] := by
  obtain ⟨hkey, hparam, -⟩ := h
  unfold label
  rw [hkey, hparam]
  cases item <;> rfl

/-- The search for a child goes by its piece. -/
theorem starts_iff {item other : RuleItem} {child : Node} (h : child.For other)
    (hitem : item ≠ .char nul) : child.starts item = true ↔ child.label = [item] := by
  obtain ⟨hkey, hparam, hother⟩ := id h
  rw [label_of_for h]
  unfold starts
  cases item with
  | char c =>
      have hc : nul ≠ c := fun heq => hitem (heq ▸ rfl)
      simp only [hkey]
      cases other with
      | char d => simp [fresh, key]
      | path => simp [fresh, key, hc]
  | path =>
      simp only [hparam]
      cases other with
      | char d => simp [fresh, param]
      | path => simp [fresh, param]

mutual
theorem labelled_of_plain : ∀ n : Node, n.Plain → n.Labelled
  | node _ _ _ children, h => labelledAll_of_plain children h
theorem labelledAll_of_plain : ∀ children : List Node, PlainAll children → LabelledAll children
  | [], _ => trivial
  | child :: children, h => by
      obtain ⟨⟨item, hfor⟩, hchild, -, hrest⟩ := h
      refine ⟨?_, labelled_of_plain child hchild, labelledAll_of_plain children hrest⟩
      rw [label_of_for hfor]
      exact List.cons_ne_nil item []
end

/-- What entering a url behind a node comes to. -/
structure Entered (url : List RuleItem) (i : Nat) (n n' : Node) : Prop where
  key : n'.key = n.key
  param : n'.param = n.param
  plain : n'.Plain
  rules : n'.rules.Perm ((url, i) :: n.rules)

/-- What entering a url among the children of a node comes to. -/
structure EnteredAll (url : List RuleItem) (i : Nat) (item : RuleItem)
    (children children' : List Node) : Prop where
  labels : ∀ child' ∈ children',
    child'.label = [item] ∨ ∃ child ∈ children, child'.label = child.label
  plain : PlainAll children'
  rules : (rulesOf children').Perm ((item :: url, i) :: rulesOf children)

theorem plain_fresh (item : RuleItem) : (fresh item).Plain := by
  cases item <;> exact trivial

theorem rules_fresh (item : RuleItem) : (fresh item).rules = [] := by
  cases item <;> rfl

section Adding

variable {url : List RuleItem} {item : RuleItem} {i : Nat} {enter : Node → Option Node}

/-- Behind a label the new url is longer by the label. -/
theorem Entered.behind {n n' : Node} {label : List RuleItem} (h : Entered url i n n') :
    (behind label n'.rules).Perm ((label ++ url, i) :: Node.behind label n.rules) :=
  h.rules.map _

theorem Entered.label {n n' : Node} (h : Entered url i n n') : n'.label = n.label := by
  unfold Node.label
  rw [h.key, h.param]

/-- One piece further down. -/
theorem addChild_some (hitem : item ≠ .char nul)
    (henter : ∀ n n', n.Plain → enter n = some n' → Entered url i n n') :
    ∀ {children children' : List Node}, PlainAll children →
      addChild item enter children = some children' →
        EnteredAll url i item children children'
  | [], children', _, h => by
      -- no child starts so: a new one is entered
      obtain ⟨child, hchild, rfl⟩ := Option.map_eq_some_iff.mp h
      have hentered := henter _ _ (plain_fresh item) hchild
      have hfor : child.For item := ⟨hentered.key, hentered.param, hitem⟩
      have hlabel := label_of_for hfor
      refine ⟨?_, ⟨⟨item, hfor⟩, hentered.plain, ?_, trivial⟩, ?_⟩
      · intro child' hchild'
        obtain rfl := List.mem_singleton.mp hchild'
        exact Or.inl hlabel
      · intro other hother
        cases hother
      · have hbehind := @Entered.behind _ _ _ _ child.label hentered
        rw [rules_fresh, hlabel] at hbehind
        show (Node.behind child.label child.rules ++ rulesOf []).Perm _
        rw [hlabel]
        exact hbehind.append_right (rulesOf [])
  | child :: children, children', hplain, h => by
      obtain ⟨⟨other, hfor⟩, hchild, hdistinct, hrest⟩ := hplain
      rw [addChild] at h
      split at h
      next hstarts =>
          obtain ⟨child', hchild', rfl⟩ := Option.map_eq_some_iff.mp h
          -- the piece is the child's: the others stay as they are
          have hentered := henter _ _ hchild hchild'
          have hlabel := (starts_iff hfor hitem).mp hstarts
          have hsame := hentered.label
          refine ⟨?_, ⟨⟨other, ?_⟩, hentered.plain, ?_, hrest⟩, ?_⟩
          · intro c hc
            rcases List.mem_cons.mp hc with rfl | hc
            · exact Or.inl (hsame.trans hlabel)
            · exact Or.inr ⟨c, List.mem_cons_of_mem _ hc, rfl⟩
          · exact ⟨hentered.key.trans hfor.1, hentered.param.trans hfor.2.1, hfor.2.2⟩
          · rw [hsame]
            exact hdistinct
          · have hbehind := @Entered.behind _ _ _ _ child.label hentered
            rw [rulesOf, rulesOf, hsame]
            rw [hlabel] at hbehind ⊢
            exact hbehind.append_right _
      next hstarts =>
          obtain ⟨rest', hrest', rfl⟩ := Option.map_eq_some_iff.mp h
          -- the piece is some other child's, or a new one's
          have hentered := addChild_some hitem henter hrest hrest'
          have hother : child.label ≠ [item] := fun heq => hstarts ((starts_iff hfor hitem).mpr heq)
          refine ⟨?_, ⟨⟨other, hfor⟩, hchild, ?_, hentered.plain⟩, ?_⟩
          · intro c hc
            rcases List.mem_cons.mp hc with rfl | hc
            · exact Or.inr ⟨c, List.mem_cons_self, rfl⟩
            · rcases hentered.labels c hc with heq | ⟨c', hc', heq⟩
              · exact Or.inl heq
              · exact Or.inr ⟨c', List.mem_cons_of_mem _ hc', heq⟩
          · intro c hc
            rcases hentered.labels c hc with heq | ⟨c', hc', heq⟩
            · rw [heq]
              exact fun h => hother h.symm
            · rw [heq]
              exact hdistinct c' hc'
          · rw [rulesOf, rulesOf]
            exact (hentered.rules.append_left _).trans List.perm_middle

/-- **Entering a url adds its rule to the list.** -/
theorem add_some : ∀ {url : List RuleItem} {n n' : Node}, .char nul ∉ url → i ≠ 0 → n.Plain →
    add url i n = some n' → Entered url i n n'
  | [], node r k p children, n', _, hi, hplain, h => by
      rw [add] at h
      split at h
      next hr =>
          obtain rfl := Option.some.inj h
          refine ⟨rfl, rfl, hplain, ?_⟩
          rw [rules, rules, if_neg hi, if_pos hr]
          exact List.Perm.refl _
      next => cases h
  | item :: url, node r k p children, n', hnul, hi, hplain, h => by
      obtain ⟨children', hchildren', rfl⟩ := Option.map_eq_some_iff.mp h
      have hurl : .char nul ∉ url := fun hmem => hnul (List.mem_cons_of_mem _ hmem)
      have hitem : item ≠ .char nul := fun heq => hnul (heq ▸ List.mem_cons_self)
      have hentered := addChild_some hitem (fun _ _ => add_some hurl hi) hplain hchildren'
      refine ⟨rfl, rfl, hentered.plain, ?_⟩
      rw [rules, rules]
      exact (hentered.rules.append_left _).trans List.perm_middle

theorem mem_behind_cons {child : Node} (hlabel : child.label = [item]) :
    item :: url ∈ (behind child.label child.rules).map Prod.fst
      ↔ url ∈ child.rules.map Prod.fst := by
  rw [hlabel]
  simp [Node.behind]

/-- Behind other labels the url is not entered. -/
theorem not_mem_rulesOf {children : List Node} (hplain : PlainAll children)
    (hother : ∀ child ∈ children, child.label ≠ [item]) :
    item :: url ∉ (rulesOf children).map Prod.fst := by
  induction children with
  | nil => exact List.not_mem_nil
  | cons child children ih =>
      obtain ⟨⟨other, hfor⟩, -, -, hrest⟩ := hplain
      have hlabel := label_of_for hfor
      have hne := hother child List.mem_cons_self
      rw [rulesOf, List.map_append, List.mem_append]
      rintro (hmem | hmem)
      · obtain ⟨rule, hrule, heq⟩ := List.mem_map.mp hmem
        obtain ⟨rule', -, rfl⟩ := List.mem_map.mp hrule
        rw [hlabel] at heq hne
        exact hne (congrArg (fun x => [x]) (List.cons.inj heq).1)
      · exact ih hrest (fun c hc => hother c (List.mem_cons_of_mem _ hc)) hmem

theorem nil_not_mem_rulesOf {children : List Node} (hplain : PlainAll children) :
    [] ∉ (rulesOf children).map Prod.fst := by
  induction children with
  | nil => exact List.not_mem_nil
  | cons child children ih =>
      obtain ⟨⟨other, hfor⟩, -, -, hrest⟩ := hplain
      rw [rulesOf, List.map_append, List.mem_append, label_of_for hfor]
      rintro (hmem | hmem)
      · obtain ⟨rule, hrule, heq⟩ := List.mem_map.mp hmem
        obtain ⟨rule', -, rfl⟩ := List.mem_map.mp hrule
        cases heq
      · exact ih hrest hmem

theorem addChild_eq_none_iff (hitem : item ≠ .char nul)
    (henter : ∀ n, n.Plain → (enter n = none ↔ url ∈ n.rules.map Prod.fst)) :
    ∀ {children : List Node}, PlainAll children →
      (addChild item enter children = none ↔ item :: url ∈ (rulesOf children).map Prod.fst)
  | [], _ => by
      have hfresh := henter (fresh item) (plain_fresh item)
      rw [rules_fresh] at hfresh
      rw [addChild, Option.map_eq_none_iff, hfresh]
      simp [rulesOf]
  | child :: children, hplain => by
      obtain ⟨⟨other, hfor⟩, hchild, hdistinct, hrest⟩ := hplain
      rw [addChild, rulesOf, List.map_append, List.mem_append]
      split
      next hstarts =>
          have hlabel := (starts_iff hfor hitem).mp hstarts
          have hnot : item :: url ∉ (rulesOf children).map Prod.fst :=
            not_mem_rulesOf hrest fun c hc => hlabel ▸ hdistinct c hc
          rw [Option.map_eq_none_iff, henter child hchild, mem_behind_cons hlabel]
          exact (or_iff_left hnot).symm
      next hstarts =>
          have hother : child.label ≠ [item] := fun heq => hstarts ((starts_iff hfor hitem).mpr heq)
          have hnot : item :: url ∉ (behind child.label child.rules).map Prod.fst := by
            intro hmem
            have hone : PlainAll [child] :=
              ⟨⟨other, hfor⟩, hchild, fun _ h => absurd h List.not_mem_nil, trivial⟩
            have hsingle : ∀ c ∈ [child], c.label ≠ [item] := by
              intro c hc
              obtain rfl := List.mem_singleton.mp hc
              exact hother
            refine not_mem_rulesOf hone hsingle (?_ : item :: url ∈ _)
            rw [rulesOf, rulesOf, List.append_nil]
            exact hmem
          rw [Option.map_eq_none_iff, addChild_eq_none_iff hitem henter hrest]
          exact (or_iff_right hnot).symm

/-- **A url is refused exactly when it is entered already.** -/
theorem add_eq_none_iff : ∀ {url : List RuleItem} {n : Node}, .char nul ∉ url → n.Plain →
    (add url i n = none ↔ url ∈ n.rules.map Prod.fst)
  | [], node r k p children, _, hplain => by
      have hchildren : [] ∉ (rulesOf children).map Prod.fst := nil_not_mem_rulesOf hplain
      rw [add, rules, List.map_append, List.mem_append, or_iff_left hchildren]
      by_cases hr : r = 0 <;> simp [hr]
  | item :: url, node r k p children, hnul, hplain => by
      have hurl : .char nul ∉ url := fun hmem => hnul (List.mem_cons_of_mem _ hmem)
      have hitem : item ≠ .char nul := fun heq => hnul (heq ▸ List.mem_cons_self)
      rw [add, Option.map_eq_none_iff,
        addChild_eq_none_iff hitem (fun _ => add_eq_none_iff hurl) hplain, rules, List.map_append,
        List.mem_append]
      have hown : item :: url ∉ (if r = 0 then [] else [([], r)] : List Rule).map Prod.fst := by
        split <;> simp
      exact (or_iff_right hown).symm

/-- The children of the head go by the first piece. -/
theorem add_children {n n' : Node} (hnul : .char nul ∉ item :: url) (hi : i ≠ 0)
    (hplain : n.Plain) (h : add (item :: url) i n = some n') :
    n'.rule_index = n.rule_index ∧ ∀ child' ∈ n'.children,
      child'.label = [item] ∨ ∃ child ∈ n.children, child'.label = child.label := by
  obtain ⟨r, k, p, children⟩ := n
  obtain ⟨children', hchildren', rfl⟩ := Option.map_eq_some_iff.mp h
  have hurl : .char nul ∉ url := fun hmem => hnul (List.mem_cons_of_mem _ hmem)
  have hitem : item ≠ .char nul := fun heq => hnul (heq ▸ List.mem_cons_self)
  exact ⟨rfl, (addChild_some hitem (fun _ _ => add_some hurl hi) hplain hchildren').labels⟩

end Adding

/-! ## §7. The head. -/

/-- Every url in the tree begins with the character. -/
structure Under (c : Char) (head : Node) : Prop where
  rule_index : head.rule_index = 0
  param : head.param = false
  children : ∀ child ∈ head.children, child.label = [.char c]

/-- **Such a head is simple**, and the tree is joined. -/
theorem validate_some {c : Char} {head : Node} (h : Under c head) (hplain : head.Plain) :
    head.validate = some head.optimize := by
  obtain ⟨r, k, p, children⟩ := head
  obtain ⟨hindex, hparam, hlabels⟩ := h
  have hsimple : isSimpleNode r p children = true := by
    have hr : r = 0 := hindex
    have hp : p = false := hparam
    subst hr hp
    cases children with
    | nil => rfl
    | cons child children =>
        have hlabel := hlabels child List.mem_cons_self
        obtain ⟨-, -, hdistinct, -⟩ := hplain
        refine isSimpleNode_iff.mpr ⟨rfl, ?_, rfl, ?_⟩
        · refine List.eq_nil_iff_forall_not_mem.mpr fun other hother => hdistinct other hother ?_
          rw [hlabel, hlabels other (List.mem_cons_of_mem _ hother)]
        · cases hp : child.param with
          | false => rfl
          | true => simp [label, labelOf, hp] at hlabel
  exact if_pos hsimple

/-- The search of a joined tree is that of the list. -/
theorem find_optimize {n : Node} (hplain : n.Plain) {rules : List Rule} (h : n.rules.Perm rules)
    (url : List Char) : n.optimize.find url = findRule url rules := by
  rw [find_eq _ _ (labelled_optimize (labelled_of_plain n hplain)), rules_optimize]
  exact findRule_perm h

end Node

end ApiSyncer.Crow
