/-
  ApiSyncer.Represents
  ────────────────────
  **THE POINTER STRUCTURE REFINES A CHILD-LIST GRAPH ON IDS.**

  `Represents m F addr`: the map owns exactly the keys of `F`, the node of `k`
  is the object at `addr k`, and its `weak_ptr`s are the addresses of the kids
  of `k`.  Every operation of the source on the pointers is then the update of
  the same name on ids, liveness of `weak_ptr`s included.

      store / link / unlink / erase    the four operations refine the updates
      validateTree_eq_true             no represented memory holds an expired child
      nodeToJson_eq                    rendering is unfolding
-/
import ApiSyncer.Routes

namespace ApiSyncer

open ApiSyncer.Lib

/-! ## §1. The relation. -/

/-- The memory `m` holds the graph `F`, with the node of `k` at `addr k`. -/
structure Represents (m : Memory) (F : Forest Int String) (addr : Int → Addr) : Prop where
  find : ∀ k, m.find k = if k ∈ F.keys then some (some (addr k)) else none
  node : ∀ k ∈ F.keys, m.heap (addr k)
    = ⟨toUInt k, F.label k, (F.kids k).map fun c => some (addr c)⟩
  inj : ∀ k ∈ F.keys, ∀ l ∈ F.keys, addr k = addr l → k = l
  bound : ∀ k ∈ F.keys, addr k < m.next
  closed : ∀ {p c}, F.Edge p c → c ∈ F.keys

/-- `superRoot` is a node of the map, under its own key. -/
structure Rooted (m : Memory) (F : Forest Int String) (addr : Int → Addr) : Prop where
  mem_keys : superRootKey ∈ F.keys
  pointer : m.superRoot = some (addr superRootKey)

namespace Represents

variable {m : Memory} {F : Forest Int String} {addr : Int → Addr} {k p c : Int}
  {name : String} {a b : Addr}

theorem find_of_mem (h : Represents m F addr) (hk : k ∈ F.keys) :
    m.find k = some (some (addr k)) := by
  rw [h.find, if_pos hk]

theorem find_of_notMem (h : Represents m F addr) (hk : k ∉ F.keys) : m.find k = none := by
  rw [h.find, if_neg hk]

theorem index_of_mem (h : Represents m F addr) (hk : k ∈ F.keys) :
    m.index k = some (addr k) := by
  unfold Memory.index
  rw [h.find_of_mem hk]
  rfl

theorem find_eq_some (h : Represents m F addr) :
    m.find k = some (some a) ↔ k ∈ F.keys ∧ a = addr k := by
  rw [h.find]
  by_cases hk : k ∈ F.keys
  · simp [hk, eq_comm]
  · simp [hk]

/-- No entry of the map is null. -/
theorem find_ne_null (h : Represents m F addr) : m.find k ≠ some none := by
  rw [h.find]
  by_cases hk : k ∈ F.keys <;> simp [hk]

/-- A pointer to the node of a key is live. -/
theorem lock_addr (h : Represents m F addr) (hk : k ∈ F.keys) :
    m.lock (some (addr k)) = some (addr k) :=
  Memory.lock_eq_some.mpr ⟨rfl, k, h.find_of_mem hk⟩

theorem lock_eq_some_iff (h : Represents m F addr) {wp : WeakPtr} :
    m.lock wp = some a ↔ wp = some a ∧ ∃ k ∈ F.keys, a = addr k := by
  rw [Memory.lock_eq_some]
  constructor
  · intro hlock
    obtain ⟨hwp, k, hk⟩ := hlock
    exact ⟨hwp, k, (h.find_eq_some.mp hk).1, (h.find_eq_some.mp hk).2⟩
  · intro hlock
    obtain ⟨hwp, k, hk, rfl⟩ := hlock
    exact ⟨hwp, k, h.find_of_mem hk⟩

theorem children_eq (h : Represents m F addr) (hk : k ∈ F.keys) :
    (m.heap (addr k)).children = (F.kids k).map fun c => some (addr c) := by
  rw [h.node k hk]

/-- A node lists nothing exactly when its key has no kids. -/
theorem children_eq_nil (h : Represents m F addr) (hk : k ∈ F.keys) :
    (m.heap (addr k)).children = [] ↔ F.kids k = [] := by
  rw [h.children_eq hk, List.map_eq_nil_iff]

theorem mem_children (h : Represents m F addr) (hp : p ∈ F.keys) (hc : c ∈ F.keys) :
    some (addr c) ∈ (m.heap (addr p)).children ↔ c ∈ F.kids p := by
  rw [h.children_eq hp, List.mem_map]
  constructor
  · intro hmem
    obtain ⟨d, hd, hdc⟩ := hmem
    have hd' : d ∈ F.keys := h.closed ⟨hp, hd⟩
    rwa [← h.inj d hd' c hc (Option.some.inj hdc)]
  · intro hmem
    exact ⟨c, hmem, rfl⟩

/-! ## §2. The four operations. -/

/-- **A new node under an unlisted key** (a fresh one, or one whose old node
nobody lists). -/
theorem store (h : Represents m F addr) (hu : F.Unlisted k) (name : String) :
    Represents (m.store k (ObjectNode.ofInt k name)) (F.insert k name)
      (Function.update addr k m.next) := by
  have haddr : ∀ l, l ≠ k → Function.update addr k m.next l = addr l :=
    fun l hl => Function.update_of_ne hl ..
  have hself : Function.update addr k m.next k = m.next := Function.update_self ..
  have hold : ∀ l, l ∈ (F.insert k name).keys → l ≠ k → l ∈ F.keys := fun l hl hne =>
    (Forest.mem_keys_insert.mp hl).resolve_left hne
  constructor
  · intro l
    by_cases hl : l = k
    · subst hl
      rw [Memory.find_store_self, hself, if_pos (Forest.mem_keys_insert.mpr (Or.inl rfl))]
    · rw [Memory.find_store_of_ne hl, h.find, haddr l hl]
      by_cases hmem : l ∈ F.keys
      · rw [if_pos hmem, if_pos (Forest.mem_keys_insert.mpr (Or.inr hmem))]
      · rw [if_neg hmem, if_neg (fun hc => hmem (hold l hc hl))]
  · intro l hl
    by_cases hlk : l = k
    · subst hlk
      rw [hself, Memory.heap_store_next, Forest.label_insert_self, Forest.kids_insert_self]
      rfl
    · have hmem := hold l hl hlk
      have hlt := h.bound l hmem
      rw [haddr l hlk, Memory.heap_store_of_ne (Nat.ne_of_lt hlt), h.node l hmem,
        Forest.label_insert_of_ne hlk, Forest.kids_insert_of_ne hlk]
      -- nobody lists `k`, so no list is affected by its new address
      congr 1
      refine List.map_congr_left fun d hd => ?_
      have hdk : d ≠ k := by
        intro hdk
        subst hdk
        exact hu l ⟨hmem, hd⟩
      rw [haddr d hdk]
  · intro l hl l' hl' heq
    by_cases hlk : l = k
    · by_cases hlk' : l' = k
      · rw [hlk, hlk']
      · rw [hlk, hself, haddr l' hlk'] at heq
        exact absurd heq.symm (Nat.ne_of_lt (h.bound l' (hold l' hl' hlk')))
    · have hlt := h.bound l (hold l hl hlk)
      by_cases hlk' : l' = k
      · rw [hlk', hself, haddr l hlk] at heq
        exact absurd heq (Nat.ne_of_lt hlt)
      · rw [haddr l hlk, haddr l' hlk'] at heq
        exact h.inj l (hold l hl hlk) l' (hold l' hl' hlk') heq
  · intro l hl
    rw [Memory.next_store]
    by_cases hlk : l = k
    · rw [hlk, hself]
      exact Nat.lt_succ_self _
    · rw [haddr l hlk]
      exact Nat.lt_succ_of_lt (h.bound l (hold l hl hlk))
  · intro q d he
    exact Forest.mem_keys_insert.mpr (Or.inr (h.closed (Forest.edge_insert.mp he).2))

/-- A change of one node's children that mirrors a change of one key's kids. -/
theorem modify_kids (h : Represents m F addr) {G : Forest Int String}
    {f : ObjectNode → ObjectNode} (hp : p ∈ F.keys) (hkeys : G.keys = F.keys)
    (hlabel : G.label = F.label) (hkids : ∀ q, q ≠ p → G.kids q = F.kids q)
    (hclosed : ∀ c ∈ G.kids p, c ∈ F.keys)
    (hf : f (m.heap (addr p))
      = { m.heap (addr p) with children := (G.kids p).map fun c => some (addr c) }) :
    Represents (m.modify (addr p) f) G addr := by
  constructor
  · intro k
    rw [Memory.find_modify, h.find, hkeys]
  · intro k hk
    rw [hkeys] at hk
    by_cases hkp : k = p
    · subst hkp
      rw [Memory.heap_modify_self, hf, h.node k hk, hlabel]
    -- another key is another object
    · have hne : addr k ≠ addr p := fun he => hkp (h.inj k hk p hp he)
      rw [Memory.heap_modify_of_ne hne, h.node k hk, hlabel, hkids k hkp]
  · rw [hkeys]
    exact h.inj
  · rw [hkeys]
    exact h.bound
  · intro q d he
    obtain ⟨hq, hd⟩ := he
    rw [hkeys] at hq ⊢
    by_cases hqp : q = p
    · subst hqp
      exact hclosed d hd
    · rw [hkids q hqp] at hd
      exact h.closed ⟨hq, hd⟩

/-- **`pushChild` is `link`.** -/
theorem link (h : Represents m F addr) (hp : p ∈ F.keys) (hc : c ∈ F.keys) :
    Represents (m.modify (addr p) (·.pushChild (some (addr c)))) (F.link p c) addr := by
  refine h.modify_kids hp rfl rfl (fun q hq => Forest.kids_link_of_ne hq) ?_ ?_
  · intro d hd
    rw [Forest.kids_link_self, List.mem_append, List.mem_singleton] at hd
    rcases hd with hd | rfl
    · exact h.closed ⟨hp, hd⟩
    · exact hc
  · rw [Forest.kids_link_self, List.map_append, ← h.children_eq hp]
    rfl

/-- **`removeChild` is `unlink`**: every child of a represented memory locks,
and distinct kids are distinct objects. -/
theorem unlink (h : Represents m F addr) (hp : p ∈ F.keys) (hc : c ∈ F.keys) :
    Represents (m.modify (addr p) (·.removeChild m.lock (some (addr c)))) (F.unlink p c)
      addr := by
  refine h.modify_kids hp rfl rfl (fun q hq => Forest.kids_unlink_of_ne hq) ?_ ?_
  · intro d hd
    rw [Forest.kids_unlink_self] at hd
    exact h.closed ⟨hp, (List.mem_filter.mp hd).1⟩
  · unfold ObjectNode.removeChild
    rw [Forest.kids_unlink_self, h.children_eq hp, List.filter_map]
    congr 2
    -- the source compares locked pointers, the graph compares keys
    refine List.filter_congr fun d hd => ?_
    have hd' : d ∈ F.keys := h.closed ⟨hp, hd⟩
    simp only [Function.comp_apply, h.lock_addr hd']
    by_cases hdc : d = c
    · simp [hdc]
    · have hne : addr d ≠ addr c := fun he => hdc (h.inj d hd' c hc he)
      simp [hdc, hne]

/-- **`nodes.erase` is `erase`**, when nobody lists the node any more. -/
theorem erase (h : Represents m F addr) (hu : F.Unlisted k) :
    Represents (m.erase k) (F.erase k) addr := by
  have hold : ∀ l, l ∈ (F.erase k).keys → l ∈ F.keys := fun l hl =>
    (Forest.mem_keys_erase.mp hl).2
  constructor
  · intro l
    by_cases hl : l = k
    · subst hl
      rw [Memory.find_erase_self, if_neg (by simp)]
    · rw [Memory.find_erase_of_ne hl, h.find]
      by_cases hmem : l ∈ F.keys
      · rw [if_pos hmem, if_pos (Forest.mem_keys_erase.mpr ⟨hl, hmem⟩)]
      · rw [if_neg hmem, if_neg (fun hc => hmem (hold l hc))]
  · intro l hl
    exact h.node l (hold l hl)
  · intro l hl l' hl' heq
    exact h.inj l (hold l hl) l' (hold l' hl') heq
  · intro l hl
    exact h.bound l (hold l hl)
  · intro q d he
    have hF := (Forest.edge_erase.mp he).2
    refine Forest.mem_keys_erase.mpr ⟨?_, h.closed hF⟩
    -- a remaining list would hold the erased key
    intro hdk
    subst hdk
    exact hu q hF

end Represents

/-! ## §3. Live pointers and `validate_tree`. -/

/-- All child lists of the nodes held in the map, taken together. -/
def Memory.childPointers (m : Memory) : List WeakPtr :=
  m.nodes.entries.flatMap fun entry =>
    match entry.2 with
    | some node => (m.heap node).getChildren
    | none => []

namespace Represents

variable {m : Memory} {F : Forest Int String} {addr : Int → Addr} {k p c : Int}
  {a b : Addr} {n : ℕ}

/-- An entry of the map is a key with the address of its node. -/
theorem entry (h : Represents m F addr) {e : Sigma fun _ : Int => SharedPtr}
    (he : e ∈ m.nodes.entries) : e.1 ∈ F.keys ∧ e.2 = some (addr e.1) := by
  have hfind : m.find e.1 = some e.2 := AList.mem_lookup_iff.mpr he
  rw [h.find] at hfind
  by_cases hk : e.1 ∈ F.keys
  · rw [if_pos hk] at hfind
    exact ⟨hk, (Option.some.inj hfind).symm⟩
  · rw [if_neg hk] at hfind
    cases hfind

theorem mem_childPointers (h : Represents m F addr) {wp : WeakPtr} :
    wp ∈ m.childPointers ↔ ∃ p c, F.Edge p c ∧ wp = some (addr c) := by
  unfold Memory.childPointers
  rw [List.mem_flatMap]
  constructor
  · intro hmem
    obtain ⟨e, he, hwp⟩ := hmem
    obtain ⟨hk, hp⟩ := h.entry he
    rw [hp] at hwp
    have hwp' : wp ∈ (m.heap (addr e.1)).children := hwp
    rw [h.children_eq hk, List.mem_map] at hwp'
    obtain ⟨c, hc, rfl⟩ := hwp'
    exact ⟨e.1, c, ⟨hk, hc⟩, rfl⟩
  · intro hmem
    obtain ⟨p, c, hpc, rfl⟩ := hmem
    refine ⟨⟨p, some (addr p)⟩, AList.mem_lookup_iff.mp (h.find_of_mem hpc.1), ?_⟩
    exact (h.mem_children hpc.1 (h.closed hpc)).mpr hpc.2

/-- **Every child of every node is live.** -/
theorem not_expired (h : Represents m F addr) {wp : WeakPtr}
    (hwp : wp ∈ m.childPointers) : m.expired wp = false := by
  obtain ⟨p, c, hpc, rfl⟩ := h.mem_childPointers.mp hwp
  unfold Memory.expired
  rw [h.lock_addr (h.closed hpc)]
  rfl

/-- **No node occurs twice over all child lists.** -/
theorem nodup_childPointers (h : Represents m F addr) (hw : F.WellFormed) :
    m.childPointers.Nodup := by
  unfold Memory.childPointers
  rw [List.nodup_flatMap]
  constructor
  · intro e he
    obtain ⟨hk, hp⟩ := h.entry he
    rw [hp]
    show (m.heap (addr e.1)).children.Nodup
    rw [h.children_eq hk]
    refine (hw.nodup _ hk).map_on fun c hc d hd heq => ?_
    exact h.inj c (h.closed ⟨hk, hc⟩) d (h.closed ⟨hk, hd⟩) (Option.some.inj heq)
  · -- two lists with a common node are the lists of its one parent
    refine (List.nodupKeys_iff_pairwise.mp m.nodes.nodupKeys).imp_of_mem ?_
    intro e e' he he' hne wp hwp hwp'
    obtain ⟨hk, hp⟩ := h.entry he
    obtain ⟨hk', hp'⟩ := h.entry he'
    simp only [hp] at hwp
    simp only [hp'] at hwp'
    have h₁ : wp ∈ (m.heap (addr e.1)).children := hwp
    have h₂ : wp ∈ (m.heap (addr e'.1)).children := hwp'
    rw [h.children_eq hk, List.mem_map] at h₁
    rw [h.children_eq hk', List.mem_map] at h₂
    obtain ⟨c, hc, rfl⟩ := h₁
    obtain ⟨d, hd, hdc⟩ := h₂
    have hcd := h.inj d (h.closed ⟨hk', hd⟩) c (h.closed ⟨hk, hc⟩) (Option.some.inj hdc)
    subst hcd
    exact hne (hw.parent_unique ⟨hk, hc⟩ ⟨hk', hd⟩)

/-- **`validate_tree` finds nothing to complain about.** -/
theorem validateTree_eq_true (h : Represents m F addr) : validateTree m = true := by
  unfold validateTree
  rw [List.all_eq_true]
  intro e he
  obtain ⟨hk, hp⟩ := h.entry he
  rw [hp]
  show (m.heap (addr e.1)).children.all (fun child => !m.expired child) = true
  rw [List.all_eq_true]
  intro wp hwp
  rw [h.children_eq hk, List.mem_map] at hwp
  obtain ⟨c, hc, rfl⟩ := hwp
  have := h.not_expired (h.mem_childPointers.mpr ⟨e.1, c, ⟨hk, hc⟩, rfl⟩)
  simp [this]

/-! ## §4. Reachability and rendering. -/

end Represents

/-- The live object `b` is in the child list of the object `a`. -/
def Memory.Lists (m : Memory) (a b : Addr) : Prop :=
  some b ∈ (m.heap a).children ∧ m.owned b = true

/-- The object `a` is reached from `superRoot` along child lists. -/
def Memory.Reaches (m : Memory) (a : Addr) : Prop :=
  ∃ root, m.lock m.superRoot = some root ∧ Relation.ReflTransGen m.Lists root a

namespace Represents

variable {m : Memory} {F : Forest Int String} {addr : Int → Addr} {k p c : Int}
  {a b : Addr} {n : ℕ}

theorem lists_iff (h : Represents m F addr) (hp : p ∈ F.keys) :
    m.Lists (addr p) b ↔ ∃ c, F.Edge p c ∧ b = addr c := by
  unfold Memory.Lists
  constructor
  · intro hlist
    obtain ⟨hmem, -⟩ := hlist
    rw [h.children_eq hp, List.mem_map] at hmem
    obtain ⟨c, hc, hcb⟩ := hmem
    exact ⟨c, ⟨hp, hc⟩, (Option.some.inj hcb).symm⟩
  · intro hedge
    obtain ⟨c, he, rfl⟩ := hedge
    exact ⟨(h.mem_children hp (h.closed he)).mpr he.2,
      Memory.owned_iff.mpr ⟨c, h.find_of_mem (h.closed he)⟩⟩

theorem lock_superRoot (h : Represents m F addr) (hr : Rooted m F addr) :
    m.lock m.superRoot = some (addr superRootKey) := by
  rw [hr.pointer]
  exact h.lock_addr hr.mem_keys

/-- Paths of pointers are paths of ids. -/
theorem reflTransGen_lists (h : Represents m F addr) (hp : p ∈ F.keys) :
    Relation.ReflTransGen m.Lists (addr p) b ↔ ∃ c ∈ F.keys, F.Reach p c ∧ b = addr c := by
  constructor
  · intro hpath
    induction hpath with
    | refl => exact ⟨p, hp, .refl, rfl⟩
    | tail _ hstep ih =>
        obtain ⟨c, hc, hreach, rfl⟩ := ih
        obtain ⟨d, he, rfl⟩ := (h.lists_iff hc).mp hstep
        exact ⟨d, h.closed he, hreach.tail he, rfl⟩
  · intro hpath
    obtain ⟨c, -, hreach, rfl⟩ := hpath
    induction hreach with
    | refl => exact .refl
    | tail _ he ih => exact ih.tail ((h.lists_iff he.1).mpr ⟨_, he, rfl⟩)

theorem reaches_iff (h : Represents m F addr) (hr : Rooted m F addr) :
    m.Reaches a ↔ ∃ k ∈ F.keys, F.Reach superRootKey k ∧ a = addr k := by
  unfold Memory.Reaches
  rw [h.lock_superRoot hr, ← h.reflTransGen_lists hr.mem_keys]
  constructor
  · intro hreach
    obtain ⟨root, hroot, hpath⟩ := hreach
    rwa [Option.some.inj hroot]
  · intro hpath
    exact ⟨_, rfl, hpath⟩

theorem transGen_lists (h : Represents m F addr) (hp : p ∈ F.keys)
    (hpath : Relation.TransGen m.Lists (addr p) b) :
    ∃ c, Relation.TransGen F.Edge p c ∧ c ∈ F.keys ∧ b = addr c := by
  induction hpath with
  | single hstep =>
      obtain ⟨c, he, rfl⟩ := (h.lists_iff hp).mp hstep
      exact ⟨c, .single he, h.closed he, rfl⟩
  | tail _ hstep ih =>
      obtain ⟨c, hpc, hc, rfl⟩ := ih
      obtain ⟨d, he, rfl⟩ := (h.lists_iff hc).mp hstep
      exact ⟨d, hpc.tail he, h.closed he, rfl⟩

/-- Rendering a list of children, one after the other. -/
theorem mapM_nodeToJson {fuel : ℕ}
    (ih : ∀ {c}, c ∈ F.keys → nodeToJson m fuel (addr c)
      = match F.unfold fuel c with
        | some t => .ok t
        | none => .error .outOfFuel) :
    ∀ cs : List Int, (∀ c ∈ cs, c ∈ F.keys) →
      ((cs.map fun c => (some (addr c) : SharedPtr)).mapM fun lock => do
          nodeToJson m fuel (← Memory.deref lock))
        = match cs.mapM (F.unfold fuel) with
          | some ts => .ok ts
          | none => .error .outOfFuel
  | [], _ => rfl
  | c :: cs, hcs => by
      have hrec := mapM_nodeToJson ih cs fun d hd => hcs d (List.mem_cons_of_mem _ hd)
      rw [List.map_cons, List.mapM_cons, List.mapM_cons]
      show (nodeToJson m fuel (addr c) >>= _) = _
      rw [ih (hcs c List.mem_cons_self), hrec]
      cases F.unfold fuel c with
      | none => rfl
      | some t =>
          cases cs.mapM (F.unfold fuel) with
          | none => rfl
          | some ts => rfl

/-- **Rendering is unfolding**: `nodeToJson` returns the unfolding of the graph
with the ids and names of the nodes, or exhausts its fuel. -/
theorem nodeToJson_eq (h : Represents m F addr)
    (hint : ∀ k ∈ F.keys, Tables.intMin ≤ k ∧ k ≤ Tables.intMax) :
    ∀ {fuel : ℕ} {k : Int}, k ∈ F.keys →
      nodeToJson m fuel (addr k)
        = match F.unfold fuel k with
          | some t => .ok t
          | none => .error .outOfFuel := by
  intro fuel
  induction fuel with
  | zero => intro k _; rfl
  | succ fuel ih =>
      intro k hk
      -- every child locks, so the filter on expired children keeps all
      have hlocks : ((m.heap (addr k)).getChildren.map m.lock).filter Option.isSome
          = (F.kids k).map fun c => some (addr c) := by
        show ((m.heap (addr k)).children.map m.lock).filter Option.isSome = _
        rw [h.children_eq hk, List.map_map]
        have hmap : (F.kids k).map (m.lock ∘ fun c => some (addr c))
            = (F.kids k).map fun c => some (addr c) :=
          List.map_congr_left fun c hc => h.lock_addr (h.closed ⟨hk, hc⟩)
        rw [hmap, List.filter_eq_self]
        intro wp hwp
        obtain ⟨c, -, rfl⟩ := List.mem_map.mp hwp
        rfl
      have hid : (m.heap (addr k)).getID = k := by
        rw [h.node k hk]
        exact toInt_toUInt (hint k hk).1 (hint k hk).2
      have hname : (m.heap (addr k)).getName = F.label k := by
        rw [h.node k hk]
        rfl
      show (((((m.heap (addr k)).getChildren.map m.lock).filter Option.isSome).mapM _) >>= _)
        = _
      rw [hlocks, mapM_nodeToJson ih (F.kids k) fun c hc => h.closed ⟨hk, hc⟩, hid, hname]
      show _ = match ((F.kids k).mapM (F.unfold fuel)).map (RoseTree.node k (F.label k)) with
        | some t => Except.ok t
        | none => Except.error Abort.outOfFuel
      cases (F.kids k).mapM (F.unfold fuel) with
      | none => rfl
      | some ts => rfl

section Tree

variable {fuel : ℕ} {t : Json}

/-- `GET /api/tree` on a represented memory unfolds its graph from superRoot. -/
theorem apiTree_unfold (h : Represents m F addr) (hr : Rooted m F addr)
    (hint : ∀ k ∈ F.keys, Tables.intMin ≤ k ∧ k ≤ Tables.intMax) :
    apiTree m fuel
      = match F.unfold fuel superRootKey with
        | some t => .ok (some t)
        | none => .error .outOfFuel := by
  rw [apiTree_eq (h.lock_superRoot hr), h.nodeToJson_eq hint hr.mem_keys]
  cases F.unfold fuel superRootKey <;> rfl

theorem apiTree_eq_iff (h : Represents m F addr) (hr : Rooted m F addr)
    (hint : ∀ k ∈ F.keys, Tables.intMin ≤ k ∧ k ≤ Tables.intMax) :
    apiTree m fuel = .ok (some t) ↔ F.unfold fuel superRootKey = some t := by
  rw [h.apiTree_unfold hr hint]
  cases F.unfold fuel superRootKey with
  | none => exact iff_of_false (fun heq => by cases heq) (fun heq => by cases heq)
  | some u =>
      constructor
      · intro heq
        rw [Option.some.inj (Except.ok.inj heq)]
      · intro heq
        rw [Option.some.inj heq]

/-- What is shown is the unfolded graph. -/
theorem shows_iff (h : Represents m F addr) (hr : Rooted m F addr)
    (hint : ∀ k ∈ F.keys, Tables.intMin ≤ k ∧ k ≤ Tables.intMax) :
    Shows m t ↔ ∃ n, F.unfold n superRootKey = some t := by
  constructor
  · intro hshows
    obtain ⟨depth, hdepth⟩ := hshows
    exact ⟨depth, (h.apiTree_eq_iff hr hint).mp (hdepth depth le_rfl)⟩
  · intro hunfold
    obtain ⟨n, hn⟩ := hunfold
    exact ⟨n, fun fuel hle => (h.apiTree_eq_iff hr hint).mpr (Forest.unfold_mono hle hn)⟩

end Tree

end Represents

end ApiSyncer
