/-
  ApiSyncer.FaithfulLoad
  ──────────────────────
  **LOADING AND RENDERING ARE FAITHFUL TO THE TABLES.**

  `Loaded T m` says on the pointers of the process what a complete load is: one
  node per object, one pointer per row that joins two objects, one pointer of
  superRoot per object without a parent, and no other pointer.

      Loaded.of_complete       the constructor leaves such a memory
      construct_faithful       the tree rendered from one-parent acyclic tables
      reaches_iff_descends     what is reached and rendered in general
-/
import ApiSyncer.CompleteLoad
import ApiSyncer.Lib.Descent

namespace ApiSyncer

open ApiSyncer.Lib

/-! ## §1. Complete loads, on the pointers. -/

/-- How often the node of `c` occurs in the child list of the node of `p`. -/
def Memory.listed (m : Memory) (p c : Int) : Nat :=
  match m.find p, m.find c with
  | some (some a), some (some b) => (m.heap a).children.count (some b)
  | _, _ => 0

/-- `p` is to list `c`: a row joins them, or `p` is superRoot and `c` an object
that is nobody's child. -/
def Tables.lists (T : Tables) (p c : Int) : Bool :=
  decide (⟨p, c⟩ ∈ T.relationships) && T.joins ⟨p, c⟩
    || decide (p = superRootKey ∧ c ∈ T.ids) && !T.parented c

/-- The memory is the complete load of the tables. -/
structure Loaded (T : Tables) (m : Memory) : Prop where
  superRoot : ∃ root, m.find superRootKey = some (some root)
    ∧ m.lock m.superRoot = some root
  keys : ∀ k, m.find k ≠ none ↔ k = superRootKey ∨ k ∈ T.ids
  nodes : ∀ o ∈ T.objects, ∃ node, m.find o.id = some (some node)
    ∧ (m.heap node).getID = o.id ∧ (m.heap node).getName = o.name
  listed : ∀ p c, m.listed p c = if T.lists p c then 1 else 0
  others : ∀ k node, m.find k = some (some node) → ∀ child ∈ (m.heap node).children,
    ∃ c target, m.find c = some (some target) ∧ child = some target

namespace Represents

variable {m : Memory} {F : Forest Int String} {addr : Int → Addr} {p c : Int}

theorem listed_eq_zero (h : Represents m F addr) (hno : ¬ F.Edge p c) :
    m.listed p c = 0 := by
  unfold Memory.listed
  split
  next a b hp hc =>
      obtain ⟨hpF, rfl⟩ := h.find_eq_some.mp hp
      obtain ⟨hcF, rfl⟩ := h.find_eq_some.mp hc
      rw [List.count_eq_zero, h.mem_children hpF hcF]
      exact fun hmem => hno ⟨hpF, hmem⟩
  next => rfl

theorem listed_eq_one (h : Represents m F addr) (he : F.Edge p c)
    (hnodup : (F.kids p).Nodup) : m.listed p c = 1 := by
  have hp := he.1
  have hc := h.closed he
  unfold Memory.listed
  rw [h.find_of_mem hp, h.find_of_mem hc]
  refine List.count_eq_one_of_mem ?_ ((h.mem_children hp hc).mpr he.2)
  rw [h.children_eq hp]
  refine hnodup.map_on fun d hd e he' heq => ?_
  exact h.inj d (h.closed ⟨hp, hd⟩) e (h.closed ⟨hp, he'⟩) (Option.some.inj heq)

end Represents

/-- **A complete graph is a complete load.** -/
theorem Loaded.of_complete {T : Tables} {m : Memory} {F : Forest Int String}
    {addr : Int → Addr} (hT : Loadable T) (hrows : T.relationships.Nodup)
    (hrep : Represents m F addr) (hroot : Rooted m F addr) (hF : CompleteForest T F) :
    Loaded T m where
  superRoot := ⟨_, hrep.find_of_mem hroot.mem_keys, hrep.lock_superRoot hroot⟩
  keys k := by
    rw [hrep.find, ← hF.mem_keys]
    by_cases hk : k ∈ F.keys <;> simp [hk]
  nodes o ho := by
    have hid : o.id ∈ T.ids := List.mem_map_of_mem ho
    have hk : o.id ∈ F.keys := (hF.mem_keys _).mpr (Or.inr hid)
    refine ⟨_, hrep.find_of_mem hk, ?_, ?_⟩
    · rw [hrep.node _ hk]
      exact toInt_toUInt (hT.int_range _ hid).1 (hT.int_range _ hid).2
    · rw [hrep.node _ hk]
      exact hF.label o ho
  listed p c := by
    have hiff : T.lists p c = true ↔ F.Edge p c := by
      rw [hF.edge_iff hT]
      simp only [Tables.lists, Tables.joins, Bool.or_eq_true, Bool.and_eq_true,
        decide_eq_true_eq, Bool.not_eq_true']
      tauto
    by_cases he : F.Edge p c
    · rw [if_pos (hiff.mpr he)]
      exact hrep.listed_eq_one he (hF.nodup_kids hT hrows p)
    · rw [if_neg (fun h => he (hiff.mp h))]
      exact hrep.listed_eq_zero he
  others k node hk child hchild := by
    obtain ⟨hkF, rfl⟩ := hrep.find_eq_some.mp hk
    rw [hrep.children_eq hkF, List.mem_map] at hchild
    obtain ⟨c, hc, rfl⟩ := hchild
    exact ⟨c, _, hrep.find_of_mem (hrep.closed ⟨hkF, hc⟩), rfl⟩

/-! ## §2. Rendering. -/

/-- A row that joins two objects. -/
def Tables.Row (T : Tables) (p c : Int) : Prop :=
  ⟨p, c⟩ ∈ T.relationships ∧ p ∈ T.ids ∧ c ∈ T.ids

/-- The pairs of keys that are to be nested directly. -/
def Tables.nestings (T : Tables) : List (Int × Int) :=
  ((T.relationships.filter T.joins).map fun r => (r.parent_id, r.child_id))
    ++ (T.ids.filter fun c => !T.parented c).map fun c => (superRootKey, c)

theorem Tables.mem_nestings {T : Tables} {p c : Int} :
    (p, c) ∈ T.nestings ↔ T.Row p c ∨ p = superRootKey ∧ c ∈ T.ids ∧ T.parented c = false := by
  unfold Tables.nestings Tables.Row
  rw [List.mem_append, List.mem_map, List.mem_map]
  refine or_congr ⟨?_, ?_⟩ ⟨?_, ?_⟩
  · intro h
    obtain ⟨⟨q, d⟩, hr, heq⟩ := h
    obtain ⟨rfl, rfl⟩ := Prod.mk.inj heq
    obtain ⟨hmem, hj⟩ := List.mem_filter.mp hr
    obtain ⟨hp, hc⟩ := of_decide_eq_true hj
    exact ⟨hmem, hp, hc⟩
  · intro h
    obtain ⟨hmem, hp, hc⟩ := h
    exact ⟨⟨p, c⟩, List.mem_filter.mpr ⟨hmem, decide_eq_true ⟨hp, hc⟩⟩, rfl⟩
  · intro h
    obtain ⟨d, hd, heq⟩ := h
    obtain ⟨rfl, rfl⟩ := Prod.mk.inj heq
    obtain ⟨hmem, hno⟩ := List.mem_filter.mp hd
    exact ⟨rfl, hmem, by simpa using hno⟩
  · intro h
    obtain ⟨rfl, hmem, hno⟩ := h
    exact ⟨c, List.mem_filter.mpr ⟨hmem, by simpa using hno⟩, rfl⟩

theorem Tables.nodup_nestings {T : Tables} (hT : Loadable T)
    (hrows : T.relationships.Nodup) : T.nestings.Nodup := by
  unfold Tables.nestings
  rw [List.nodup_append]
  refine ⟨?_, ?_, ?_⟩
  · refine (hrows.filter _).map_on fun r _ r' _ heq => ?_
    obtain ⟨hp, hc⟩ := Prod.mk.inj heq
    cases r
    cases r'
    simp only at hp hc
    rw [hp, hc]
  · exact (hT.ids_nodup.filter _).map_on fun c _ d _ heq => (Prod.mk.inj heq).2
  · intro a ha b hb hab
    obtain ⟨r, hr, rfl⟩ := List.mem_map.mp ha
    obtain ⟨c, hc, rfl⟩ := List.mem_map.mp hb
    have hmem := (List.mem_filter.mp hr).1
    exact (hT.rows_ne r hmem).1 (Prod.mk.inj hab).1

namespace CompleteForest

variable {T : Tables} {F : Forest Int String}

theorem edge_iff_nestings (h : CompleteForest T F) (hT : Loadable T) {p c : Int} :
    F.Edge p c ↔ (p, c) ∈ T.nestings := by
  rw [h.edge_iff hT, Tables.mem_nestings]
  unfold Tables.Row
  tauto

/-- Every object has a lister. -/
theorem exists_edge (h : CompleteForest T F) (hT : Loadable T) {k : Int}
    (hk : k ∈ F.keys) (hne : k ≠ superRootKey) : ∃ p, F.Edge p k := by
  have hid : k ∈ T.ids := ((h.mem_keys k).mp hk).resolve_left hne
  cases hpar : T.parented k with
  | false => exact ⟨superRootKey, (h.edge_iff hT).mpr (Or.inl ⟨rfl, hid, hpar⟩)⟩
  | true =>
      obtain ⟨p, hr, hp, -⟩ := Tables.parented_iff.mp hpar
      exact ⟨p, (h.edge_iff hT).mpr (Or.inr ⟨hr, hp, hid⟩)⟩

/-- Below superRoot, a path is a root followed by rows. -/
theorem reach_iff (h : CompleteForest T F) (hT : Loadable T) {k : Int} :
    F.Reach superRootKey k ↔ k = superRootKey
      ∨ ∃ r ∈ T.ids, T.parented r = false ∧ Relation.ReflTransGen T.Row r k := by
  constructor
  · intro hreach
    induction hreach with
    | refl => exact Or.inl rfl
    | @tail p c _ he ih =>
        rcases (h.edge_iff hT).mp he with ⟨-, hc, hno⟩ | hrow
        · exact Or.inr ⟨c, hc, hno, .refl⟩
        · rcases ih with rfl | ⟨r, hr, hno, hpath⟩
          · exact absurd hrow.2.1 hT.ids_ne
          · exact Or.inr ⟨r, hr, hno, hpath.tail hrow⟩
  · intro hk
    rcases hk with rfl | ⟨r, hr, hno, hpath⟩
    · exact .refl
    · induction hpath with
      | refl => exact .single ((h.edge_iff hT).mpr (Or.inl ⟨rfl, hr, hno⟩))
      | tail _ hrow ih => exact ih.tail ((h.edge_iff hT).mpr (Or.inr hrow))

/-- Below an object the edges are the rows. -/
theorem transGen_iff (h : CompleteForest T F) (hT : Loadable T) {a b : Int}
    (ha : a ≠ superRootKey) :
    Relation.TransGen F.Edge a b ↔ Relation.TransGen T.Row a b := by
  constructor
  · intro hpath
    have hrow : ∀ {p c}, p ≠ superRootKey → F.Edge p c → c ≠ superRootKey ∧ T.Row p c := by
      intro p c hp he
      rcases (h.edge_iff hT).mp he with ⟨hp', -⟩ | hr
      · exact absurd hp' hp
      · exact ⟨fun hc => hT.ids_ne (hc ▸ hr.2.2), hr⟩
    suffices key : b ≠ superRootKey ∧ Relation.TransGen T.Row a b from key.2
    induction hpath with
    | single he => exact ⟨(hrow ha he).1, .single (hrow ha he).2⟩
    | tail _ he ih => exact ⟨(hrow ih.1 he).1, ih.2.tail (hrow ih.1 he).2⟩
  · intro hpath
    induction hpath with
    | single hr => exact .single ((h.edge_iff hT).mpr (Or.inr hr))
    | tail _ hr ih => exact ih.tail ((h.edge_iff hT).mpr (Or.inr hr))

/-- Cycles of the graph are cycles of rows: superRoot has no lister. -/
theorem cycle_iff (h : CompleteForest T F) (hT : Loadable T) {k : Int} :
    Relation.TransGen F.Edge k k ↔ Relation.TransGen T.Row k k := by
  by_cases hk : k = superRootKey
  · subst hk
    refine iff_of_false (fun hcycle => ?_) (fun hcycle => ?_)
    -- a cycle at superRoot would end in an edge into it
    · obtain ⟨p, -, he⟩ := Relation.TransGen.tail'_iff.mp hcycle
      rcases (h.edge_iff hT).mp he with ⟨-, hmem, -⟩ | ⟨-, -, hmem⟩
      · exact hT.ids_ne hmem
      · exact hT.ids_ne hmem
    · obtain ⟨p, -, hr⟩ := Relation.TransGen.tail'_iff.mp hcycle
      exact hT.ids_ne hr.2.2
  · exact h.transGen_iff hT hk

theorem acyclic (h : CompleteForest T F) (hT : Loadable T)
    (hacyc : ∀ k, ¬ Relation.TransGen T.Row k k) (k : Int) :
    ¬ Relation.TransGen F.Edge k k :=
  fun hcycle => hacyc k ((h.cycle_iff hT).mp hcycle)

/-- The keys of a complete load are `int`s. -/
theorem int_range (h : CompleteForest T F) (hT : Loadable T) :
    ∀ k ∈ F.keys, Tables.intMin ≤ k ∧ k ≤ Tables.intMax := by
  intro k hk
  rcases (h.mem_keys k).mp hk with rfl | hid
  · exact ⟨by decide, by decide⟩
  · exact hT.int_range k hid

/-- With acyclic rows superRoot reaches everything. -/
theorem reach_all (h : CompleteForest T F) (hT : Loadable T)
    (hacyc : ∀ k, ¬ Relation.TransGen T.Row k k) :
    ∀ k ∈ F.keys, F.Reach superRootKey k := by
  obtain ⟨rank, hrank⟩ := F.exists_ranked (h.acyclic hT hacyc)
  exact Forest.reach_of_listed hrank fun k hk hne => h.exists_edge hT hk hne

/-- **The rendering of one-parent acyclic tables**: every object once, with its
name, each nested directly under its parent or under superRoot. -/
theorem unfold_complete (h : CompleteForest T F) (hT : Loadable T)
    (hrows : T.relationships.Nodup) (hone : ∀ p q c, T.Row p c → T.Row q c → p = q)
    (hacyc : ∀ k, ¬ Relation.TransGen T.Row k k) :
    ∃ json n, F.unfold n superRootKey = some json
      ∧ json.entries.Perm ((superRootKey, "superRoot") :: T.objects.map fun o => (o.id, o.name))
      ∧ json.edges.Perm T.nestings := by
  have hpart := h.part hT hrows
  have hw : F.WellFormed := hpart.wellFormed fun p q c hp hq hp' hq' hc =>
    hone p q c ⟨hp, hp', hc⟩ ⟨hq, hq', hc⟩
  have hroot : superRootKey ∈ F.keys := (h.mem_keys _).mpr (Or.inl rfl)
  have hcycle := h.acyclic hT hacyc
  have hreach := h.reach_all hT hacyc
  obtain ⟨json, hjson⟩ := Forest.unfold_isSome hw.closed hroot fun x _ => hcycle x
  have hnodup := Forest.nodup_entries_unfold hw hroot (fun x _ => hcycle x) hjson
  refine ⟨json, _, hjson, ?_, ?_⟩
  -- both lists have distinct keys, so it is enough to compare members
  · have hids : (((superRootKey, "superRoot") :: T.objects.map fun o => (o.id, o.name)).map
        Prod.fst).Nodup := by
      rw [List.map_cons, List.map_map, List.nodup_cons]
      exact ⟨hT.ids_ne, hT.ids_nodup⟩
    refine (List.perm_ext_iff_of_nodup hnodup.of_map hids.of_map).mpr ?_
    intro kl
    obtain ⟨k, l⟩ := kl
    rw [Forest.mem_entries_unfold hw.closed hroot hjson, List.mem_cons, List.mem_map]
    constructor
    · intro hk
      obtain ⟨hkr, rfl⟩ := hk
      rcases (h.mem_keys k).mp (hkr.mem_keys hw.closed hroot) with rfl | hid
      · exact Or.inl (by rw [h.label_root])
      · obtain ⟨o, ho, rfl⟩ := List.mem_map.mp hid
        exact Or.inr ⟨o, ho, by rw [h.label o ho]⟩
    · intro hk
      rcases hk with heq | ⟨o, ho, heq⟩
      · obtain ⟨rfl, rfl⟩ := Prod.mk.inj heq
        exact ⟨.refl, h.label_root.symm⟩
      · obtain ⟨rfl, rfl⟩ := Prod.mk.inj heq
        have hk : o.id ∈ F.keys := (h.mem_keys _).mpr (Or.inr (List.mem_map_of_mem ho))
        exact ⟨hreach _ hk, (h.label o ho).symm⟩
  · -- every key but the outermost is nested once, so no nesting occurs twice
    have hedges : (json.edges.map Prod.snd).Nodup := by
      rw [← json.edges_map_snd] at hnodup
      exact (List.nodup_cons.mp hnodup).2
    refine (List.perm_ext_iff_of_nodup hedges.of_map (Tables.nodup_nestings hT hrows)).mpr ?_
    intro pc
    obtain ⟨p, c⟩ := pc
    rw [Forest.mem_edges_unfold hw.closed hroot hjson, ← h.edge_iff_nestings hT]
    exact ⟨fun he => he.2, fun he => ⟨hreach p he.1, he⟩⟩

end CompleteForest

/-- **Loading and rendering are faithful**, in every order of the rows and of
the map.  The constructor leaves exactly the edges of the tables; and where
every object has at most one parent and the rows are acyclic, the tree rendered
from superRoot holds every object once, nested directly under its parent, and
nothing else. -/
theorem construct_faithful {env : Startup} {T : Tables} (hT : Keyed T)
    (henv : env.Succeeds T) :
    ∃ m, construct env T = .ok (m, true) ∧ Loaded T m
      ∧ ((∀ p q c, T.Row p c → T.Row q c → p = q) →
          (∀ k, ¬ Relation.TransGen T.Row k k) →
          ∃ root json depth, m.lock m.superRoot = some root
            ∧ (∀ fuel, depth ≤ fuel → nodeToJson m fuel root = .ok json)
            ∧ json.key = superRootKey
            ∧ json.entries.Perm
                ((superRootKey, "superRoot") :: T.objects.map fun o => (o.id, o.name))
            ∧ json.edges.Perm T.nestings) := by
  have hload := hT.loadable
  obtain ⟨m, F, addr, hok, hrep, hroot, hF⟩ := construct_complete hload henv
  refine ⟨m, hok, Loaded.of_complete hload hT.rows_nodup hrep hroot hF, ?_⟩
  intro hone hacyc
  obtain ⟨json, n, hjson, hentries, hedges⟩ := hF.unfold_complete hload hT.rows_nodup hone hacyc
  refine ⟨_, json, n, hrep.lock_superRoot hroot, fun fuel hle => ?_,
    Forest.key_unfold hjson, hentries, hedges⟩
  rw [hrep.nodeToJson_eq (hF.int_range hload) hroot.mem_keys, Forest.unfold_mono hle hjson]

/-- A chain of three objects, the last of which a dangling row names as well. -/
def Tables.chain : Tables :=
  ⟨[⟨1, "a"⟩, ⟨2, "b"⟩, ⟨3, "c"⟩], [⟨1, 2⟩, ⟨2, 3⟩, ⟨9, 3⟩]⟩

/-- The chain is nested as its rows say. -/
theorem construct_faithful_chain :
    ∃ m root json depth, construct .reversed .chain = .ok (m, true)
      ∧ nodeToJson m depth root = .ok json
      ∧ json.edges.Perm [(1, 2), (2, 3), (superRootKey, 1)] := by
  have hkeyed : Keyed .chain := by
    refine ⟨by decide, by decide, by decide, by decide⟩
  have henv : Startup.reversed.Succeeds .chain :=
    ⟨rfl, ⟨_, _, rfl, rfl⟩, ⟨_, _, rfl, rfl⟩⟩
  have hrow : ∀ {p c}, Tables.chain.Row p c → p = 1 ∧ c = 2 ∨ p = 2 ∧ c = 3 := by
    intro p c h
    obtain ⟨hmem, hp, -⟩ := h
    simp only [Tables.chain, Tables.ids, List.map_cons, List.map_nil, List.mem_cons,
      List.not_mem_nil, RelationshipRow.mk.injEq, or_false] at hmem hp
    omega
  have hone : ∀ p q c, Tables.chain.Row p c → Tables.chain.Row q c → p = q := by
    intro p q c hp hq
    have := hrow hp
    have := hrow hq
    omega
  have hlt : ∀ {p c}, Relation.TransGen Tables.chain.Row p c → p < c := by
    intro p c h
    induction h with
    | single h =>
        have := hrow h
        omega
    | tail _ h ih =>
        have := hrow h
        omega
  obtain ⟨m, hok, -, hjson⟩ := construct_faithful hkeyed henv
  obtain ⟨root, json, depth, -, hrender, -, -, hedges⟩ :=
    hjson hone fun k hk => absurd (hlt hk) (lt_irrefl k)
  exact ⟨m, root, json, depth, hok, hrender depth le_rfl, hedges⟩

/-! ## §3. What superRoot reaches and shows. -/

/-- The node of the object `id` is reached from superRoot along child lists. -/
def Memory.ReachesObject (m : Memory) (id : Int) : Prop :=
  ∃ node, m.find id = some (some node) ∧ m.Reaches node

theorem Represents.reachesObject_iff {m : Memory} {F : Forest Int String} {addr : Int → Addr}
    (hrep : Represents m F addr) (hroot : Rooted m F addr) {k : Int} (hk : k ∈ F.keys) :
    m.ReachesObject k ↔ F.Reach superRootKey k := by
  unfold Memory.ReachesObject
  constructor
  · intro h
    obtain ⟨node, hfind, hreach⟩ := h
    obtain ⟨-, rfl⟩ := hrep.find_eq_some.mp hfind
    obtain ⟨l, hl, hreach', heq⟩ := (hrep.reaches_iff hroot).mp hreach
    rwa [hrep.inj k hk l hl heq]
  · intro h
    exact ⟨_, hrep.find_of_mem hk, (hrep.reaches_iff hroot).mpr ⟨k, hk, h, rfl⟩⟩

/-- Up the rows of `c` there is an object without a parent. -/
def Tables.Descends (T : Tables) (c : Int) : Prop :=
  Lib.Descends (fun i => i ∈ T.ids) (fun p c => ⟨p, c⟩ ∈ T.relationships) c

/-- Along the rows `c` is below itself. -/
def Tables.OnCycle (T : Tables) (c : Int) : Prop :=
  Relation.TransGen (fun p c => ⟨p, c⟩ ∈ T.relationships) c c

theorem Tables.Descends.mem_ids {T : Tables} {c : Int} (h : T.Descends c)
    (hkeys : T.ForeignKeys) : c ∈ T.ids :=
  Lib.Descends.mem h fun _ _ hr => (hkeys _ hr).2

theorem Tables.ForeignKeys.row_eq {T : Tables} (hkeys : T.ForeignKeys) :
    T.Row = fun p c => ⟨p, c⟩ ∈ T.relationships := by
  funext p c
  exact propext ⟨fun h => h.1, fun h => ⟨h, hkeys _ h⟩⟩

namespace CompleteForest

variable {T : Tables} {F : Forest Int String} {c : Int}

/-- What superRoot reaches is what descends. -/
theorem reach_iff_descends (h : CompleteForest T F) (hT : Loadable T) (hkeys : T.ForeignKeys)
    (hc : c ≠ superRootKey) : F.Reach superRootKey c ↔ T.Descends c := by
  rw [h.reach_iff hT, hkeys.row_eq]
  constructor
  · intro hreach
    obtain ⟨r, hr, hno, hpath⟩ := hreach.resolve_left hc
    exact ⟨r, hr, hkeys.not_parented_iff.mp hno, hpath⟩
  · intro hdescends
    obtain ⟨r, hr, hno, hpath⟩ := hdescends
    exact Or.inr ⟨r, hr, hkeys.not_parented_iff.mpr hno, hpath⟩

theorem onCycle_iff (h : CompleteForest T F) (hT : Loadable T) (hkeys : T.ForeignKeys) :
    Relation.TransGen F.Edge c c ↔ T.OnCycle c := by
  rw [h.cycle_iff hT, hkeys.row_eq]
  exact Iff.rfl

/-- **Rendered in general**: superRoot and what descends, as long as none of it is
on a cycle of rows. -/
theorem unfold_descends (h : CompleteForest T F) (hT : Loadable T) (hkeys : T.ForeignKeys)
    (hrows : T.relationships.Nodup) (hacyc : ∀ c, T.Descends c → ¬ T.OnCycle c) :
    ∃ json n, F.unfold n superRootKey = some json
      ∧ ∀ k name, (k, name) ∈ json.entries ↔ (k, name) = (superRootKey, "superRoot")
          ∨ ⟨k, name⟩ ∈ T.objects ∧ T.Descends k := by
  have hpart := h.part hT hrows
  have hroot : superRootKey ∈ F.keys := (h.mem_keys _).mpr (Or.inl rfl)
  have hbelow : ∀ x, F.Reach superRootKey x → ¬ Relation.TransGen F.Edge x x := by
    intro x hx hcycle
    by_cases hne : x = superRootKey
    · obtain ⟨p, -, he⟩ := Relation.TransGen.tail'_iff.mp hcycle
      exact hpart.unlisted_superRoot hT p (hne ▸ he)
    · exact hacyc x ((h.reach_iff_descends hT hkeys hne).mp hx) ((h.onCycle_iff hT hkeys).mp hcycle)
  obtain ⟨json, hjson⟩ := Forest.unfold_isSome hpart.closed hroot hbelow
  refine ⟨json, _, hjson, fun k name => ?_⟩
  rw [Forest.mem_entries_unfold hpart.closed hroot hjson]
  constructor
  · intro hk
    obtain ⟨hreach, rfl⟩ := hk
    rcases (h.mem_keys k).mp (hreach.mem_keys hpart.closed hroot) with rfl | hid
    · exact Or.inl (by rw [h.label_root])
    · obtain ⟨o, ho, rfl⟩ := List.mem_map.mp hid
      have hne : o.id ≠ superRootKey := fun heq => hT.ids_ne (heq ▸ hid)
      rw [h.label o ho]
      exact Or.inr ⟨ho, (h.reach_iff_descends hT hkeys hne).mp hreach⟩
  · intro hk
    rcases hk with heq | ⟨ho, hdescends⟩
    · obtain ⟨rfl, rfl⟩ := Prod.mk.inj heq
      exact ⟨.refl, h.label_root.symm⟩
    · have hne : k ≠ superRootKey := fun heq => hT.ids_ne (heq ▸ List.mem_map_of_mem ho)
      exact ⟨(h.reach_iff_descends hT hkeys hne).mpr hdescends, (h.label _ ho).symm⟩

end CompleteForest

/-- **What a complete load reaches and renders**: the objects that descend from an
object with no parent row. `GET /api/tree` shows exactly these, unless one of
them is on a cycle of rows; then its recursion has no end.  Acyclic rows leave no
object out. -/
theorem reaches_iff_descends {env : Startup} {T : SchemaTables}
    (hpos : ∀ o ∈ T.objects, 0 < o.id) (henv : env.Succeeds T.toTables) :
    ∃ m, construct env T.toTables = .ok (m, true)
      ∧ (∀ o ∈ T.objects, m.ReachesObject o.id ↔ T.Descends o.id)
      ∧ ((∀ c, T.Descends c → ¬ T.OnCycle c) → ∃ json, Shows m json
          ∧ ∀ k name, (k, name) ∈ json.entries ↔ (k, name) = (superRootKey, "superRoot")
              ∨ ⟨k, name⟩ ∈ T.objects ∧ T.Descends k)
      ∧ ((∃ c, T.Descends c ∧ T.OnCycle c) → ∀ fuel, apiTree m fuel = .error .outOfFuel)
      ∧ ((∀ c, ¬ T.OnCycle c) → ∃ json, Shows m json
          ∧ ∀ o ∈ T.objects, m.ReachesObject o.id ∧ (o.id, o.name) ∈ json.entries) := by
  have hload := (T.keyed hpos).loadable
  have hkeys := T.foreign_keys
  obtain ⟨m, F, addr, hok, hrep, hroot, hF⟩ := construct_complete hload henv
  have hint := hF.int_range hload
  have hkey : ∀ {k}, k ∈ T.toTables.ids → k ∈ F.keys ∧ k ≠ superRootKey := fun hk =>
    ⟨(hF.mem_keys _).mpr (Or.inr hk), fun he => hload.ids_ne (he ▸ hk)⟩
  have hreaches : ∀ o ∈ T.objects, m.ReachesObject o.id ↔ T.Descends o.id := by
    intro o ho
    obtain ⟨hk, hne⟩ := hkey (List.mem_map_of_mem ho)
    rw [hrep.reachesObject_iff hroot hk]
    exact hF.reach_iff_descends hload hkeys hne
  have hrenders : (∀ c, T.Descends c → ¬ T.OnCycle c) → ∃ json, Shows m json
      ∧ ∀ k name, (k, name) ∈ json.entries ↔ (k, name) = (superRootKey, "superRoot")
          ∨ ⟨k, name⟩ ∈ T.objects ∧ T.Descends k := by
    intro hacyc
    obtain ⟨json, n, hjson, hentries⟩ :=
      hF.unfold_descends hload hkeys T.relationships_nodup hacyc
    exact ⟨json, (hrep.shows_iff hroot hint).mpr ⟨n, hjson⟩, hentries⟩
  refine ⟨m, hok, hreaches, hrenders, fun hcyclic fuel => ?_, fun hacyc => ?_⟩
  · obtain ⟨c, hdescends, hcycle⟩ := hcyclic
    obtain ⟨-, hne⟩ := hkey (hdescends.mem_ids hkeys)
    rw [hrep.apiTree_unfold hroot hint, Forest.unfold_eq_none
      ((hF.reach_iff_descends hload hkeys hne).mpr hdescends)
      ((hF.onCycle_iff hload hkeys).mpr hcycle)]
  · obtain ⟨json, hshows, hentries⟩ := hrenders fun c _ => hacyc c
    refine ⟨json, hshows, fun o ho => ?_⟩
    obtain ⟨hk, hne⟩ := hkey (List.mem_map_of_mem ho)
    have hreach := hF.reach_all hload (fun k hcycle => by
      rw [hkeys.row_eq] at hcycle
      exact hacyc k hcycle) _ hk
    have hdescends := (hF.reach_iff_descends hload hkeys hne).mp hreach
    exact ⟨(hreaches o ho).mpr hdescends, (hentries _ _).mpr (Or.inr ⟨ho, hdescends⟩)⟩

/-- Three objects: the row of the first names itself, the third has the second
as its parent. -/
def SchemaTables.partlyLost : SchemaTables where
  objects := [⟨1, "a"⟩, ⟨2, "b"⟩, ⟨3, "c"⟩]
  relationships := [⟨1, 1⟩, ⟨2, 3⟩]
  ids_nodup := by decide
  relationships_nodup := by decide
  int_range := by decide
  foreign_keys := by
    unfold Tables.ForeignKeys
    decide

/-- Three objects: below the first, the other two are each other's parents. -/
def SchemaTables.cycleBelow : SchemaTables where
  objects := [⟨1, "a"⟩, ⟨2, "b"⟩, ⟨3, "c"⟩]
  relationships := [⟨1, 2⟩, ⟨2, 3⟩, ⟨3, 2⟩]
  ids_nodup := by decide
  relationships_nodup := by decide
  int_range := by decide
  foreign_keys := by
    unfold Tables.ForeignKeys
    decide

/-- A row of the three objects. -/
theorem SchemaTables.row_partlyLost {p c : Int}
    (h : (⟨p, c⟩ : RelationshipRow) ∈ SchemaTables.partlyLost.relationships) :
    p = 1 ∧ c = 1 ∨ p = 2 ∧ c = 3 := by
  simpa [SchemaTables.partlyLost] using h

/-- The first is the only one on a cycle. -/
theorem SchemaTables.onCycle_partlyLost {c : Int} (h : SchemaTables.partlyLost.OnCycle c) :
    c = 1 := by
  obtain ⟨d, hhead, -⟩ := Relation.TransGen.head'_iff.mp h
  obtain ⟨e, -, htail⟩ := Relation.TransGen.tail'_iff.mp h
  have hhead' := row_partlyLost hhead
  have htail' := row_partlyLost htail
  omega

/-- The first does not descend: the only row into it starts at it. -/
theorem SchemaTables.not_descends_partlyLost : ¬ SchemaTables.partlyLost.Descends 1 := by
  rintro ⟨r, -, hno, hpath⟩
  have hback : ∀ {i k}, Relation.ReflTransGen
      (fun p c => ⟨p, c⟩ ∈ SchemaTables.partlyLost.relationships) i k → k = 1 → i = 1 := by
    intro i k h
    induction h with
    | refl => exact id
    | tail _ hrow ih =>
        intro hk
        have := row_partlyLost hrow
        exact ih (by omega)
  have hr : r = 1 := hback hpath rfl
  exact hno 1 (by rw [hr]; decide)

/-- The third is reached and shown, the first is not; and above the two parents
of each other nothing is shown at all. -/
theorem reaches_iff_descends_partly_lost :
    (∃ m json, construct .whole SchemaTables.partlyLost.toTables = .ok (m, true)
        ∧ m.ReachesObject 3 ∧ ¬ m.ReachesObject 1
        ∧ Shows m json ∧ (3, "c") ∈ json.entries ∧ (1, "a") ∉ json.entries)
      ∧ ∃ m, construct .whole SchemaTables.cycleBelow.toTables = .ok (m, true)
        ∧ ∀ fuel, apiTree m fuel = .error .outOfFuel := by
  have hwhole : ∀ T : SchemaTables, Startup.whole.Succeeds T.toTables := fun T =>
    ⟨rfl, ⟨_, _, rfl, rfl⟩, ⟨_, _, rfl, rfl⟩⟩
  have hno := SchemaTables.not_descends_partlyLost
  constructor
  · have hpos : ∀ o ∈ SchemaTables.partlyLost.objects, 0 < o.id := by decide
    have hthird : SchemaTables.partlyLost.Descends 3 := by
      refine ⟨2, by decide, fun p hp => ?_, .single (by decide)⟩
      have : p = 1 ∧ (2 : Int) = 1 ∨ p = 2 ∧ (2 : Int) = 3 := SchemaTables.row_partlyLost hp
      omega
    obtain ⟨m, hok, hiff, hrenders, -⟩ := reaches_iff_descends hpos (hwhole .partlyLost)
    obtain ⟨json, hshows, hentries⟩ := hrenders fun c hc hcycle =>
      hno (SchemaTables.onCycle_partlyLost hcycle ▸ hc)
    refine ⟨m, json, hok, (hiff ⟨3, "c"⟩ (by decide)).mpr hthird,
      fun hreached => hno ((hiff ⟨1, "a"⟩ (by decide)).mp hreached), hshows,
      (hentries 3 "c").mpr (Or.inr ⟨by decide, hthird⟩), fun hmem => ?_⟩
    rcases (hentries 1 "a").mp hmem with heq | ⟨-, hfirst⟩
    · have hne : (1 : Int) ≠ superRootKey := by decide
      exact hne (Prod.mk.inj heq).1
    · exact hno hfirst
  · have hpos : ∀ o ∈ SchemaTables.cycleBelow.objects, 0 < o.id := by decide
    obtain ⟨m, hok, -, -, hendless, -⟩ := reaches_iff_descends hpos (hwhole .cycleBelow)
    refine ⟨m, hok, hendless ⟨2, ⟨1, by decide, fun p hp => ?_, .single (by decide)⟩, ?_⟩⟩
    · simp [SchemaTables.cycleBelow] at hp
    · have hdown : (⟨2, 3⟩ : RelationshipRow) ∈ SchemaTables.cycleBelow.relationships := by decide
      have hup : (⟨3, 2⟩ : RelationshipRow) ∈ SchemaTables.cycleBelow.relationships := by decide
      exact (Relation.TransGen.single hdown).tail hup

/-- **An object whose only parent row names itself is not reached.** -/
theorem selfParent_lost :
    ¬ ∀ (env : Startup) (T : SchemaTables), (∀ o ∈ T.objects, 0 < o.id) →
      env.Succeeds T.toTables →
      ∃ m, construct env T.toTables = .ok (m, true) ∧ ∀ o ∈ T.objects, m.ReachesObject o.id := by
  intro hevery
  have hpos : ∀ o ∈ SchemaTables.selfParent.objects, 0 < o.id := by decide
  obtain ⟨m, hok, hall⟩ := hevery .whole .selfParent hpos
    ⟨rfl, ⟨_, _, rfl, rfl⟩, ⟨_, _, rfl, rfl⟩⟩
  obtain ⟨node, hfind, root, hroot, hpath⟩ := hall ⟨1, "a"⟩ (by decide)
  have hm : m = (State.cold SchemaTables.selfParent.toTables).restarted.mem :=
    (congrArg Prod.fst (Except.ok.inj hok)).symm
  subst hm
  have hr : some 0 = some root := hroot
  have hn : some (some 1) = some (some node) := hfind
  injection hr with hr
  injection hn with hn
  injection hn with hn
  subst hr hn
  -- superRoot lists nobody
  rcases Relation.ReflTransGen.cases_head hpath with heq | ⟨b, hb, -⟩
  · exact absurd heq (by decide)
  · exact (List.not_mem_nil hb.1).elim

end ApiSyncer
