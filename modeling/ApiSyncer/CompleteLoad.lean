/-
  ApiSyncer.CompleteLoad
  ──────────────────────
  **THE GRAPH OF A COMPLETE LOAD.**

  `CompleteForest T F`: the keys of `F` are superRoot and the objects of `T`,
  each key lists exactly the children of its rows, and superRoot lists exactly
  the objects that are nobody's child.  A constructor that is not interrupted
  leaves such a graph, in whatever order the rows and the pairs of the map are
  delivered.
-/
import ApiSyncer.Load

namespace ApiSyncer

open ApiSyncer.Lib

/-! ## §1. A constructor that is not interrupted. -/

/-- The graph of the tables. -/
structure CompleteForest (T : Tables) (F : Forest Int String) : Prop where
  mem_keys : ∀ k, k ∈ F.keys ↔ k = superRootKey ∨ k ∈ T.ids
  label_root : F.label superRootKey = "superRoot"
  label : ∀ o ∈ T.objects, F.label o.id = o.name
  kids : ∀ p, p ≠ superRootKey → (F.kids p).Perm
    ((T.relationships.filter fun r => T.joins r && decide (r.parent_id = p)).map (·.child_id))
  roots : (F.kids superRootKey).Perm (T.ids.filter fun c => !T.parented c)

/-- What the constructor needs of the tables to tell superRoot from the rows:
ids are distinct `int`s and none of them is the key of superRoot. -/
structure Loadable (T : Tables) : Prop where
  ids_nodup : T.ids.Nodup
  int_range : ∀ i ∈ T.ids, Tables.intMin ≤ i ∧ i ≤ Tables.intMax
  ids_ne : superRootKey ∉ T.ids
  rows_ne : ∀ r ∈ T.relationships, r.parent_id ≠ superRootKey ∧ r.child_id ≠ superRootKey

/-- What is asked of the tables: distinct positive `int` ids, and distinct rows
with positive endpoints, which need not be ids. -/
structure Keyed (T : Tables) : Prop where
  ids_nodup : T.ids.Nodup
  int_range : ∀ i ∈ T.ids, 1 ≤ i ∧ i ≤ Tables.intMax
  rows_nodup : T.relationships.Nodup
  rows_pos : ∀ r ∈ T.relationships, 0 < r.parent_id ∧ 0 < r.child_id

theorem Keyed.loadable {T : Tables} (h : Keyed T) : Loadable T where
  ids_nodup := h.ids_nodup
  int_range i hi := by
    have hmin : Tables.intMin = -2147483648 := rfl
    have := h.int_range i hi
    omega
  ids_ne hmem := by
    have := h.int_range _ hmem
    rw [superRootKey_eq] at this
    omega
  rows_ne r hr := by
    have := h.rows_pos r hr
    rw [superRootKey_eq]
    omega

theorem SchemaTables.keyed (T : SchemaTables) (hpos : ∀ o ∈ T.objects, 0 < o.id) :
    Keyed T.toTables := by
  have hids : ∀ i ∈ T.toTables.ids, 0 < i := by
    intro i hi
    obtain ⟨o, ho, rfl⟩ := List.mem_map.mp hi
    exact hpos o ho
  refine ⟨T.ids_nodup, fun i hi => ⟨hids i hi, ?_⟩, T.relationships_nodup, fun r hr => ?_⟩
  · obtain ⟨o, ho, rfl⟩ := List.mem_map.mp hi
    exact (T.int_range o ho).2
  · exact ⟨hids _ (T.foreign_keys r hr).1, hids _ (T.foreign_keys r hr).2⟩

/-- Every database call of the constructor succeeds. -/
structure Startup.Succeeds (env : Startup) (T : Tables) : Prop where
  connected : env.connect = .connected
  objects : ∃ order throwsAt, env.objects = .resultSet order throwsAt
    ∧ throwsIn (order.arrange T.objects) throwsAt = false
  relationships : ∃ order throwsAt, env.relationships = .resultSet order throwsAt
    ∧ throwsIn (order.arrange T.relationships) throwsAt = false

theorem toUInt_ne_superRoot {i : Int} (h : Tables.intMin ≤ i ∧ i ≤ Tables.intMax)
    (hne : i ≠ superRootKey) : toUInt i ≠ SUPER_ROOT_ID := by
  have hmin : Tables.intMin = -2147483648 := rfl
  have hmax : Tables.intMax = 2147483647 := rfl
  rw [superRootKey_eq] at hne
  unfold toUInt SUPER_ROOT_ID
  omega

/-- After both loops a list holds the children of its rows. -/
theorem kids_loaded (objects : List ObjectRow) (relationships : List RelationshipRow)
    (p : Int) :
    (withRelationships relationships (withObjects objects startForest)).kids p
      = (relationships.filter fun r =>
          r.within (withObjects objects startForest).keys && decide (r.parent_id = p)).map
            (·.child_id) := by
  rw [kids_withRelationships, kids_withObjects objects rfl, List.nil_append]

/-- After both loops every edge comes from a row between two loaded objects. -/
theorem edge_loaded {objects : List ObjectRow} {relationships : List RelationshipRow}
    {p c : Int}
    (he : (withRelationships relationships (withObjects objects startForest)).Edge p c) :
    ⟨p, c⟩ ∈ relationships ∧ p ∈ (withObjects objects startForest).keys
      ∧ c ∈ (withObjects objects startForest).keys := by
  have hc := he.2
  rw [kids_loaded, List.mem_map] at hc
  obtain ⟨⟨q, d⟩, hfilter, rfl⟩ := hc
  obtain ⟨hrow, hq⟩ := List.mem_filter.mp hfilter
  simp only [RelationshipRow.within, Bool.and_eq_true, decide_eq_true_eq] at hq
  obtain ⟨⟨hp, hd⟩, rfl⟩ := hq
  exact ⟨hrow, hp, hd⟩

section Construct

variable {env : Startup} {T : Tables} {order order' : Order}

theorem ids_arrange (order : Order) (T : Tables) :
    ((order.arrange T.objects).map (·.id)).Perm T.ids :=
  (order.perm T.objects).map _

/-- After both loops the keys are superRoot and the objects. -/
theorem mem_keys_loaded {k : Int} :
    k ∈ (withObjects (order.arrange T.objects) startForest).keys
      ↔ k = superRootKey ∨ k ∈ T.ids := by
  rw [mem_keys_withObjects, (ids_arrange order T).mem_iff]
  exact or_congr Finset.mem_singleton Iff.rfl

/-- A row joins two objects exactly when both endpoints are in the map. -/
theorem within_loaded (hT : Loadable T) {r : RelationshipRow} (hr : r ∈ T.relationships) :
    r.within (withObjects (order.arrange T.objects) startForest).keys = T.joins r := by
  obtain ⟨hp, hc⟩ := hT.rows_ne r hr
  unfold RelationshipRow.within Tables.joins
  rw [decide_eq_decide, mem_keys_loaded, mem_keys_loaded]
  simp [hp, hc]

theorem filter_within_loaded (hT : Loadable T) (q : RelationshipRow → Bool) :
    ((order'.arrange T.relationships).filter fun r =>
        r.within (withObjects (order.arrange T.objects) startForest).keys && q r).Perm
      (T.relationships.filter fun r => T.joins r && q r) := by
  refine ((order'.perm T.relationships).filter _).trans ?_
  refine .of_eq (List.filter_congr fun r hr => ?_)
  rw [within_loaded hT hr]

/-- The set `children` holds the children of the joining rows. -/
theorem mem_childrenOf_loaded
    (hwithin : ∀ r ∈ T.relationships,
      r.within (withObjects (order.arrange T.objects) startForest).keys = T.joins r) {c : Int} :
    c ∈ childrenOf (order'.arrange T.relationships)
        (withObjects (order.arrange T.objects) startForest).keys
      ↔ T.parented c = true := by
  unfold childrenOf
  rw [List.mem_reverse, List.mem_map, Tables.parented, List.any_eq_true]
  constructor
  · intro h
    obtain ⟨r, hr, rfl⟩ := h
    obtain ⟨hmem, hw⟩ := List.mem_filter.mp hr
    have hT' := (order'.perm _).mem_iff.mp hmem
    rw [hwithin r hT'] at hw
    exact ⟨r, hT', by simp [hw]⟩
  · intro h
    obtain ⟨r, hr, hj⟩ := h
    simp only [Bool.and_eq_true, decide_eq_true_eq] at hj
    refine ⟨r, List.mem_filter.mpr ⟨(order'.perm _).mem_iff.mpr hr, ?_⟩, hj.2⟩
    rw [hwithin r hr]
    exact hj.1

/-- **The third loop selects the objects that are nobody's child.** -/
theorem roots_perm {m : Memory} {F : Forest Int String} {addr : Int → Addr}
    (hT : Loadable T) (hrep : Represents m F addr)
    (hkeys : ∀ k, k ∈ F.keys ↔ k = superRootKey ∨ k ∈ T.ids) (iteration : Order) :
    (((iteration.arrange m.nodes.entries).map (·.1)).filter
        (isRoot (childrenOf (order'.arrange T.relationships)
          (withObjects (order.arrange T.objects) startForest).keys))).Perm
      (T.ids.filter fun c => !T.parented c) := by
  have hperm : ((iteration.arrange m.nodes.entries).map (·.1)).Perm m.nodes.keys :=
    (iteration.perm m.nodes.entries).map _
  have hmem : ∀ k, k ∈ m.nodes.keys ↔ k ∈ F.keys := by
    intro k
    rw [← AList.mem_keys, ← AList.lookup_isSome]
    show (m.find k).isSome = true ↔ _
    rw [hrep.find]
    by_cases hk : k ∈ F.keys <;> simp [hk]
  refine (List.perm_ext_iff_of_nodup ?_ (hT.ids_nodup.filter _)).mpr ?_
  -- the keys of the map are distinct, in whatever order it iterates
  · exact (hperm.nodup_iff.mpr m.nodes.keys_nodup).filter _
  · intro k
    rw [List.mem_filter, List.mem_filter, hperm.mem_iff, hmem, hkeys]
    unfold isRoot
    rw [decide_eq_true_eq, mem_childrenOf_loaded fun r hr => within_loaded hT hr]
    constructor
    · intro h
      obtain ⟨hk, hno, hne⟩ := h
      -- the comparison with SUPER_ROOT_ID leaves superRoot out
      rcases hk with rfl | hk
      · exact absurd (by decide) hne
      · exact ⟨hk, by simpa using hno⟩
    · intro h
      obtain ⟨hk, hno⟩ := h
      have hne : k ≠ superRootKey := fun he => hT.ids_ne (he ▸ hk)
      exact ⟨Or.inr hk, by simpa using hno, toUInt_ne_superRoot (hT.int_range k hk) hne⟩

/-- **A constructor that fetches every row leaves the graph of the tables.** -/
theorem construct_fetched {throwsAt throwsAt' : Option Nat} (hT : Loadable T)
    (hopen : env.connect.opens = true)
    (hobj : env.objects = .resultSet order throwsAt)
    (hthrow : throwsIn (order.arrange T.objects) throwsAt = false)
    (hrel : env.relationships = .resultSet order' throwsAt')
    (hthrow' : throwsIn (order'.arrange T.relationships) throwsAt' = false) :
    ∃ m F addr, construct env T = .ok (m, env.connect.succeeds) ∧ Represents m F addr
      ∧ Rooted m F addr ∧ CompleteForest T F := by
  obtain ⟨m₂, addr, hrep, hplace, heq⟩ :=
    construct_after_relationships hopen hobj hthrow hrel hthrow'
  set F₁ := withObjects (order.arrange T.objects) startForest with hF₁
  have hids := ids_arrange order T
  have hrooted : Rooted m₂ _ addr := hplace.rooted
    (fun h => hT.ids_ne (hids.mem_iff.mp h))
    (by rw [keys_withRelationships]; exact superRootKey_mem_withObjects _)
  have hentries : ∀ e ∈ env.iteration.arrange m₂.nodes.entries,
      e.1 ∈ (withRelationships (order'.arrange T.relationships) F₁).keys
        ∧ e.2 = some (addr e.1) :=
    fun e he => hrep.entry ((env.iteration.perm _).mem_iff.mp he)
  obtain ⟨m, hfold, hrep', hsuper⟩ := foldlM_linkRoot _ hrep hrooted hentries
  have hkeys : ∀ k, k ∈ (withRelationships (order'.arrange T.relationships) F₁).keys
      ↔ k = superRootKey ∨ k ∈ T.ids := by
    intro k
    rw [keys_withRelationships]
    exact mem_keys_loaded
  refine ⟨m, _, addr, ?_, hrep', ⟨?_, hsuper.trans hrooted.pointer⟩, ?_⟩
  · rw [heq, hfold]
    rfl
  · rw [keys_withRoots]
    exact hrooted.mem_keys
  constructor
  · intro k
    rw [keys_withRoots]
    exact hkeys k
  · rw [label_withRoots, label_withRelationships,
      label_withObjects_of_notMem (fun h => hT.ids_ne (hids.mem_iff.mp h))]
    rfl
  · intro o ho
    rw [label_withRoots, label_withRelationships]
    exact label_withObjects (hids.nodup_iff.mpr hT.ids_nodup)
      ((order.perm _).mem_iff.mpr ho)
  · intro p hp
    rw [kids_withRoots_of_ne hp, kids_loaded]
    exact (filter_within_loaded hT _).map _
  · rw [kids_withRoots_self, kids_loaded]
    -- no row has superRoot as its parent
    have hnone : (order'.arrange T.relationships).filter (fun r =>
        r.within F₁.keys && decide (r.parent_id = superRootKey)) = [] := by
      rw [List.filter_eq_nil_iff]
      intro r hr
      have := (hT.rows_ne r ((order'.perm _).mem_iff.mp hr)).1
      simp [this]
    rw [hnone]
    exact roots_perm hT hrep hkeys env.iteration

/-- **A startup in which every call succeeds is a complete load.** -/
theorem construct_complete (hT : Loadable T) (henv : env.Succeeds T) :
    ∃ m F addr, construct env T = .ok (m, true) ∧ Represents m F addr
      ∧ Rooted m F addr ∧ CompleteForest T F := by
  obtain ⟨hconn, ⟨order, throwsAt, hobj, hthrow⟩, ⟨order', throwsAt', hrel, hthrow'⟩⟩ := henv
  have hopen : env.connect.opens = true := by rw [hconn]; rfl
  have hsucceeds : env.connect.succeeds = true := by rw [hconn]; rfl
  rw [← hsucceeds]
  exact construct_fetched hT hopen hobj hthrow hrel hthrow'

end Construct

/-! ## §2. What every load keeps to, complete or cut short. -/

/-- A graph whose keys and edges are justified by the tables. -/
structure PartForest (T : Tables) (F : Forest Int String) : Prop where
  keys : ∀ k ∈ F.keys, k = superRootKey ∨ k ∈ T.ids
  label_root : F.label superRootKey = "superRoot"
  edge : ∀ {p c}, F.Edge p c → (p = superRootKey ∧ c ∈ T.ids ∧ T.parented c = false)
    ∨ (⟨p, c⟩ ∈ T.relationships ∧ p ∈ T.ids ∧ c ∈ T.ids)
  closed : ∀ {p c}, F.Edge p c → c ∈ F.keys
  nodup : ∀ p ∈ F.keys, (F.kids p).Nodup

namespace PartForest

variable {T : Tables} {F : Forest Int String} {p c : Int}

theorem mem_ids (h : PartForest T F) (he : F.Edge p c) : c ∈ T.ids := by
  rcases h.edge he with ⟨-, hc, -⟩ | ⟨-, -, hc⟩
  · exact hc
  · exact hc

theorem unlisted_superRoot (h : PartForest T F) (hT : Loadable T) :
    F.Unlisted superRootKey :=
  fun _ he => hT.ids_ne (h.mem_ids he)

/-- **Where every object has at most one parent row, a load lists every key at
most once.** -/
theorem wellFormed (h : PartForest T F)
    (hone : ∀ p q c, ⟨p, c⟩ ∈ T.relationships → ⟨q, c⟩ ∈ T.relationships →
      p ∈ T.ids → q ∈ T.ids → c ∈ T.ids → p = q) : F.WellFormed where
  closed := h.closed
  nodup := h.nodup
  parent_unique {p q c} he he' := by
    rcases h.edge he with ⟨hp, hc, hno⟩ | ⟨hr, hp, hc⟩ <;>
      rcases h.edge he' with ⟨hq, hc', hno'⟩ | ⟨hr', hq, hc'⟩
    · rw [hp, hq]
    -- an object that a row makes a child is not under superRoot
    · rw [Tables.parented_iff.mpr ⟨q, hr', hq, hc'⟩] at hno
      cases hno
    · rw [Tables.parented_iff.mpr ⟨p, hr, hp, hc⟩] at hno'
      cases hno'
    · exact hone p q c hr hr' hp hq hc

end PartForest

/-- Distinct rows with one parent have distinct children. -/
theorem nodup_children {rows : List RelationshipRow} {q : RelationshipRow → Bool} {p : Int}
    (hrows : rows.Nodup) (hq : ∀ r, q r = true → r.parent_id = p) :
    ((rows.filter q).map (·.child_id)).Nodup := by
  refine (hrows.filter _).map_on ?_
  intro r hr r' hr' heq
  have hp := hq r (List.mem_filter.mp hr).2
  have hp' := hq r' (List.mem_filter.mp hr').2
  obtain ⟨p₁, c₁⟩ := r
  obtain ⟨p₂, c₂⟩ := r'
  simp only at heq hp hp'
  rw [hp, hp', heq]

/-- Where both loops have added the given rows, none of the roots yet. -/
theorem part_withRelationships {T : Tables} {objects : List ObjectRow}
    {relationships : List RelationshipRow} (hT : Loadable T)
    (hobj : ∀ o ∈ objects, o ∈ T.objects)
    (hrel : ∀ r ∈ relationships, r ∈ T.relationships) (hrows : relationships.Nodup) :
    PartForest T (withRelationships relationships (withObjects objects startForest)) := by
  have hkeys : ∀ k, k ∈ (withObjects objects startForest).keys →
      k = superRootKey ∨ k ∈ T.ids := by
    intro k hk
    rcases mem_keys_withObjects.mp hk with hk | hk
    · exact Or.inl (Finset.mem_singleton.mp hk)
    · obtain ⟨o, ho, rfl⟩ := List.mem_map.mp hk
      exact Or.inr (List.mem_map_of_mem (hobj o ho))
  constructor
  · intro k hk
    rw [keys_withRelationships] at hk
    exact hkeys k hk
  · rw [label_withRelationships, label_withObjects_of_notMem]
    · rfl
    · intro hmem
      obtain ⟨o, ho, hid⟩ := List.mem_map.mp hmem
      exact hT.ids_ne (hid ▸ List.mem_map_of_mem (hobj o ho))
  · intro p c he
    obtain ⟨hr, hp, hc⟩ := edge_loaded he
    obtain ⟨hpne, hcne⟩ := hT.rows_ne _ (hrel _ hr)
    exact Or.inr ⟨hrel _ hr, (hkeys p hp).resolve_left hpne, (hkeys c hc).resolve_left hcne⟩
  · intro p c he
    rw [keys_withRelationships]
    exact (edge_loaded he).2.2
  · intro p _
    rw [kids_loaded]
    exact nodup_children hrows fun r hr => by
      simp only [Bool.and_eq_true, decide_eq_true_eq] at hr
      exact hr.2

/-! ## §3. The edges of a complete load. -/

namespace CompleteForest

variable {T : Tables} {F : Forest Int String} {p c : Int}

theorem mem_kids (h : CompleteForest T F) (hp : p ≠ superRootKey) :
    c ∈ F.kids p ↔ ⟨p, c⟩ ∈ T.relationships ∧ p ∈ T.ids ∧ c ∈ T.ids := by
  rw [(h.kids p hp).mem_iff, List.mem_map]
  constructor
  · intro hmem
    obtain ⟨⟨q, d⟩, hfilter, rfl⟩ := hmem
    obtain ⟨hrow, hj⟩ := List.mem_filter.mp hfilter
    simp only [Tables.joins, Bool.and_eq_true, decide_eq_true_eq] at hj
    obtain ⟨⟨hq, hd⟩, rfl⟩ := hj
    exact ⟨hrow, hq, hd⟩
  · intro hmem
    obtain ⟨hr, hp', hc⟩ := hmem
    exact ⟨⟨p, c⟩, List.mem_filter.mpr ⟨hr, by simp [Tables.joins, hp', hc]⟩, rfl⟩

theorem mem_roots (h : CompleteForest T F) :
    c ∈ F.kids superRootKey ↔ c ∈ T.ids ∧ T.parented c = false := by
  rw [h.roots.mem_iff, List.mem_filter]
  simp

/-- **The edges of a complete load.** -/
theorem edge_iff (h : CompleteForest T F) (hT : Loadable T) :
    F.Edge p c ↔ (p = superRootKey ∧ c ∈ T.ids ∧ T.parented c = false)
      ∨ (⟨p, c⟩ ∈ T.relationships ∧ p ∈ T.ids ∧ c ∈ T.ids) := by
  unfold Forest.Edge
  rw [h.mem_keys]
  by_cases hp : p = superRootKey
  · subst hp
    rw [h.mem_roots]
    have : ¬ superRootKey ∈ T.ids := hT.ids_ne
    tauto
  · rw [h.mem_kids hp]
    tauto

theorem nodup_kids (h : CompleteForest T F) (hT : Loadable T)
    (hrows : T.relationships.Nodup) (p : Int) : (F.kids p).Nodup := by
  by_cases hp : p = superRootKey
  · subst hp
    exact h.roots.nodup_iff.mpr (hT.ids_nodup.filter _)
  · refine (h.kids p hp).nodup_iff.mpr ?_
    exact nodup_children hrows fun r hr => by
      simp only [Bool.and_eq_true, decide_eq_true_eq] at hr
      exact hr.2

/-- A complete load is a load. -/
theorem part (h : CompleteForest T F) (hT : Loadable T) (hrows : T.relationships.Nodup) :
    PartForest T F where
  keys k hk := (h.mem_keys k).mp hk
  label_root := h.label_root
  edge he := (h.edge_iff hT).mp he
  closed he := by
    rw [h.mem_keys]
    rcases (h.edge_iff hT).mp he with ⟨-, hmem, -⟩ | ⟨-, -, hmem⟩
    · exact Or.inr hmem
    · exact Or.inr hmem
  nodup p _ := h.nodup_kids hT hrows p

end CompleteForest

/-! ## §4. Every constructor that returns. -/

/-- **Whatever the constructor leaves is a load.** -/
theorem construct_part {env : Startup} {T : Tables} (hT : Loadable T)
    (hrows : T.relationships.Nodup) {m : Memory} {connection : Bool}
    (h : construct env T = .ok (m, connection)) :
    ∃ F addr, Represents m F addr ∧ Rooted m F addr ∧ PartForest T F := by
  cases hconn : env.connect.opens with
  | false =>
      rw [construct_refused hconn] at h
      cases h
  | true =>
  cases hobj : env.objects with
  | null =>
      rw [construct_objects_null hconn hobj] at h
      cases h
  | resultSet order throwsAt =>
  have hobjects : ∀ o ∈ order.arrange T.objects, o ∈ T.objects := fun o ho =>
    (order.perm _).mem_iff.mp ho
  cases hthrow : throwsIn (order.arrange T.objects) throwsAt with
  | true =>
      obtain ⟨m', addr, hok, hrep, hplace⟩ := construct_objects_cut hconn hobj hthrow
      rw [hok] at h
      obtain ⟨rfl, -⟩ := Prod.mk.inj (Except.ok.inj h)
      have hno : superRootKey ∉ (fetched (order.arrange T.objects) throwsAt).map (·.id) := by
        intro hmem
        obtain ⟨o, ho, hid⟩ := List.mem_map.mp hmem
        exact hT.ids_ne (hid ▸ List.mem_map_of_mem (hobjects o (mem_of_mem_fetched ho)))
      refine ⟨_, addr, hrep, hplace.rooted hno (superRootKey_mem_withObjects _), ?_⟩
      show PartForest T (withRelationships [] (withObjects _ startForest))
      exact part_withRelationships hT (fun o ho => hobjects o (mem_of_mem_fetched ho))
        (fun r hr => absurd hr List.not_mem_nil) List.nodup_nil
  | false =>
  cases hrel : env.relationships with
  | null =>
      rw [construct_relationships_null hconn hobj hthrow hrel] at h
      cases h
  | resultSet order' throwsAt' =>
  have hrelationships : ∀ r ∈ order'.arrange T.relationships, r ∈ T.relationships :=
    fun r hr => (order'.perm _).mem_iff.mp hr
  cases hthrow' : throwsIn (order'.arrange T.relationships) throwsAt' with
  | true =>
      obtain ⟨m', addr, hok, hrep, hplace⟩ :=
        construct_relationships_cut hconn hobj hthrow hrel hthrow'
      rw [hok] at h
      obtain ⟨rfl, -⟩ := Prod.mk.inj (Except.ok.inj h)
      have hno : superRootKey ∉ (order.arrange T.objects).map (·.id) := fun hmem =>
        hT.ids_ne ((ids_arrange order T).mem_iff.mp hmem)
      refine ⟨_, addr, hrep, hplace.rooted hno ?_, ?_⟩
      · rw [keys_withRelationships]
        exact superRootKey_mem_withObjects _
      · refine part_withRelationships hT hobjects
          (fun r hr => hrelationships r (mem_of_mem_fetched hr)) ?_
        exact nodup_fetched ((order'.perm _).nodup_iff.mpr hrows)
  | false =>
      obtain ⟨m', F, addr, hok, hrep, hrooted, hF⟩ :=
        construct_fetched hT hconn hobj hthrow hrel hthrow'
      rw [hok] at h
      obtain ⟨rfl, -⟩ := Prod.mk.inj (Except.ok.inj h)
      exact ⟨F, addr, hrep, hrooted, hF.part hT hrows⟩

end ApiSyncer
