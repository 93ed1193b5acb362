/-
  ApiSyncer.StartupOutcome
  ────────────────────────
  **WHEN STARTUP IS ALL OR NOTHING.**

  The constructor checks neither the connection nor the result sets before it
  follows them, and `hasConnected` is set by `connect` alone, before any row is
  fetched.  `Startup.Safe` is the exact condition under which neither shows.

      startup_all_or_nothing   the property holds exactly under the condition
-/
import ApiSyncer.FaithfulLoad

namespace ApiSyncer

open ApiSyncer.Lib

/-! ## §1. The property and the condition. -/

/-- The constructor follows neither a null connection nor a null result set, and
it reports a connection only with the complete load in memory.  (Following the
null of an expired superRoot ends the process before it serves.) -/
def AllOrNothing (env : Startup) (T : Tables) : Prop :=
  match construct env T with
  | .ok (m, hasConnected) => hasConnected = true → Loaded T m
  | .error e => e ≠ .nullConnection ∧ e ≠ .nullResultSet

/-- A result set over `rows` throws at one of them. -/
def Select.Throws {α : Type} (sel : Select) (rows : List α) : Prop :=
  ∃ order k, sel = .resultSet order (some k) ∧ k < rows.length

/-- The connection is open, no query fails, and with the schema selected no
fetch throws and no object has taken the key of superRoot unnoticed. -/
structure Startup.Safe (env : Startup) (T : Tables) : Prop where
  connection : env.connect ≠ .refused
  objects : env.objects ≠ .null
  relationships : env.objects.Throws T.objects ∨ env.relationships ≠ .null
  fetches : env.connect = .connected →
    ¬ env.objects.Throws T.objects ∧ ¬ env.relationships.Throws T.relationships
  root : env.connect = .connected → superRootKey ∈ T.ids →
    ∃ c ∈ T.ids, c ≠ superRootKey ∧ T.parented c = false

theorem throws_resultSet {α : Type} {order : Order} {throwsAt : Option Nat} {rows : List α} :
    (Select.resultSet order throwsAt).Throws rows
      ↔ throwsIn (order.arrange rows) throwsAt = true := by
  unfold Select.Throws throwsIn
  constructor
  · intro h
    obtain ⟨order', k, heq, hk⟩ := h
    injection heq with horder hthrow
    subst horder hthrow
    simpa [(order.perm rows).length_eq] using hk
  · intro h
    cases throwsAt with
    | none => cases h
    | some k =>
        refine ⟨order, k, rfl, ?_⟩
        simpa [(order.perm rows).length_eq] using h

theorem Connect.opens_iff {c : Connect} : c.opens = true ↔ c ≠ .refused := by
  cases c <;> simp [Connect.opens]

theorem Connect.succeeds_iff {c : Connect} : c.succeeds = true ↔ c = .connected := by
  cases c <;> simp [Connect.succeeds]

/-! ## §2. What is missing from an interrupted load. -/

section Cut

variable {T : SchemaTables} {m : Memory} {F : Forest Int String} {addr : Int → Addr}

/-- A pointer that the tables ask for and the graph lacks. -/
theorem not_loaded_of_missing (hrep : Represents m F addr) {p c : Int}
    (hlists : T.toTables.lists p c = true) (hno : ¬ F.Edge p c) : ¬ Loaded T.toTables m := by
  intro h
  have hone := h.listed p c
  rw [hlists, hrep.listed_eq_zero hno] at hone
  cases hone

/-- Each object is asked for by some list. -/
theorem exists_lists {c : Int} (hc : c ∈ T.toTables.ids) :
    ∃ p, T.toTables.lists p c = true := by
  unfold Tables.lists
  cases hpar : T.toTables.parented c with
  | false => exact ⟨superRootKey, by simp [hc]⟩
  | true =>
      obtain ⟨p, hr, hp, -⟩ := Tables.parented_iff.mp hpar
      exact ⟨p, by simp [hr, Tables.joins, hp, hc]⟩

/-- A fetch of an object threw: no list has been filled. -/
theorem not_loaded_objects_cut {rows : List ObjectRow}
    (hrep : Represents m (withObjects rows startForest) addr) (hne : T.objects ≠ []) :
    ¬ Loaded T.toTables m := by
  obtain ⟨o, rest, heq⟩ := List.exists_cons_of_ne_nil hne
  have ho : o.id ∈ T.toTables.ids := List.mem_map_of_mem (heq ▸ List.mem_cons_self)
  obtain ⟨p, hp⟩ := exists_lists ho
  refine not_loaded_of_missing hrep hp fun he => ?_
  have hmem := he.2
  rw [kids_withObjects rows rfl] at hmem
  exact List.not_mem_nil hmem

/-- A fetch of a relationship threw: its child is not in the list. -/
theorem not_loaded_relationships_cut {rows : List ObjectRow} {order : Order}
    {throwsAt : Option Nat}
    (hrep : Represents m
      (withRelationships (fetched (order.arrange T.relationships) throwsAt)
        (withObjects rows startForest)) addr)
    (hthrow : throwsIn (order.arrange T.relationships) throwsAt = true) :
    ¬ Loaded T.toTables m := by
  obtain ⟨⟨p, c⟩, hmem, hlost⟩ :=
    exists_not_fetched ((order.perm _).nodup_iff.mpr T.relationships_nodup) hthrow
  have hr := (order.perm _).mem_iff.mp hmem
  obtain ⟨hp, hc⟩ := T.foreign_keys _ hr
  refine not_loaded_of_missing hrep (p := p) (c := c) ?_ fun he => ?_
  · unfold Tables.lists Tables.joins
    simp [hr, hp, hc]
  · exact hlost (edge_loaded he).1

end Cut

/-! ## §3. An object under the key of superRoot. -/

/-- The third loop finds a root to link exactly when there is one. -/
theorem any_isRoot_iff {T : SchemaTables} {m : Memory} {F : Forest Int String}
    {addr : Int → Addr} {order : Order} (order' iteration : Order) (hrep : Represents m F addr)
    (hkeys : F.keys = (withObjects (order.arrange T.objects) startForest).keys)
    (hlost : superRootKey ∈ T.toTables.ids) :
    ((iteration.arrange m.nodes.entries).any fun e => isRoot
        (childrenOf (order'.arrange T.relationships)
          (withObjects (order.arrange T.objects) startForest).keys) e.1) = true
      ↔ ∃ c ∈ T.toTables.ids, c ≠ superRootKey ∧ T.toTables.parented c = false := by
  have hmem : ∀ k, k ∈ F.keys ↔ k ∈ T.toTables.ids := by
    intro k
    rw [hkeys, mem_keys_loaded]
    constructor
    · intro h
      rcases h with rfl | h
      · exact hlost
      · exact h
    · exact Or.inr
  have hwithin : ∀ r ∈ T.relationships,
      r.within (withObjects (order.arrange T.objects) startForest).keys = T.joins r := by
    intro r hr
    obtain ⟨hp, hc⟩ := T.foreign_keys r hr
    rw [← hkeys]
    unfold RelationshipRow.within Tables.joins
    rw [decide_eq_decide, hmem, hmem]
  have hchild : ∀ c, c ∈ childrenOf (order'.arrange T.relationships)
      (withObjects (order.arrange T.objects) startForest).keys
      ↔ T.toTables.parented c = true := fun c => mem_childrenOf_loaded hwithin
  have hint : ∀ c ∈ T.toTables.ids, Tables.intMin ≤ c ∧ c ≤ Tables.intMax := by
    intro c hc
    obtain ⟨o, ho, rfl⟩ := List.mem_map.mp hc
    exact T.int_range o ho
  rw [List.any_eq_true]
  constructor
  · intro h
    obtain ⟨e, he, hroot⟩ := h
    obtain ⟨hno, hne⟩ := of_decide_eq_true hroot
    have hk := (hrep.entry ((iteration.perm _).mem_iff.mp he)).1
    refine ⟨e.1, (hmem _).mp hk, fun heq => hne (by rw [heq]; decide), ?_⟩
    rw [hchild] at hno
    simpa using hno
  · intro h
    obtain ⟨c, hc, hne, hno⟩ := h
    have hentry : (⟨c, some (addr c)⟩ : Sigma fun _ : Int => SharedPtr) ∈ m.nodes.entries :=
      AList.mem_lookup_iff.mp (hrep.find_of_mem ((hmem c).mpr hc))
    refine ⟨_, (iteration.perm _).mem_iff.mpr hentry, decide_eq_true ⟨?_, ?_⟩⟩
    · rw [hchild, hno]
      exact Bool.false_ne_true
    · exact toUInt_ne_superRoot (hint c hc) hne

/-! ## §4. The exact condition. -/

section Cases

variable {env : Startup} {T : SchemaTables}

/-- An interrupted load is no complete load, so it must not be served. -/
theorem allOrNothing_of_not_loaded {m : Memory}
    (hok : construct env T.toTables = .ok (m, env.connect.succeeds))
    (hcut : ¬ Loaded T.toTables m) :
    AllOrNothing env T.toTables ↔ env.connect ≠ .connected := by
  unfold AllOrNothing
  rw [hok]
  show (env.connect.succeeds = true → Loaded T.toTables m) ↔ _
  rw [Connect.succeeds_iff]
  exact ⟨fun h hc => hcut (h hc), fun hoff hc => absurd hc hoff⟩

/-- A fetch of the first SELECT threw. -/
theorem allOrNothing_objects_cut {order : Order} {throwsAt : Option Nat}
    (hopen : env.connect.opens = true) (hobj : env.objects = .resultSet order throwsAt)
    (hthrow : throwsIn (order.arrange T.objects) throwsAt = true) :
    AllOrNothing env T.toTables ↔ env.connect ≠ .connected := by
  obtain ⟨m, addr, hok, hrep, -⟩ := construct_objects_cut hopen hobj hthrow
  -- a fetch threw, so there was an object to fetch
  have hne : T.objects ≠ [] := by
    intro hnil
    obtain ⟨_, k, -, hk⟩ := throws_resultSet.mpr hthrow
    rw [hnil] at hk
    exact absurd hk (Nat.not_lt_zero k)
  exact allOrNothing_of_not_loaded hok (not_loaded_objects_cut hrep hne)

/-- A fetch of the second SELECT threw. -/
theorem allOrNothing_relationships_cut {order order' : Order}
    {throwsAt throwsAt' : Option Nat} (hopen : env.connect.opens = true)
    (hobj : env.objects = .resultSet order throwsAt)
    (hthrow : throwsIn (order.arrange T.objects) throwsAt = false)
    (hrel : env.relationships = .resultSet order' throwsAt')
    (hthrow' : throwsIn (order'.arrange T.relationships) throwsAt' = true) :
    AllOrNothing env T.toTables ↔ env.connect ≠ .connected := by
  obtain ⟨m, addr, hok, hrep, -⟩ :=
    construct_relationships_cut hopen hobj hthrow hrel hthrow'
  exact allOrNothing_of_not_loaded hok (not_loaded_relationships_cut hrep hthrow')

/-- Both tables were fetched. -/
theorem allOrNothing_fetched {order order' : Order} {throwsAt throwsAt' : Option Nat}
    (hopen : env.connect.opens = true) (hobj : env.objects = .resultSet order throwsAt)
    (hthrow : throwsIn (order.arrange T.objects) throwsAt = false)
    (hrel : env.relationships = .resultSet order' throwsAt')
    (hthrow' : throwsIn (order'.arrange T.relationships) throwsAt' = false) :
    AllOrNothing env T.toTables ↔ (env.connect = .connected →
      superRootKey ∈ T.toTables.ids →
        ∃ c ∈ T.toTables.ids, c ≠ superRootKey ∧ T.toTables.parented c = false) := by
  unfold AllOrNothing
  by_cases hlost : superRootKey ∈ T.toTables.ids
  case neg =>
    -- superRoot keeps its key: a complete load
    have hids : ∀ i ∈ T.toTables.ids, i ≠ superRootKey := fun i hi heq => hlost (heq ▸ hi)
    have hload : Loadable T.toTables := by
      refine ⟨T.ids_nodup, fun i hi => ?_, hlost, fun r hr => ?_⟩
      · obtain ⟨o, ho, rfl⟩ := List.mem_map.mp hi
        exact T.int_range o ho
      · exact ⟨hids _ (T.foreign_keys r hr).1, hids _ (T.foreign_keys r hr).2⟩
    obtain ⟨m, F, addr, hok, hrep, hroot, hF⟩ :=
      construct_fetched hload hopen hobj hthrow hrel hthrow'
    rw [hok]
    exact ⟨fun _ _ hmem => absurd hmem hlost,
      fun _ _ => Loaded.of_complete hload T.relationships_nodup hrep hroot hF⟩
  case pos =>
    -- the key of superRoot is taken: its pointer has expired
    obtain ⟨m, addr, hrep, hplace, heq⟩ :=
      construct_after_relationships hopen hobj hthrow hrel hthrow'
    have hlock : m.lock m.superRoot = none :=
      hplace.lock_eq_none ((ids_arrange order T.toTables).mem_iff.mpr hlost) hrep
    have hany := any_isRoot_iff order' env.iteration hrep
      (keys_withRelationships _ _) hlost
    rw [heq, foldlM_linkRoot_expired hlock]
    by_cases hex : ∃ c ∈ T.toTables.ids, c ≠ superRootKey ∧ T.toTables.parented c = false
    · rw [if_pos (hany.mpr hex)]
      exact ⟨fun _ _ _ => hex, fun _ => ⟨by decide, by decide⟩⟩
    · rw [if_neg (fun h => hex (hany.mp h))]
      show (env.connect.succeeds = true → Loaded T.toTables m) ↔ _
      rw [Connect.succeeds_iff]
      constructor
      · intro h hconn _
        obtain ⟨root, -, hlive⟩ := (h hconn).superRoot
        rw [hlock] at hlive
        cases hlive
      · intro h hconn
        exact absurd (h hconn hlost) hex

/-- **Startup is all or nothing exactly under the condition.** -/
theorem startup_all_or_nothing (env : Startup) (T : SchemaTables) :
    AllOrNothing env T.toTables ↔ env.Safe T.toTables := by
  cases hopen : env.connect.opens with
  | false =>
      have hconn : env.connect = .refused := by
        by_contra hne
        rw [Connect.opens_iff.mpr hne] at hopen
        cases hopen
      unfold AllOrNothing
      rw [construct_refused hopen]
      exact ⟨fun h => absurd rfl h.1, fun h => absurd hconn h.connection⟩
  | true =>
  have hconn : env.connect ≠ .refused := Connect.opens_iff.mp hopen
  cases hobj : env.objects with
  | null =>
      unfold AllOrNothing
      rw [construct_objects_null hopen hobj]
      exact ⟨fun h => absurd rfl h.2, fun h => absurd hobj h.objects⟩
  | resultSet order throwsAt =>
  have hobjects : env.objects ≠ .null := by
    rw [hobj]
    exact fun h => by cases h
  cases hthrow : throwsIn (order.arrange T.objects) throwsAt with
  | true =>
      have hthrows : env.objects.Throws T.objects := by
        rw [hobj]
        exact throws_resultSet.mpr hthrow
      rw [allOrNothing_objects_cut hopen hobj hthrow]
      exact ⟨fun hoff => ⟨hconn, hobjects, Or.inl hthrows, fun hc => absurd hc hoff,
          fun hc => absurd hc hoff⟩,
        fun h hc => absurd hthrows (h.fetches hc).1⟩
  | false =>
  have hcalm : ¬ env.objects.Throws T.objects := by
    rw [hobj, throws_resultSet, hthrow]
    exact Bool.false_ne_true
  cases hrel : env.relationships with
  | null =>
      unfold AllOrNothing
      rw [construct_relationships_null hopen hobj hthrow hrel]
      exact ⟨fun h => absurd rfl h.2,
        fun h => absurd hrel (h.relationships.resolve_left hcalm)⟩
  | resultSet order' throwsAt' =>
  have hrelationships : env.relationships ≠ .null := by
    rw [hrel]
    exact fun h => by cases h
  cases hthrow' : throwsIn (order'.arrange T.relationships) throwsAt' with
  | true =>
      have hthrows : env.relationships.Throws T.relationships := by
        rw [hrel]
        exact throws_resultSet.mpr hthrow'
      rw [allOrNothing_relationships_cut hopen hobj hthrow hrel hthrow']
      exact ⟨fun hoff => ⟨hconn, hobjects, Or.inr hrelationships, fun hc => absurd hc hoff,
          fun hc => absurd hc hoff⟩,
        fun h hc => absurd hthrows (h.fetches hc).2⟩
  | false =>
      have hcalm' : ¬ env.relationships.Throws T.relationships := by
        rw [hrel, throws_resultSet, hthrow']
        exact Bool.false_ne_true
      rw [allOrNothing_fetched hopen hobj hthrow hrel hthrow']
      exact ⟨fun h => ⟨hconn, hobjects, Or.inr hrelationships, fun _ => ⟨hcalm, hcalm'⟩, h⟩,
        fun h => h.root⟩

end Cases

/-- **The constructor follows a null result set and a null connection, and it
reports a connection although the fetch of the only object threw.** -/
theorem startup_not_all_or_nothing :
    ¬ AllOrNothing { Startup.whole with objects := .null } SchemaTables.selfParent.toTables
      ∧ ¬ AllOrNothing { Startup.whole with connect := .refused }
        SchemaTables.selfParent.toTables
      ∧ ¬ AllOrNothing { Startup.whole with objects := .resultSet .stored (some 0) }
        SchemaTables.selfParent.toTables := by
  refine ⟨fun h => h.2 rfl, fun h => h.1 rfl, fun h => ?_⟩
  have hloaded : Loaded SchemaTables.selfParent.toTables Memory.start := h rfl
  exact (hloaded.keys 1).mpr (Or.inr (by decide)) rfl

end ApiSyncer
