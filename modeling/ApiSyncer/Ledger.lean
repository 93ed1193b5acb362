/-
  ApiSyncer.Ledger
  ────────────────
  **WHAT HOLDS OF THE TABLES ALONG A RUN.**

  Tables that only this program writes give every object at most one parent
  row, and the rows can be ranked: the new node of `addNode` is the child of
  its row and its id was never handed out before.  Both facts hold of the
  committed tables and of what the session reads, whatever fails.

      Allocation       the ids handed out, with a rank each
      Consistent       the constraints of the schema, over the ids handed out
      Ledger           the tables, over an allocation
      Ledger.*         which writes keep it
      Inserted.ledger  the first INSERT of `addNode`
-/
import ApiSyncer.Exits

namespace ApiSyncer

open ApiSyncer.Lib

variable {mysql : MySQL} {env : Env} {db : Db} {stmt : Statement}

/-! ## §1. Statements that write no row. -/

/-- Session and transaction control. -/
def Statement.isControl : Statement → Bool
  | .setAutocommit _ | .commit | .rollback => true
  | _ => false

/-- A control statement fails, or is one of the four session commands. -/
theorem attempt_control (mysql : MySQL) (env : Env) (db : Db)
    (hc : stmt.isControl = true) :
    attempt mysql env stmt db = db
      ∨ (∃ on, attempt mysql env stmt db
          = { db with session := db.session.setAutocommit on })
      ∨ attempt mysql env stmt db = { db with session := db.session.commit }
      ∨ attempt mysql env stmt db = { db with session := db.session.rollback } := by
  unfold attempt
  rcases executeUpdate_cases mysql env stmt db with heq | ⟨n, db', -, hrun, heq⟩
  · exact Or.inl (by rw [heq])
  · rw [heq]
    cases stmt with
    | setAutocommit on =>
        exact Or.inr (Or.inl ⟨on, (Prod.mk.inj (Option.some.inj hrun)).2.symm⟩)
    | commit =>
        exact Or.inr (Or.inr (Or.inl (Prod.mk.inj (Option.some.inj hrun)).2.symm))
    | rollback =>
        exact Or.inr (Or.inr (Or.inr (Prod.mk.inj (Option.some.inj hrun)).2.symm))
    -- the other statements write rows
    | insertObject query => cases hc
    | insertRelationship c p => cases hc
    | deleteRelationships p => cases hc
    | deleteObject i => cases hc

/-- **A control statement keeps what holds of both the committed tables and the
view**, whether it fails or not. -/
theorem both_attempt {P : Tables → Prop} (hc : stmt.isControl = true)
    (h : Session.Both P db.session) :
    Session.Both P (attempt mysql env stmt db).session := by
  rcases attempt_control mysql env db hc with
    heq | ⟨on, heq⟩ | heq | heq
  · rw [heq]
    exact h
  · rw [heq]
    exact h.setAutocommit on
  · rw [heq]
    exact h.commit
  · rw [heq]
    exact h.rollback

@[simp] theorem allocated_attempt (hc : stmt.isControl = true) :
    (attempt mysql env stmt db).allocated = db.allocated := by
  rcases attempt_control mysql env db hc with
    heq | ⟨on, heq⟩ | heq | heq
  all_goals rw [heq]

/-- A call that fails changes nothing. -/
theorem attempt_fails (hf : env.fails stmt.call = true) : attempt mysql env stmt db = db := by
  unfold attempt
  rw [executeUpdate_fails hf]

theorem attempt_autocommitOff (hf : env.fails .autocommitOff = false) :
    attempt mysql env (.setAutocommit false) db
      = { db with session := db.session.setAutocommit false } := by
  unfold attempt
  rw [executeUpdate_ok hf rfl]

theorem attempt_autocommitOn (hf : env.fails .autocommitOn = false) :
    attempt mysql env (.setAutocommit true) db
      = { db with session := db.session.setAutocommit true } := by
  unfold attempt
  rw [executeUpdate_ok hf rfl]

theorem attempt_commit (hf : env.fails .commit = false) :
    attempt mysql env .commit db = { db with session := db.session.commit } := by
  unfold attempt
  rw [executeUpdate_ok hf rfl]

theorem attempt_rollback (hf : env.fails .rollback = false) :
    attempt mysql env .rollback db = { db with session := db.session.rollback } := by
  unfold attempt
  rw [executeUpdate_ok hf rfl]

/-- Autocommit stays on when the call fails. -/
theorem autocommit_autocommitOff (mysql : MySQL) (env : Env) (db : Db) :
    (attempt mysql env (.setAutocommit false) db).session.autocommit
      = (env.fails .autocommitOff && db.session.autocommit) := by
  cases hf : env.fails .autocommitOff with
  | true =>
      rw [show attempt mysql env (.setAutocommit false) db = db from attempt_fails hf]
      rfl
  | false =>
      rw [attempt_autocommitOff hf]
      rfl

/-! ## §2. Allocated ids and their ranks. -/

/-- The ids handed out so far are positive `int`s, ranked between superRoot
and `bound`. -/
structure Allocation (allocated : List Int) (rank : Int → ℕ) (bound : ℕ) : Prop where
  range : ∀ i ∈ allocated, 0 < i ∧ i ≤ Tables.intMax
  root : rank superRootKey = 0
  pos : ∀ i ∈ allocated, 0 < rank i
  lt : ∀ i ∈ allocated, rank i < bound
  bound_pos : 0 < bound

namespace Allocation

variable {allocated : List Int} {rank : Int → ℕ} {bound : ℕ}

theorem nil : Allocation [] (fun _ => 0) 1 :=
  ⟨fun _ h => (List.not_mem_nil h).elim, rfl, fun _ h => (List.not_mem_nil h).elim,
    fun _ h => (List.not_mem_nil h).elim, Nat.zero_lt_one⟩

theorem ne_superRootKey (h : Allocation allocated rank bound) {i : Int}
    (hi : i ∈ allocated) : i ≠ superRootKey := by
  have := (h.range i hi).1
  rw [superRootKey_eq]
  omega

theorem int_range (h : Allocation allocated rank bound) {i : Int}
    (hi : i = superRootKey ∨ i ∈ allocated) : Tables.intMin ≤ i ∧ i ≤ Tables.intMax := by
  have hmin : Tables.intMin = -2147483648 := rfl
  have hmax : Tables.intMax = 2147483647 := rfl
  rcases hi with rfl | hi
  · rw [superRootKey_eq]
    omega
  · have := h.range i hi
    omega

theorem rank_lt (h : Allocation allocated rank bound) {i : Int}
    (hi : i = superRootKey ∨ i ∈ allocated) : rank i < bound := by
  rcases hi with rfl | hi
  · rw [h.root]
    exact h.bound_pos
  · exact h.lt i hi

end Allocation

/-- New ids rank above all others, and the first of them, under which the node
goes into the map, above the rest: the rest may become its parents in the
tables. -/
def extendRank (rank : Int → ℕ) (bound : ℕ) (new_id : Int) (ids : List Int) : Int → ℕ :=
  fun k => if k = new_id then bound + 1 else if k ∈ ids then bound else rank k

section Extend

variable {rank : Int → ℕ} {bound : ℕ} {new_id k : Int} {ids : List Int}

theorem extendRank_self : extendRank rank bound new_id ids new_id = bound + 1 :=
  if_pos rfl

theorem extendRank_of_mem (hne : k ≠ new_id) (hk : k ∈ ids) :
    extendRank rank bound new_id ids k = bound := by
  unfold extendRank
  rw [if_neg hne, if_pos hk]

theorem extendRank_of_notMem (hmem : new_id ∈ ids) (hk : k ∉ ids) :
    extendRank rank bound new_id ids k = rank k := by
  unfold extendRank
  rw [if_neg (fun h : k = new_id => hk (h ▸ hmem)), if_neg hk]

end Extend

/-! ## §3. The tables. -/

/-- Tables over the ids handed out: unique ids, distinct rows, both foreign
keys. -/
structure Consistent (allocated : List Int) (T : Tables) : Prop where
  ids_nodup : T.ids.Nodup
  allocated : ∀ i ∈ T.ids, i ∈ allocated
  foreign_keys : T.ForeignKeys
  relationships_nodup : T.relationships.Nodup

namespace Consistent

variable {allocated allocated' : List Int} {T : Tables}

theorem child_mem_ids (h : Consistent allocated T) {p c : Int}
    (hr : ⟨p, c⟩ ∈ T.relationships) : c ∈ T.ids :=
  (h.foreign_keys _ hr).2

/-- More ids handed out. -/
theorem mono (h : Consistent allocated T) (hsub : ∀ i ∈ allocated, i ∈ allocated') :
    Consistent allocated' T where
  ids_nodup := h.ids_nodup
  allocated i hi := hsub i (h.allocated i hi)
  foreign_keys := h.foreign_keys
  relationships_nodup := h.relationships_nodup

theorem insertObjects (h : Consistent allocated T) {rows : List ObjectRow}
    (hnodup : (rows.map (·.id)).Nodup) (hfresh : ∀ r ∈ rows, r.id ∉ T.ids)
    (hmem : ∀ r ∈ rows, r.id ∈ allocated) :
    Consistent allocated (T.apply (.insertObjects rows)) where
  ids_nodup := by
    rw [Tables.ids_insertObjects, List.nodup_append]
    refine ⟨h.ids_nodup, hnodup, ?_⟩
    intro i hi j hj hij
    obtain ⟨r, hr, rfl⟩ := List.mem_map.mp hj
    exact hfresh r hr (hij ▸ hi)
  allocated i hi := by
    rw [Tables.ids_insertObjects, List.mem_append] at hi
    rcases hi with hi | hi
    · exact h.allocated i hi
    · obtain ⟨r, hr, rfl⟩ := List.mem_map.mp hi
      exact hmem r hr
  foreign_keys r hr := by
    rw [Tables.ids_insertObjects]
    obtain ⟨hp, hc⟩ := h.foreign_keys r hr
    exact ⟨List.mem_append_left _ hp, List.mem_append_left _ hc⟩
  relationships_nodup := h.relationships_nodup

/-- A row that the server admits. -/
theorem insertRelationship (h : Consistent allocated T) {row : RelationshipRow}
    (hadm : Db.admitsRelationship T row = true) :
    Consistent allocated (T.apply (.insertRelationship row)) where
  ids_nodup := h.ids_nodup
  allocated := h.allocated
  foreign_keys r hr := by
    rcases List.mem_append.mp hr with hr | hr
    · exact h.foreign_keys r hr
    · rw [List.mem_singleton.mp hr]
      exact (of_decide_eq_true hadm).2
  relationships_nodup := by
    rw [Tables.relationships_insertRelationship, List.nodup_append]
    refine ⟨h.relationships_nodup, List.nodup_singleton _, ?_⟩
    intro r hr r' hr' heq
    rw [List.mem_singleton.mp hr'] at heq
    exact (of_decide_eq_true hadm).1 (heq ▸ hr)

theorem deleteRelationships (h : Consistent allocated T) (p : Int) :
    Consistent allocated (T.apply (.deleteRelationships p)) where
  ids_nodup := h.ids_nodup
  allocated := h.allocated
  foreign_keys r hr :=
    h.foreign_keys r (Tables.mem_relationships_deleteRelationships.mp hr).1
  relationships_nodup := h.relationships_nodup.filter _

theorem deleteObject (h : Consistent allocated T) (id : Int) :
    Consistent allocated (T.apply (.deleteObject id)) where
  ids_nodup := h.ids_nodup.sublist (List.filter_sublist.map _)
  allocated i hi := h.allocated i (Tables.mem_ids_deleteObject.mp hi).1
  foreign_keys r hr := by
    obtain ⟨hT, hp, hc⟩ := Tables.mem_relationships_deleteObject.mp hr
    obtain ⟨hpT, hcT⟩ := h.foreign_keys r hT
    exact ⟨Tables.mem_ids_deleteObject.mpr ⟨hpT, hp⟩,
      Tables.mem_ids_deleteObject.mpr ⟨hcT, hc⟩⟩
  relationships_nodup := h.relationships_nodup.filter _

end Consistent

/-- Tables over the ids handed out: unique ids, both foreign keys, one parent
row per child, and rows that go up in rank except for self-loops. -/
structure Ledger (allocated : List Int) (rank : Int → ℕ) (T : Tables) : Prop where
  ids_nodup : T.ids.Nodup
  allocated : ∀ i ∈ T.ids, i ∈ allocated
  foreign_keys : T.ForeignKeys
  relationships_nodup : T.relationships.Nodup
  one_parent : ∀ p q c, ⟨p, c⟩ ∈ T.relationships → ⟨q, c⟩ ∈ T.relationships → p = q
  ranked : ∀ p c, ⟨p, c⟩ ∈ T.relationships → p ≠ c → rank p < rank c

namespace Ledger

variable {allocated allocated' : List Int} {rank rank' : Int → ℕ} {T : Tables}

theorem consistent (h : Ledger allocated rank T) : Consistent allocated T :=
  ⟨h.ids_nodup, h.allocated, h.foreign_keys, h.relationships_nodup⟩

/-- Consistent tables are a ledger when their rows are. -/
theorem of_consistent (h : Consistent allocated T)
    (hone : ∀ p q c, ⟨p, c⟩ ∈ T.relationships → ⟨q, c⟩ ∈ T.relationships → p = q)
    (hranked : ∀ p c, ⟨p, c⟩ ∈ T.relationships → p ≠ c → rank p < rank c) :
    Ledger allocated rank T :=
  ⟨h.ids_nodup, h.allocated, h.foreign_keys, h.relationships_nodup, hone, hranked⟩

theorem empty : Ledger allocated rank Tables.empty where
  ids_nodup := List.nodup_nil
  allocated _ h := (List.not_mem_nil h).elim
  foreign_keys _ h := (List.not_mem_nil h).elim
  relationships_nodup := List.nodup_nil
  one_parent _ _ _ h := (List.not_mem_nil h).elim
  ranked _ _ h := (List.not_mem_nil h).elim

theorem child_mem_ids (h : Ledger allocated rank T) {p c : Int}
    (hr : ⟨p, c⟩ ∈ T.relationships) : c ∈ T.ids :=
  (h.foreign_keys _ hr).2

theorem parent_mem_ids (h : Ledger allocated rank T) {p c : Int}
    (hr : ⟨p, c⟩ ∈ T.relationships) : p ∈ T.ids :=
  (h.foreign_keys _ hr).1

/-- More ids and a rank that agrees on the old ones. -/
theorem mono (h : Ledger allocated rank T) (hsub : ∀ i ∈ allocated, i ∈ allocated')
    (hrank : ∀ i ∈ allocated, rank' i = rank i) : Ledger allocated' rank' T := by
  refine of_consistent (h.consistent.mono hsub) h.one_parent fun p c hr hne => ?_
  rw [hrank p (h.allocated p (h.parent_mem_ids hr)),
    hrank c (h.allocated c (h.child_mem_ids hr))]
  exact h.ranked p c hr hne

theorem insertObjects (h : Ledger allocated rank T) {rows : List ObjectRow}
    (hnodup : (rows.map (·.id)).Nodup) (hfresh : ∀ r ∈ rows, r.id ∉ T.ids)
    (hmem : ∀ r ∈ rows, r.id ∈ allocated) :
    Ledger allocated rank (T.apply (.insertObjects rows)) :=
  of_consistent (h.consistent.insertObjects hnodup hfresh hmem) h.one_parent h.ranked

/-- A row for a child that has none yet. -/
theorem insertRelationship (h : Ledger allocated rank T) {p c : Int}
    (hadm : Db.admitsRelationship T ⟨p, c⟩ = true)
    (hno : ∀ q, ⟨q, c⟩ ∉ T.relationships) (hrank : p ≠ c → rank p < rank c) :
    Ledger allocated rank (T.apply (.insertRelationship ⟨p, c⟩)) := by
  refine of_consistent (h.consistent.insertRelationship hadm) ?_ ?_
  · intro q q' d hq hq'
    rcases List.mem_append.mp hq with hold | hnew <;>
      rcases List.mem_append.mp hq' with hold' | hnew'
    -- a new row beside an old one would be a second parent
    · exact h.one_parent q q' d hold hold'
    · obtain ⟨-, rfl⟩ := RelationshipRow.mk.inj (List.mem_singleton.mp hnew')
      exact absurd hold (hno q)
    · obtain ⟨-, rfl⟩ := RelationshipRow.mk.inj (List.mem_singleton.mp hnew)
      exact absurd hold' (hno q')
    · obtain ⟨rfl, -⟩ := RelationshipRow.mk.inj (List.mem_singleton.mp hnew)
      obtain ⟨rfl, -⟩ := RelationshipRow.mk.inj (List.mem_singleton.mp hnew')
      rfl
  · intro q d hq hne
    rcases List.mem_append.mp hq with hq | hq
    · exact h.ranked q d hq hne
    · obtain ⟨rfl, rfl⟩ := RelationshipRow.mk.inj (List.mem_singleton.mp hq)
      exact hrank hne

theorem deleteRelationships (h : Ledger allocated rank T) (p : Int) :
    Ledger allocated rank (T.apply (.deleteRelationships p)) :=
  of_consistent (h.consistent.deleteRelationships p)
    (fun q q' d hq hq' =>
      h.one_parent q q' d (Tables.mem_relationships_deleteRelationships.mp hq).1
        (Tables.mem_relationships_deleteRelationships.mp hq').1)
    fun q d hq => h.ranked q d (Tables.mem_relationships_deleteRelationships.mp hq).1

theorem deleteObject (h : Ledger allocated rank T) (id : Int) :
    Ledger allocated rank (T.apply (.deleteObject id)) :=
  of_consistent (h.consistent.deleteObject id)
    (fun q q' d hq hq' => h.one_parent q q' d (Tables.mem_relationships_deleteObject.mp hq).1
      (Tables.mem_relationships_deleteObject.mp hq').1)
    fun q d hq => h.ranked q d (Tables.mem_relationships_deleteObject.mp hq).1

end Ledger

/-! ## §4. The first INSERT of `addNode`. -/

section Inserted

variable {name : String} {s : State} {new_id : Int} {rows : List ObjectRow}
  {rank : Int → ℕ} {bound : ℕ}

namespace Inserted

theorem fresh (hi : Inserted mysql name env s new_id rows db) {i : Int}
    (h : i ∈ rows.map (·.id)) : 0 < i ∧ i ≤ Tables.intMax ∧ i ∉ s.db.allocated := by
  obtain ⟨r, hr, rfl⟩ := List.mem_map.mp h
  have := hi.effect.fresh r hr
  rwa [allocated_attempt rfl] at this

theorem new_id_mem (hi : Inserted mysql name env s new_id rows db) :
    new_id ∈ rows.map (·.id) := by
  obtain ⟨row, rest, rfl, rfl⟩ := hi.effect.head
  exact List.mem_map_of_mem List.mem_cons_self

theorem new_id_pos (hi : Inserted mysql name env s new_id rows db) : 0 < new_id :=
  (hi.fresh hi.new_id_mem).1

/-- `addNode` returns an id that is not its -1. -/
theorem new_id_ne (hi : Inserted mysql name env s new_id rows db) : new_id ≠ -1 := by
  have := hi.new_id_pos
  omega

theorem new_id_ne_superRootKey (hi : Inserted mysql name env s new_id rows db) :
    new_id ≠ superRootKey := by
  rw [superRootKey_eq]
  exact hi.new_id_ne

theorem allocated_eq (hi : Inserted mysql name env s new_id rows db) :
    db.allocated = s.db.allocated ++ rows.map (·.id) := by
  rw [hi.effect.allocated, allocated_attempt rfl]

/-- What the session reads after it. -/
theorem view_eq (hi : Inserted mysql name env s new_id rows db) :
    db.view = s.db.view.apply (.insertObjects rows) := by
  have hview : db.view = (attempt mysql env (.setAutocommit false) s.db).view.apply
      (.insertObjects rows) := by
    unfold Db.view
    rw [hi.effect.session, Session.view_write]
    rfl
  rw [hview, view_autocommitOff]

/-- An old id keeps its rank. -/
theorem extendRank_old (hi : Inserted mysql name env s new_id rows db) {i : Int}
    (h : i ∈ s.db.allocated) :
    extendRank rank bound new_id (rows.map (·.id)) i = rank i :=
  extendRank_of_notMem hi.new_id_mem fun hmem => (hi.fresh hmem).2.2 h

theorem extendRank_root (hi : Inserted mysql name env s new_id rows db) :
    extendRank rank bound new_id (rows.map (·.id)) superRootKey = rank superRootKey := by
  refine extendRank_of_notMem hi.new_id_mem fun hmem => ?_
  have := (hi.fresh hmem).1
  rw [superRootKey_eq] at this
  omega

theorem allocation (hi : Inserted mysql name env s new_id rows db)
    (h : Allocation s.db.allocated rank bound) :
    Allocation db.allocated (extendRank rank bound new_id (rows.map (·.id))) (bound + 2) := by
  rw [hi.allocated_eq]
  -- the rank of a new id is `bound` or `bound + 1`
  have hnew : ∀ i ∈ rows.map (·.id),
      bound ≤ extendRank rank bound new_id (rows.map (·.id)) i
        ∧ extendRank rank bound new_id (rows.map (·.id)) i < bound + 2 := by
    intro i hmem
    by_cases heq : i = new_id
    · subst heq
      rw [extendRank_self]
      omega
    · rw [extendRank_of_mem heq hmem]
      omega
  constructor
  · intro i hmem
    rcases List.mem_append.mp hmem with hold | hmem
    · exact h.range i hold
    · exact ⟨(hi.fresh hmem).1, (hi.fresh hmem).2.1⟩
  · rw [hi.extendRank_root]
    exact h.root
  · intro i hmem
    rcases List.mem_append.mp hmem with hold | hmem
    · rw [hi.extendRank_old hold]
      exact h.pos i hold
    · have := (hnew i hmem).1
      have := h.bound_pos
      omega
  · intro i hmem
    rcases List.mem_append.mp hmem with hold | hmem
    · rw [hi.extendRank_old hold]
      have := h.lt i hold
      omega
    · exact (hnew i hmem).2
  · omega

/-- **The first INSERT keeps the ledger**, and no row names the new id yet. -/
theorem ledger (hi : Inserted mysql name env s new_id rows db) (bound : ℕ)
    (h : Session.Both (Ledger s.db.allocated rank) s.db.session) :
    Session.Both (fun T =>
        Ledger db.allocated (extendRank rank bound new_id (rows.map (·.id))) T
        ∧ ∀ q, ⟨q, new_id⟩ ∉ T.relationships) db.session := by
  rw [hi.effect.session]
  have hold : Session.Both (fun T =>
      (Ledger db.allocated (extendRank rank bound new_id (rows.map (·.id))) T
        ∧ ∀ q, ⟨q, new_id⟩ ∉ T.relationships) ∧ ∀ i ∈ T.ids, i ∈ s.db.allocated)
      (attempt mysql env (.setAutocommit false) s.db).session := by
    refine (both_attempt rfl h).imp fun T hT => ⟨⟨?_, ?_⟩, hT.allocated⟩
    · refine hT.mono (fun i hi' => ?_) (fun i hi' => hi.extendRank_old hi')
      rw [hi.allocated_eq]
      exact List.mem_append_left _ hi'
    · intro q hq
      exact (hi.fresh hi.new_id_mem).2.2 (hT.allocated _ (hT.child_mem_ids hq))
  refine (Session.Both.write (hold.imp fun T hT => hT.1) fun _ => ?_)
  obtain ⟨⟨hT, hno⟩, hids⟩ := hold.view
  refine ⟨hT.insertObjects hi.effect.nodup ?_ ?_, hno⟩
  · intro r hr hmem
    exact (hi.fresh (List.mem_map_of_mem hr)).2.2 (hids _ hmem)
  · intro r hr
    rw [hi.allocated_eq]
    exact List.mem_append_right _ (List.mem_map_of_mem hr)

/-- The INSERT of the relationship keeps it as well. -/
theorem ledger_relationship (hi : Inserted mysql name env s new_id rows db)
    (halloc : Allocation s.db.allocated rank bound)
    (h : Session.Both (Ledger s.db.allocated rank) s.db.session) {parent_id : Int}
    (hadm : Db.admitsRelationship db.view ⟨parent_id, new_id⟩ = true) :
    Session.Both (Ledger db.allocated (extendRank rank bound new_id (rows.map (·.id))))
      (db.session.write (.insertRelationship ⟨parent_id, new_id⟩)) := by
  have hboth := hi.ledger bound h
  have hp : parent_id ∈ db.view.ids := (of_decide_eq_true hadm).2.1
  refine Session.Both.write (hboth.imp fun T hT => hT.1) fun hT => ?_
  refine hT.insertRelationship hadm hboth.view.2 fun hne => ?_
  have hmem : parent_id ∈ s.db.allocated ++ rows.map (·.id) := by
    rw [← hi.allocated_eq]
    exact hT.allocated _ hp
  -- a parent is an old object or another row of the same INSERT
  rw [extendRank_self]
  rcases List.mem_append.mp hmem with hold | hnew
  · rw [hi.extendRank_old hold]
    have := halloc.lt _ hold
    omega
  · rw [extendRank_of_mem hne hnew]
    omega

end Inserted

end Inserted

end ApiSyncer
