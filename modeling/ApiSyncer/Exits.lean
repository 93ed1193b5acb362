/-
  ApiSyncer.Exits
  ───────────────
  **EVERY EXIT OF `addNode` AND `removeNode`.**

  `AddExit` and `RemoveExit` list, exit by exit, what has to have happened for
  the method to leave there and the exact state it leaves.  The invariants of
  the other modules are case analyses over these two lists; no other module
  unfolds the methods.

      addNode_spec / removeNode_spec   a call leaves through one exit, or
                                       follows a null pointer
      removeNode_split                 the exits before and after the unlinking
      serves_cases                     what a request that returned did
-/
import ApiSyncer.Routes

namespace ApiSyncer

open ApiSyncer.Lib

variable {mysql : MySQL} {env : Env} {s s' : State}

/-! ## §1. The exits of `addNode`. -/

/-- The memory once the new node is in the map. -/
def State.stored (s : State) (new_id : Int) (name : String) : Memory :=
  s.mem.store new_id (ObjectNode.ofInt new_id name)

/-- The first part of `addNode` went through: the INSERT added `rows`, the
first under `new_id`, and the server is at `db`. -/
structure Inserted (mysql : MySQL) (name : String) (env : Env) (s : State)
    (new_id : Int) (rows : List ObjectRow) (db : Db) : Prop where
  effect : InsertsObjects mysql env (insertObjectQuery name)
    (attempt mysql env (.setAutocommit false) s.db) db new_id rows
  ran : (executeUpdate mysql env (.insertObject (insertObjectQuery name))
    (attempt mysql env (.setAutocommit false) s.db)).1 ≠ -1

/-- The exits of `addNode`, each with its result and the state it leaves. -/
inductive AddExit (mysql : MySQL) (name : String) (parent_id : Int) (env : Env)
    (s : State) : Int → State → Prop where
  /-- the first INSERT gave -1 -/
  | insertRefused :
      (executeUpdate mysql env (.insertObject (insertObjectQuery name))
        (attempt mysql env (.setAutocommit false) s.db)).1 = -1 →
      AddExit mysql name parent_id env s (-1)
        ⟨attempt mysql env .rollback (attempt mysql env (.setAutocommit false) s.db),
          s.mem⟩
  /-- the LAST_INSERT_ID query gave null: no ROLLBACK -/
  | idLost {new_id : Int} {rows : List ObjectRow} {db : Db} :
      Inserted mysql name env s new_id rows db →
      env.fails .lastInsertId = true →
      AddExit mysql name parent_id env s (-1) ⟨db, s.mem⟩
  /-- the INSERT of the relationship gave -1 -/
  | relationshipRefused {new_id : Int} {rows : List ObjectRow} {db : Db} :
      Inserted mysql name env s new_id rows db →
      env.fails .lastInsertId = false →
      parent_id ≠ -1 →
      (executeUpdate mysql env (.insertRelationship new_id parent_id) db).1 = -1 →
      AddExit mysql name parent_id env s (-1)
        ⟨attempt mysql env .rollback db, s.stored new_id name⟩
  /-- the parent is not in the map -/
  | parentUnknown {new_id : Int} {rows : List ObjectRow} {db : Db} :
      Inserted mysql name env s new_id rows db →
      env.fails .lastInsertId = false →
      parent_id ≠ -1 →
      env.fails .insertRelationship = false →
      Db.admitsRelationship db.view ⟨parent_id, new_id⟩ = true →
      (∀ a, (s.stored new_id name).find parent_id ≠ some (some a)) →
      AddExit mysql name parent_id env s (-1)
        ⟨attempt mysql env .rollback
          { db with session := db.session.write (.insertRelationship ⟨parent_id, new_id⟩) },
          s.stored new_id name⟩
  /-- success under a parent -/
  | linked {new_id : Int} {rows : List ObjectRow} {db : Db} {a : Addr} :
      Inserted mysql name env s new_id rows db →
      env.fails .lastInsertId = false →
      parent_id ≠ -1 →
      env.fails .insertRelationship = false →
      Db.admitsRelationship db.view ⟨parent_id, new_id⟩ = true →
      (s.stored new_id name).find parent_id = some (some a) →
      AddExit mysql name parent_id env s new_id
        ⟨attempt mysql env (.setAutocommit true)
          { db with session := db.session.write (.insertRelationship ⟨parent_id, new_id⟩) },
          (s.stored new_id name).modify a (·.pushChild (some s.mem.next))⟩
  /-- success without a parent -/
  | rooted {new_id : Int} {rows : List ObjectRow} {db : Db} {a : Addr} :
      Inserted mysql name env s new_id rows db →
      env.fails .lastInsertId = false →
      parent_id = -1 →
      (s.stored new_id name).lock s.mem.superRoot = some a →
      AddExit mysql name parent_id env s new_id
        ⟨attempt mysql env (.setAutocommit true) db,
          (s.stored new_id name).modify a (·.pushChild (some s.mem.next))⟩

theorem fetchFirst_some (rows : List Int) : fetchFirst (some rows) = .ok rows.head? := rfl

/-- The answer of the LAST_INSERT_ID query. -/
theorem executeQuery_lastInsertId (env : Env) (db : Db) :
    executeQuery env .lastInsertId db
      = if env.fails .lastInsertId = true then none else some [db.lastInsertId] := by
  unfold executeQuery
  show (if env.fails .lastInsertId = true then none
      else some (env.order.arrange [db.lastInsertId])) = _
  rw [Order.arrange_singleton]

/-- **`addNode` leaves through one of its exits, or follows the null of an
expired `superRoot`.** -/
theorem addNode_spec (mysql : MySQL) (name : String) (parent_id : Int) (env : Env)
    (s : State) :
    (∃ r s', addNode mysql name parent_id env s = .ok (r, s')
      ∧ AddExit mysql name parent_id env s r s')
    ∨ (addNode mysql name parent_id env s = .error .nullNode
      ∧ ∃ new_id rows db, Inserted mysql name env s new_id rows db
        ∧ (s.stored new_id name).lock s.mem.superRoot = none) := by
  unfold addNode
  rcases executeUpdate_cases mysql env (.insertObject (insertObjectQuery name))
      (attempt mysql env (.setAutocommit false) s.db) with heq | ⟨n, db, hf, hrun, heq⟩
  · -- the first INSERT is refused
    refine Or.inl ⟨_, _, ?_, .insertRefused (by rw [heq])⟩
    simp only [heq]
    rfl
  -- the count of an update that ran is not the -1 of one that threw
  have hne : (n : Int) ≠ -1 := by omega
  obtain ⟨new_id, rows, hins⟩ := Db.run_insertObject hrun
  have hinserted : Inserted mysql name env s new_id rows db := ⟨hins, by rw [heq]; exact hne⟩
  simp only [heq, if_neg hne, executeQuery_lastInsertId]
  cases hlast : env.fails .lastInsertId with
  | true => exact Or.inl ⟨_, _, rfl, .idLost hinserted hlast⟩
  -- from here on the map holds the new node
  | false =>
      have hstore : s.mem.store new_id (ObjectNode.ofInt new_id name)
          = s.stored new_id name := rfl
      have hindex : (s.stored new_id name).index new_id = some s.mem.next :=
        Memory.index_store_self
      simp only [Bool.false_eq_true, if_false, Option.isNone_some, hins.lastInsertId,
        fetchFirst_some, List.head?_cons, ok_bind, hstore, hindex]
      by_cases hroot : parent_id = -1
      · -- no parent: superRoot takes the node
        rw [if_neg (not_not.mpr hroot)]
        cases hlock : (s.stored new_id name).lock s.mem.superRoot with
        | none =>
            refine Or.inr ⟨?_, new_id, rows, db, hinserted, hlock⟩
            show (Memory.deref ((s.stored new_id name).lock s.mem.superRoot) >>= _) = _
            rw [hlock]
            rfl
        | some a =>
            refine Or.inl ⟨_, _, ?_, .rooted hinserted hlast hroot hlock⟩
            show (Memory.deref ((s.stored new_id name).lock s.mem.superRoot) >>= _) = _
            rw [hlock]
            rfl
      · rw [if_pos hroot]
        rcases executeUpdate_cases mysql env (.insertRelationship new_id parent_id) db
          with heq₂ | ⟨n₂, db₂, hf₂, hrun₂, heq₂⟩
        · -- the second INSERT is refused
          refine Or.inl ⟨_, _, ?_,
            .relationshipRefused hinserted hlast hroot (by rw [heq₂])⟩
          simp only [heq₂]
          rfl
        · have hne₂ : (n₂ : Int) ≠ -1 := by omega
          obtain ⟨hadm, rfl⟩ := Db.run_insertRelationship hrun₂
          simp only [heq₂, if_neg hne₂]
          -- `nodes.find(parent_id)`, which sees the new node as well
          split
          next a hfind =>
              exact Or.inl ⟨_, _, rfl, .linked hinserted hlast hroot hf₂ hadm hfind⟩
          next hfind =>
              exact Or.inl ⟨_, _, rfl,
                .parentUnknown hinserted hlast hroot hf₂ hadm (fun a ha => hfind a ha)⟩

/-- What `addNode` did, when it returned. -/
theorem addNode_exit {name : String} {parent_id r : Int}
    (h : addNode mysql name parent_id env s = .ok (r, s')) :
    AddExit mysql name parent_id env s r s' := by
  rcases addNode_spec mysql name parent_id env s with ⟨r', s₁, hok, hexit⟩ | ⟨herr, -⟩
  · rw [hok] at h
    obtain ⟨rfl, rfl⟩ := Prod.mk.inj (Except.ok.inj h)
    exact hexit
  · rw [herr] at h
    cases h

/-- **What an `addNode` that returned an id did on the server**: the first INSERT,
under a parent the second, and the last statement turns autocommit on. -/
theorem AddExit.exists_inserted {name : String} {parent_id r : Int}
    (h : AddExit mysql name parent_id env s r s') (hr : r ≠ -1) :
    ∃ rows db db', Inserted mysql name env s r rows db
      ∧ s'.db = attempt mysql env (.setAutocommit true) db'
      ∧ db'.view.objects = db.view.objects ∧ db'.allocated = db.allocated
      ∧ db'.session.autocommit = db.session.autocommit := by
  cases h with
  | insertRefused => exact absurd rfl hr
  | idLost => exact absurd rfl hr
  | relationshipRefused => exact absurd rfl hr
  | parentUnknown => exact absurd rfl hr
  | @linked new_id rows db a hi =>
      refine ⟨rows, db, _, hi, rfl, ?_, rfl, Session.autocommit_write _ _⟩
      unfold Db.view
      rw [Session.view_write]
      rfl
  | @rooted new_id rows db a hi => exact ⟨rows, db, db, hi, rfl, rfl, rfl, rfl⟩

/-! ## §2. The exits of `removeNode`. -/

/-- The node of `id` is in the map, at `node`, and lists nothing. -/
structure Leaf (s : State) (id : Int) (node : Addr) : Prop where
  find : s.mem.find id = some (some node)
  childless : (s.mem.heap node).children = []

/-- The memory once `node` has left the child list of `parent`. -/
def State.unlinked (s : State) (parent node : Addr) : Memory :=
  s.mem.modify parent (·.removeChild s.mem.lock (some node))

/-- The server after the two DELETEs of `removeNode`, or after the first. -/
def Db.deleted (db : Db) (parent_id : Int) : Db :=
  { db with session := db.session.write (.deleteRelationships parent_id) }

def Db.deletedObject (db : Db) (id : Int) : Db :=
  { db with session := db.session.write (.deleteObject id) }

/-- The exits of `removeNode`, each with the state it leaves. -/
inductive RemoveExit (mysql : MySQL) (id : Int) (env : Env) (s : State) : State → Prop where
  /-- no entry in the map -/
  | notFound : s.mem.find id = none → RemoveExit mysql id env s s
  /-- the node lists something -/
  | hasChildren {node : Addr} :
      s.mem.find id = some (some node) → (s.mem.heap node).children ≠ [] →
      RemoveExit mysql id env s s
  /-- the query for the parent gave null -/
  | queryFailed {node : Addr} :
      Leaf s id node → env.fails .selectParent = true →
      RemoveExit mysql id env s ⟨attempt mysql env (.setAutocommit false) s.db, s.mem⟩
  /-- no row has `id` as its child: nothing is deleted -/
  | noParent {node : Addr} :
      Leaf s id node → env.fails .selectParent = false →
      (∀ p, ⟨p, id⟩ ∉ s.db.view.relationships) →
      RemoveExit mysql id env s ⟨attempt mysql env (.setAutocommit false) s.db, s.mem⟩
  /-- the parent of the row is not in the map -/
  | parentMissing {node : Addr} {parent_id : Int} :
      Leaf s id node → env.fails .selectParent = false →
      ⟨parent_id, id⟩ ∈ s.db.view.relationships →
      s.mem.find parent_id = none →
      RemoveExit mysql id env s
        ⟨attempt mysql env (.setAutocommit true) (attempt mysql env .rollback
          (attempt mysql env (.setAutocommit false) s.db)), s.mem⟩
  /-- the first DELETE gave -1, after the node was unlinked in memory -/
  | relationshipsKept {node parent : Addr} {parent_id : Int} :
      Leaf s id node → env.fails .selectParent = false →
      ⟨parent_id, id⟩ ∈ s.db.view.relationships →
      s.mem.find parent_id = some (some parent) →
      env.fails .deleteRelationships = true →
      RemoveExit mysql id env s
        ⟨attempt mysql env .rollback (attempt mysql env (.setAutocommit false) s.db),
          s.unlinked parent node⟩
  /-- the second DELETE gave -1 -/
  | objectKept {node parent : Addr} {parent_id : Int} :
      Leaf s id node → env.fails .selectParent = false →
      ⟨parent_id, id⟩ ∈ s.db.view.relationships →
      s.mem.find parent_id = some (some parent) →
      env.fails .deleteRelationships = false →
      env.fails .deleteObject = true →
      RemoveExit mysql id env s
        ⟨attempt mysql env .rollback
          ((attempt mysql env (.setAutocommit false) s.db).deleted parent_id),
          s.unlinked parent node⟩
  /-- the node is gone -/
  | removed {node parent : Addr} {parent_id : Int} :
      Leaf s id node → env.fails .selectParent = false →
      ⟨parent_id, id⟩ ∈ s.db.view.relationships →
      s.mem.find parent_id = some (some parent) →
      env.fails .deleteRelationships = false →
      env.fails .deleteObject = false →
      RemoveExit mysql id env s
        ⟨attempt mysql env (.setAutocommit true) (attempt mysql env .commit
          (((attempt mysql env (.setAutocommit false) s.db).deleted parent_id).deletedObject id)),
          (s.unlinked parent node).erase id⟩

/-- Changing the mode, or failing to, leaves what the session reads. -/
theorem view_setAutocommit (mysql : MySQL) (env : Env) (on : Bool) (db : Db) :
    (attempt mysql env (.setAutocommit on) db).view = db.view := by
  unfold attempt
  rcases executeUpdate_cases mysql env (.setAutocommit on) db with
    heq | ⟨n, db', -, hrun, heq⟩
  · rw [heq]
  · rw [heq]
    obtain ⟨-, rfl⟩ := Prod.mk.inj (Option.some.inj hrun)
    cases on <;> rfl

theorem view_autocommitOff (mysql : MySQL) (env : Env) (db : Db) :
    (attempt mysql env (.setAutocommit false) db).view = db.view :=
  view_setAutocommit mysql env false db

/-- The query for the parent delivers the parents of the rows of `id`. -/
theorem head_parentsOf (env : Env) (db : Db) (id : Int) :
    ((env.order.arrange (db.rows (.parentsOf id))).head? = none
        ∧ ∀ p, ⟨p, id⟩ ∉ db.view.relationships)
      ∨ ∃ p, (env.order.arrange (db.rows (.parentsOf id))).head? = some p
        ∧ ⟨p, id⟩ ∈ db.view.relationships := by
  have hmem : ∀ p, p ∈ env.order.arrange (db.rows (.parentsOf id))
      ↔ ⟨p, id⟩ ∈ db.view.relationships := by
    intro p
    rw [(env.order.perm _).mem_iff]
    simp only [Db.rows, List.mem_map, List.mem_filter, decide_eq_true_eq]
    constructor
    · intro h
      obtain ⟨⟨q, c⟩, ⟨hr, rfl⟩, rfl⟩ := h
      exact hr
    · intro h
      exact ⟨⟨p, id⟩, ⟨h, rfl⟩, rfl⟩
  cases hlist : env.order.arrange (db.rows (.parentsOf id)) with
  | nil =>
      refine Or.inl ⟨rfl, fun p hp => ?_⟩
      have := (hmem p).mpr hp
      rw [hlist] at this
      cases this
  | cons p ps =>
      refine Or.inr ⟨p, rfl, (hmem p).mp ?_⟩
      rw [hlist]
      exact List.mem_cons_self

/-- The parent that the query delivers first. -/
def State.delivered (s : State) (env : Env) (id : Int) : Option Int :=
  (env.order.arrange (s.db.rows (.parentsOf id))).head?

/-- `removeNode id` comes as far as unlinking: the leaf at `node`, from the
object `parent` that the map holds for the parent `p` delivered first. -/
structure Detaches (id : Int) (env : Env) (s : State) (p : Int) (node parent : Addr) :
    Prop where
  leaf : Leaf s id node
  selects : env.fails .selectParent = false
  delivered : s.delivered env id = some p
  find : s.mem.find p = some (some parent)

/-- What is delivered is the parent of a row. -/
theorem State.row_of_delivered {id p : Int} (h : s.delivered env id = some p) :
    ⟨p, id⟩ ∈ s.db.view.relationships := by
  rcases head_parentsOf env s.db id with ⟨hhead, -⟩ | ⟨q, hhead, hq⟩
  · have := h.symm.trans hhead
    cases this
  · rwa [Option.some.inj (h.symm.trans hhead)]

theorem Detaches.row {id p : Int} {node parent : Addr} (h : Detaches id env s p node parent) :
    ⟨p, id⟩ ∈ s.db.view.relationships := State.row_of_delivered h.delivered

/-- The request determines what is unlinked from what. -/
theorem Detaches.unique {id p p' : Int} {node node' parent parent' : Addr}
    (h : Detaches id env s p node parent) (h' : Detaches id env s p' node' parent') :
    p = p' ∧ node = node' ∧ parent = parent' := by
  have hp : p = p' := Option.some.inj (h.delivered.symm.trans h'.delivered)
  subst hp
  have hnode := Option.some.inj (h.leaf.find.symm.trans h'.leaf.find)
  have hparent := Option.some.inj (h.find.symm.trans h'.find)
  exact ⟨rfl, Option.some.inj hnode, Option.some.inj hparent⟩

theorem Detaches.exists_iff {id p : Int} {node parent : Addr} {X : Int → Addr → Addr → Prop}
    (h : Detaches id env s p node parent) :
    (∃ p node parent, Detaches id env s p node parent ∧ X p node parent) ↔ X p node parent := by
  constructor
  · intro hex
    obtain ⟨p', node', parent', h', hX⟩ := hex
    obtain ⟨rfl, rfl, rfl⟩ := h.unique h'
    exact hX
  · intro hX
    exact ⟨p, node, parent, h, hX⟩

/-- `removeNode id` comes as far as the parent and does not find it in the
map. -/
structure Strays (id : Int) (env : Env) (s : State) (p : Int) : Prop where
  leaf : ∃ node, Leaf s id node
  selects : env.fails .selectParent = false
  delivered : s.delivered env id = some p
  missing : s.mem.find p = none

theorem Strays.row {id p : Int} (h : Strays id env s p) : ⟨p, id⟩ ∈ s.db.view.relationships :=
  State.row_of_delivered h.delivered

/-- The state in which `removeNode` leaves before it has unlinked anything. -/
inductive KeptExit (mysql : MySQL) (id : Int) (env : Env) (s : State) : State → Prop where
  | untouched : (∀ p, ¬ Strays id env s p) → KeptExit mysql id env s s
  | autocommitOff : (∀ p, ¬ Strays id env s p) →
      KeptExit mysql id env s ⟨attempt mysql env (.setAutocommit false) s.db, s.mem⟩
  | rolledBack {p : Int} : Strays id env s p →
      KeptExit mysql id env s
        ⟨attempt mysql env (.setAutocommit true) (attempt mysql env .rollback
          (attempt mysql env (.setAutocommit false) s.db)), s.mem⟩

/-- The state in which `removeNode` leaves after it has unlinked the node. -/
inductive DetachExit (mysql : MySQL) (id : Int) (env : Env) (s : State) (p : Int)
    (node parent : Addr) : State → Prop where
  | relationshipsKept : env.fails .deleteRelationships = true →
      DetachExit mysql id env s p node parent
        ⟨attempt mysql env .rollback (attempt mysql env (.setAutocommit false) s.db),
          s.unlinked parent node⟩
  | objectKept : env.fails .deleteRelationships = false → env.fails .deleteObject = true →
      DetachExit mysql id env s p node parent
        ⟨attempt mysql env .rollback
          ((attempt mysql env (.setAutocommit false) s.db).deleted p), s.unlinked parent node⟩
  | removed : env.fails .deleteRelationships = false → env.fails .deleteObject = false →
      DetachExit mysql id env s p node parent
        ⟨attempt mysql env (.setAutocommit true) (attempt mysql env .commit
          (((attempt mysql env (.setAutocommit false) s.db).deleted p).deletedObject id)),
          (s.unlinked parent node).erase id⟩

/-- The node is erased when neither DELETE fails. -/
theorem DetachExit.erased {id p : Int} {node parent : Addr}
    (h : DetachExit mysql id env s p node parent s')
    (hf : env.fails .deleteRelationships = false) (hf₂ : env.fails .deleteObject = false) :
    s'.mem.find id = none := by
  cases h with
  | relationshipsKept hfail =>
      rw [hf] at hfail
      cases hfail
  | objectKept _ hfail =>
      rw [hf₂] at hfail
      cases hfail
  | removed => exact Memory.find_erase_self

/-- Which of the two it is, and where. -/
def RemoveSplit (mysql : MySQL) (id : Int) (env : Env) (s s' : State) : Prop :=
  (∀ p node parent, ¬ Detaches id env s p node parent) ∧ KeptExit mysql id env s s'
    ∨ ∃ p node parent, Detaches id env s p node parent
      ∧ DetachExit mysql id env s p node parent s'

theorem RemoveSplit.kept {id : Int}
    (h : ∀ p node parent, ¬ Detaches id env s p node parent)
    (hexit : KeptExit mysql id env s s') : RemoveSplit mysql id env s s' := Or.inl ⟨h, hexit⟩

/-- A DELETE fails only when its call fails: no constraint refuses it, since
both foreign keys cascade. -/
theorem executeUpdate_deleteRelationships (mysql : MySQL) (env : Env) (p : Int) (db : Db) :
    (env.fails .deleteRelationships = true
        ∧ executeUpdate mysql env (.deleteRelationships p) db = (-1, db))
      ∨ (env.fails .deleteRelationships = false
        ∧ ∃ n : Nat, executeUpdate mysql env (.deleteRelationships p) db
          = (↑n, db.deleted p)) := by
  cases hf : env.fails .deleteRelationships with
  | true => exact Or.inl ⟨rfl, executeUpdate_fails hf⟩
  | false => exact Or.inr ⟨rfl, _, executeUpdate_ok hf rfl⟩

theorem executeUpdate_deleteObject (mysql : MySQL) (env : Env) (id : Int) (db : Db) :
    (env.fails .deleteObject = true
        ∧ executeUpdate mysql env (.deleteObject id) db = (-1, db))
      ∨ (env.fails .deleteObject = false
        ∧ ∃ n : Nat, executeUpdate mysql env (.deleteObject id) db
          = (↑n, db.deletedObject id)) := by
  cases hf : env.fails .deleteObject with
  | true => exact Or.inl ⟨rfl, executeUpdate_fails hf⟩
  | false => exact Or.inr ⟨rfl, _, executeUpdate_ok hf rfl⟩

/-- The exits from the unlinking on are exits of the method. -/
theorem DetachExit.removeExit {id p : Int} {node parent : Addr}
    (h : DetachExit mysql id env s p node parent s') (hdet : Detaches id env s p node parent) :
    RemoveExit mysql id env s s' := by
  cases h with
  | relationshipsKept hf =>
      exact .relationshipsKept hdet.leaf hdet.selects hdet.row hdet.find hf
  | objectKept hf hf₂ => exact .objectKept hdet.leaf hdet.selects hdet.row hdet.find hf hf₂
  | removed hf hf₂ => exact .removed hdet.leaf hdet.selects hdet.row hdet.find hf hf₂

/-- What the query for the parent gives: the same with autocommit on or off. -/
theorem executeQuery_parentsOf {id : Int} (hsel : env.fails .selectParent = false) :
    executeQuery env (.parentsOf id) (attempt mysql env (.setAutocommit false) s.db)
      = some (env.order.arrange (s.db.rows (.parentsOf id))) := by
  unfold executeQuery Db.rows
  rw [view_autocommitOff mysql env s.db]
  exact if_neg (by rw [show Query.call (.parentsOf id) = .selectParent from rfl, hsel]; decide)

/-- **From the unlinking on `removeNode` returns**, through one of three exits. -/
theorem Detaches.exit {id p : Int} {node parent : Addr} (mysql : MySQL)
    (h : Detaches id env s p node parent) :
    ∃ s', removeNode mysql id env s = .ok s' ∧ DetachExit mysql id env s p node parent s' := by
  have hlen : ¬ (s.mem.heap node).getChildren.length ≠ 0 := by
    unfold ObjectNode.getChildren
    rw [h.leaf.childless]
    simp
  have hhead : (env.order.arrange (s.db.rows (.parentsOf id))).head? = some p := h.delivered
  unfold removeNode
  simp only [h.leaf.find, Memory.deref, ok_bind, if_neg hlen, executeQuery_parentsOf h.selects,
    Option.isNone_some, Bool.false_eq_true, if_false, fetchFirst_some, hhead, h.find]
  generalize hdb : attempt mysql env (.setAutocommit false) s.db = db
  rcases executeUpdate_deleteRelationships mysql env p db with ⟨hf, heq⟩ | ⟨hf, n, heq⟩
  · refine ⟨_, ?_, .relationshipsKept hf⟩
    simp only [heq, hdb]
    rfl
  have hn : (n : Int) ≠ -1 := by omega
  simp only [heq, if_neg hn]
  rcases executeUpdate_deleteObject mysql env id (db.deleted p) with
    ⟨hf₂, heq₂⟩ | ⟨hf₂, n₂, heq₂⟩
  · refine ⟨_, ?_, .objectKept hf hf₂⟩
    simp only [heq₂, hdb]
    rfl
  have hn₂ : (n₂ : Int) ≠ -1 := by omega
  refine ⟨_, ?_, .removed hf hf₂⟩
  simp only [heq₂, if_neg hn₂, hdb]
  rfl

/-- **`removeNode` leaves through one of its exits, before or after it has
unlinked the node, or follows a null entry of the map.** -/
theorem removeNode_split (mysql : MySQL) (id : Int) (env : Env) (s : State) :
    (∃ s', removeNode mysql id env s = .ok s' ∧ RemoveExit mysql id env s s'
      ∧ RemoveSplit mysql id env s s')
    ∨ (removeNode mysql id env s = .error .nullNode ∧ ∃ k, s.mem.find k = some none) := by
  by_cases hdet : ∃ p node parent, Detaches id env s p node parent
  · obtain ⟨p, node, parent, hdet⟩ := hdet
    obtain ⟨s', hok, hexit⟩ := hdet.exit mysql
    exact Or.inl ⟨s', hok, hexit.removeExit hdet, Or.inr ⟨p, node, parent, hdet, hexit⟩⟩
  have hno : ∀ p node parent, ¬ Detaches id env s p node parent :=
    fun p node parent h => hdet ⟨p, node, parent, h⟩
  unfold removeNode
  cases hfind : s.mem.find id with
  | none =>
      refine Or.inl ⟨s, rfl, .notFound hfind, .kept hno (.untouched fun p h => ?_)⟩
      obtain ⟨node, hleaf⟩ := h.leaf
      have heq := hleaf.find
      rw [hfind] at heq
      cases heq
  | some object =>
  cases object with
  | none => exact Or.inr ⟨rfl, id, hfind⟩
  | some node =>
  simp only [Memory.deref, ok_bind, ObjectNode.getChildren]
  by_cases hkids : (s.mem.heap node).children = []
  -- the guard on the child count
  case neg =>
      refine Or.inl ⟨s, ?_, .hasChildren hfind hkids, .kept hno (.untouched fun p h => ?_)⟩
      · rw [if_pos (by simpa using hkids)]
        rfl
      · obtain ⟨node', hleaf⟩ := h.leaf
        have heq := hfind.symm.trans hleaf.find
        rw [Option.some.inj (Option.some.inj heq)] at hkids
        exact hkids hleaf.childless
  have hleaf : Leaf s id node := ⟨hfind, hkids⟩
  rw [if_neg (by simp [hkids])]
  cases hsel : env.fails .selectParent with
  | true =>
      have hnot : env.fails .selectParent ≠ false := by
        rw [hsel]
        decide
      refine Or.inl ⟨_, ?_, .queryFailed hleaf hsel,
        .kept hno (.autocommitOff fun p h => hnot h.selects)⟩
      simp only [executeQuery, Query.call, hsel, if_true, Option.isNone_none]
      rfl
  | false =>
      simp only [executeQuery_parentsOf hsel, Option.isNone_some, Bool.false_eq_true, if_false,
        fetchFirst_some, ok_bind]
      rcases head_parentsOf env s.db id with ⟨hhead, hrow⟩ | ⟨p, hhead, hp⟩
      · refine Or.inl ⟨_, ?_, .noParent hleaf hsel hrow,
          .kept hno (.autocommitOff fun p h => hrow p h.row)⟩
        rw [hhead]
        rfl
      · simp only [hhead]
        cases hpar : s.mem.find p with
        | none =>
            exact Or.inl ⟨_, rfl, .parentMissing hleaf hsel hp hpar,
              .kept hno (.rolledBack ⟨⟨node, hleaf⟩, hsel, hhead, hpar⟩)⟩
        | some parent_object =>
            cases parent_object with
            | none => exact Or.inr ⟨rfl, p, hpar⟩
            | some parent => exact absurd ⟨hleaf, hsel, hhead, hpar⟩ (hno p node parent)

theorem removeNode_spec (mysql : MySQL) (id : Int) (env : Env) (s : State) :
    (∃ s', removeNode mysql id env s = .ok s' ∧ RemoveExit mysql id env s s')
    ∨ (removeNode mysql id env s = .error .nullNode ∧ ∃ k, s.mem.find k = some none) :=
  (removeNode_split mysql id env s).imp_left fun h => by
    obtain ⟨s', hok, hexit, -⟩ := h
    exact ⟨s', hok, hexit⟩

/-- What `removeNode` did, when it returned. -/
theorem removeNode_exit {id : Int} (h : removeNode mysql id env s = .ok s') :
    RemoveExit mysql id env s s' := by
  rcases removeNode_spec mysql id env s with ⟨s₁, hok, hexit⟩ | ⟨herr, -⟩
  · rw [hok] at h
    obtain rfl := Except.ok.inj h
    exact hexit
  · rw [herr] at h
    cases h

/-! ## §3. The exits of a request. -/

/-- The requests that write nothing. -/
def Request.reads : Request → Bool
  | .tree _ | .validateTree => true
  | _ => false

/-- What an `addNode` did, whatever it returned. -/
theorem Serves.addExit {name : String} {parent_id : Int} {resp : Response}
    (h : Serves mysql (.addNode name parent_id env) s resp s') :
    ∃ r, resp = .added r ∧ AddExit mysql name parent_id env s r s' := by
  unfold Serves at h
  simp only [serve] at h
  cases hadd : addNode mysql name parent_id env s with
  | error e =>
      rw [hadd] at h
      cases h
  | ok r =>
      rw [hadd] at h
      obtain ⟨rfl, rfl⟩ := Prod.mk.inj (Except.ok.inj h)
      exact ⟨r.1, rfl, addNode_exit hadd⟩

/-- What an `addNode` did that returned `r`. -/
theorem Serves.added_exit {name : String} {parent_id r : Int}
    (h : Serves mysql (.addNode name parent_id env) s (.added r) s') :
    AddExit mysql name parent_id env s r s' := by
  obtain ⟨r', hresp, hexit⟩ := h.addExit
  cases hresp
  exact hexit

theorem Serves.removeNode_eq {id : Int} {resp : Response}
    (h : Serves mysql (.removeNode id env) s resp s') :
    resp = .removed ∧ removeNode mysql id env s = .ok s' := by
  unfold Serves at h
  simp only [serve] at h
  cases hrem : removeNode mysql id env s with
  | error e =>
      rw [hrem] at h
      cases h
  | ok s₁ =>
      rw [hrem] at h
      obtain ⟨rfl, rfl⟩ := Prod.mk.inj (Except.ok.inj h)
      exact ⟨rfl, rfl⟩

/-- A request that writes nothing leaves the state as it is. -/
theorem Serves.reads_eq {req : Request} {resp : Response} (h : Serves mysql req s resp s')
    (hreads : req.reads = true) : s' = s := by
  unfold Serves at h
  cases req with
  | addNode name parent_id env => cases hreads
  | removeNode id env => cases hreads
  | tree fuel =>
      simp only [serve] at h
      cases htree : apiTree s.mem fuel with
      | error e =>
          rw [htree] at h
          cases h
      | ok j =>
          rw [htree] at h
          exact (Prod.mk.inj (Except.ok.inj h)).2.symm
  | validateTree => exact (Prod.mk.inj (Except.ok.inj h)).2.symm

/-- **What a request did, when it returned**: one exit of `addNode` or of
`removeNode`, or nothing. -/
theorem serves_cases {req : Request} {resp : Response} (h : Serves mysql req s resp s') :
    (∃ name parent_id env r, req = .addNode name parent_id env ∧ resp = .added r
        ∧ AddExit mysql name parent_id env s r s')
      ∨ (∃ id env, req = .removeNode id env ∧ resp = .removed
        ∧ RemoveExit mysql id env s s')
      ∨ (req.reads = true ∧ s' = s) := by
  cases req with
  | addNode name parent_id env =>
      obtain ⟨r, hresp, hexit⟩ := h.addExit
      exact Or.inl ⟨name, parent_id, env, r, rfl, hresp, hexit⟩
  | removeNode id env =>
      obtain ⟨hresp, hok⟩ := h.removeNode_eq
      exact Or.inr (Or.inl ⟨id, env, rfl, hresp, removeNode_exit hok⟩)
  | tree fuel => exact Or.inr (Or.inr ⟨rfl, h.reads_eq rfl⟩)
  | validateTree => exact Or.inr (Or.inr ⟨rfl, h.reads_eq rfl⟩)

end ApiSyncer
