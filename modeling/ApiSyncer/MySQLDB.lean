/-
  ApiSyncer.MySQLDB
  ─────────────────
  **THE DATABASE CONNECTION: `connect`, `executeQuery`, `executeUpdate`.**

  The server is not part of the repository.  What the program relies on is
  modelled here: one session over the two tables, the constraints that make a
  statement fail, the AUTO_INCREMENT ids and LAST_INSERT_ID.  What the server
  is free to choose comes from the environment of each request (`Env`): which
  calls fail, which fresh ids it hands out, in which order it delivers rows.

  Only the INSERT of a name depends on text that a client sends, so only that
  statement is passed as text; how the server reads the text is the parameter
  `MySQL.valuesOf`.
-/
import ApiSyncer.Schema

namespace ApiSyncer

open ApiSyncer.Lib

/-! ## §1. What the server and its environment are free to choose. -/

/-- The server's reading of an `INSERT INTO objects (name) VALUES …` text: the
names of the rows it inserts, or `none` for a text it refuses. -/
structure MySQL where
  valuesOf : String → Option (List String)

/-- A delivery order: every list comes back permuted. -/
structure Order where
  arrange : {α : Type} → List α → List α
  perm : ∀ {α : Type} (l : List α), (arrange l).Perm l

/-- Rows in the order in which they are stored. -/
def Order.stored : Order := ⟨fun l => l, fun l => .refl l⟩

theorem Order.arrange_singleton (o : Order) {α : Type} (a : α) : o.arrange [a] = [a] :=
  List.perm_singleton.mp (o.perm [a])

/-- The call sites of the two requests.  No request reaches one of them twice. -/
inductive Call where
  | autocommitOff
  | insertObject
  | lastInsertId
  | insertRelationship
  | selectParent
  | deleteRelationships
  | deleteObject
  | commit
  | rollback
  | autocommitOn
  deriving DecidableEq, Repr

/-- The environment of one request. -/
structure Env where
  /-- the calls that throw: `executeUpdate` gives -1, `executeQuery` gives null -/
  fails : Call → Bool
  /-- the AUTO_INCREMENT ids of the rows that the request inserts -/
  ids : List Int
  order : Order

/-! ## §2. Statements and queries. -/

/-- The statements passed to `executeUpdate`. -/
inductive Statement where
  | setAutocommit (on : Bool)
  | insertObject (query : String)
  | insertRelationship (child_id parent_id : Int)
  | deleteRelationships (parent_id : Int)
  | deleteObject (id : Int)
  | commit
  | rollback

/-- The queries passed to `executeQuery` by the two requests. -/
inductive Query where
  | lastInsertId
  | parentsOf (child_id : Int)

def Statement.call : Statement → Call
  | .setAutocommit false => .autocommitOff
  | .setAutocommit true => .autocommitOn
  | .insertObject _ => .insertObject
  | .insertRelationship _ _ => .insertRelationship
  | .deleteRelationships _ => .deleteRelationships
  | .deleteObject _ => .deleteObject
  | .commit => .commit
  | .rollback => .rollback

def Query.call : Query → Call
  | .lastInsertId => .lastInsertId
  | .parentsOf _ => .selectParent

/-! ## §3. The server side of one session. -/

/-- The server: the session, every id that AUTO_INCREMENT has handed out, and
the value of LAST_INSERT_ID. -/
structure Db where
  session : Session Write Tables
  allocated : List Int
  lastInsertId : Int

namespace Db

/-- A session opened on existing tables. -/
def opened (T : Tables) : Db := ⟨Session.opened T, T.ids, 0⟩

/-- No table row has ever been written. -/
def empty : Db := opened Tables.empty

/-- What the session reads. -/
def view (db : Db) : Tables := db.session.view

/-- What every other session reads, and what survives a restart. -/
def committed (db : Db) : Tables := db.session.committed

/-- A new connection after the old one closed. -/
def reconnected (db : Db) : Db := { db with session := db.session.reopened, lastInsertId := 0 }

/-- AUTO_INCREMENT hands out positive `INT`s that no row ever had. -/
def admitsIds (db : Db) (ids : List Int) : Bool :=
  decide (ids.Nodup ∧ ∀ i ∈ ids, 0 < i ∧ i ≤ Tables.intMax ∧ i ∉ db.allocated)

/-- The rows of an INSERT of `names` under the ids handed out. -/
def newRows (ids : List Int) (names : List String) : List ObjectRow :=
  List.zipWith ObjectRow.mk ids names

/-- The primary key and the two foreign keys of `relationships`. -/
def admitsRelationship (T : Tables) (row : RelationshipRow) : Bool :=
  decide (row ∉ T.relationships ∧ row.parent_id ∈ T.ids ∧ row.child_id ∈ T.ids)

/-- Run a statement: the affected rows and the new server state, or `none` when
a constraint or the parser refuses it. -/
def run (mysql : MySQL) (env : Env) (db : Db) : Statement → Option (Nat × Db)
  | .setAutocommit on => some (0, { db with session := db.session.setAutocommit on })
  | .commit => some (0, { db with session := db.session.commit })
  | .rollback => some (0, { db with session := db.session.rollback })
  | .insertObject query =>
      match mysql.valuesOf query, env.ids with
      | some (name :: names), id :: ids =>
          -- one id for each row; LAST_INSERT_ID is the id of the first
          if ids.length = names.length ∧ db.admitsIds (id :: ids) then
            some (names.length + 1,
              { session := db.session.write
                  (.insertObjects (newRows (id :: ids) (name :: names))),
                allocated := db.allocated ++ (id :: ids),
                lastInsertId := id })
          else none
      | _, _ => none
  | .insertRelationship child_id parent_id =>
      if admitsRelationship db.view ⟨parent_id, child_id⟩ then
        some (1, { db with
          session := db.session.write (.insertRelationship ⟨parent_id, child_id⟩) })
      else none
  | .deleteRelationships parent_id =>
      some ((db.view.relationships.filter (fun r => r.parent_id = parent_id)).length,
        { db with session := db.session.write (.deleteRelationships parent_id) })
  | .deleteObject id =>
      -- what the deletion cascades to does not count
      some ((db.view.objects.filter (fun o => o.id = id)).length,
        { db with session := db.session.write (.deleteObject id) })

/-- The rows of a query, one `int` column each. -/
def rows (db : Db) : Query → List Int
  | .lastInsertId => [db.lastInsertId]
  | .parentsOf child_id =>
      (db.view.relationships.filter (fun r => r.child_id = child_id)).map (·.parent_id)

end Db

/-! ## §4. `executeUpdate` and `executeQuery`. -/

/-- The number of affected rows, or -1 when the statement throws. -/
def executeUpdate (mysql : MySQL) (env : Env) (stmt : Statement) (db : Db) : Int × Db :=
  -- a call that throws has not reached the server
  if env.fails stmt.call then (-1, db)
  else
    match db.run mysql env stmt with
    | some (affected, db') => (affected, db')
    | none => (-1, db)

/-- The result set, or null when the query throws. -/
def executeQuery (env : Env) (query : Query) (db : Db) : Option (List Int) :=
  if env.fails query.call then none else some (env.order.arrange (db.rows query))

/-! ## §5. What a call can do. -/

variable {mysql : MySQL} {env : Env} {db : Db} {stmt : Statement}

/-- **An update gives -1 and changes nothing, or runs.** -/
theorem executeUpdate_cases (mysql : MySQL) (env : Env) (stmt : Statement) (db : Db) :
    executeUpdate mysql env stmt db = (-1, db)
      ∨ ∃ n db', env.fails stmt.call = false ∧ db.run mysql env stmt = some (n, db')
          ∧ executeUpdate mysql env stmt db = (↑n, db') := by
  unfold executeUpdate
  cases hf : env.fails stmt.call with
  | true => exact Or.inl rfl
  | false =>
      cases hr : db.run mysql env stmt with
      | none => exact Or.inl (by simp)
      | some r => exact Or.inr ⟨r.1, r.2, by simp⟩

theorem executeUpdate_ok {n : Nat} {db' : Db} (hf : env.fails stmt.call = false)
    (hr : db.run mysql env stmt = some (n, db')) :
    executeUpdate mysql env stmt db = (↑n, db') := by
  unfold executeUpdate
  rw [hf, hr]
  rfl

theorem executeUpdate_fails (hf : env.fails stmt.call = true) :
    executeUpdate mysql env stmt db = (-1, db) := by
  unfold executeUpdate
  rw [hf]
  rfl

/-- An update that does not give -1 ran. -/
theorem executeUpdate_ran (h : (executeUpdate mysql env stmt db).1 ≠ -1) :
    ∃ n db', env.fails stmt.call = false ∧ db.run mysql env stmt = some (n, db')
      ∧ executeUpdate mysql env stmt db = (↑n, db') := by
  rcases executeUpdate_cases mysql env stmt db with heq | hran
  · rw [heq] at h
    exact absurd rfl h
  · exact hran

/-- What an accepted INSERT of a name does. -/
structure InsertsObjects (mysql : MySQL) (env : Env) (query : String) (db db' : Db)
    (id : Int) (rows : List ObjectRow) : Prop where
  ids_eq : env.ids = rows.map (·.id)
  names_eq : mysql.valuesOf query = some (rows.map (·.name))
  head : ∃ row rest, rows = row :: rest ∧ row.id = id
  nodup : (rows.map (·.id)).Nodup
  fresh : ∀ r ∈ rows, 0 < r.id ∧ r.id ≤ Tables.intMax ∧ r.id ∉ db.allocated
  session : db'.session = db.session.write (.insertObjects rows)
  allocated : db'.allocated = db.allocated ++ rows.map (·.id)
  lastInsertId : db'.lastInsertId = id

theorem Db.map_id_newRows : ∀ {ids : List Int} {names : List String},
    ids.length = names.length → (newRows ids names).map (·.id) = ids
  | [], [], _ => rfl
  | i :: ids, n :: names, h => by
      show i :: (newRows ids names).map (·.id) = i :: ids
      rw [map_id_newRows (Nat.succ.inj h)]

theorem Db.map_name_newRows : ∀ {ids : List Int} {names : List String},
    ids.length = names.length → (newRows ids names).map (·.name) = names
  | [], [], _ => rfl
  | i :: ids, n :: names, h => by
      show n :: (newRows ids names).map (·.name) = n :: names
      rw [map_name_newRows (Nat.succ.inj h)]

/-- **The INSERT of a name adds fresh rows**, at least one, and LAST_INSERT_ID
is the id of the first. -/
theorem Db.run_insertObject {query : String} {n : Nat} {db' : Db}
    (h : db.run mysql env (.insertObject query) = some (n, db')) :
    ∃ id rows, InsertsObjects mysql env query db db' id rows := by
  simp only [Db.run] at h
  split at h
  next name names id ids hnames hids =>
      split at h
      next hok =>
          obtain ⟨hlen, hadm⟩ := hok
          obtain ⟨hnodup, hfresh⟩ := of_decide_eq_true hadm
          obtain ⟨-, rfl⟩ := Prod.mk.inj (Option.some.inj h)
          have hlen' : (id :: ids).length = (name :: names).length := by simp [hlen]
          have hmap := map_id_newRows hlen'
          refine ⟨id, newRows (id :: ids) (name :: names), ?_⟩
          constructor
          · rw [hmap, hids]
          · rw [map_name_newRows hlen', hnames]
          · exact ⟨⟨id, name⟩, newRows ids names, rfl, rfl⟩
          · rw [hmap]
            exact hnodup
          · intro r hr
            refine hfresh r.id ?_
            rw [← hmap]
            exact List.mem_map_of_mem hr
          · rfl
          · rw [hmap]
          · rfl
      next => cases h
  next => cases h

theorem Db.run_insertRelationship {c p : Int} {n : Nat} {db' : Db}
    (h : db.run mysql env (.insertRelationship c p) = some (n, db')) :
    admitsRelationship db.view ⟨p, c⟩ = true
      ∧ db' = { db with session := db.session.write (.insertRelationship ⟨p, c⟩) } := by
  simp only [Db.run] at h
  split at h
  next hadm => exact ⟨hadm, (Prod.mk.inj (Option.some.inj h)).2.symm⟩
  next => cases h

end ApiSyncer
