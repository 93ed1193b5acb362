/-
  ApiSyncer.DataSyncMagnr
  ───────────────────────
  **THE CLASS `DataSyncMagnr`: CONSTRUCTOR, `addNode`, `removeNode`,
  `validate_tree`.**

  Each method is the source's method with the database calls, the map lookups
  and the pointer dereferences in the source's order, branch by branch.  The
  constructor reads both tables through result sets whose fetches may throw;
  what it had built before the throw stays.
-/
import ApiSyncer.MySQLDB
import ApiSyncer.ObjectNode

namespace ApiSyncer

open ApiSyncer.Lib

/-! ## §1. The state of the program. -/

/-- The server side of the session and the memory of the process. -/
structure State where
  db : Db
  mem : Memory

/-- `std::numeric_limits<unsigned int>::max()`. -/
def SUPER_ROOT_ID : Int := 4294967295

/-- The key under which the map holds `superRoot`: the unsigned constant
converts to the map's `int`. -/
def superRootKey : Int := toInt SUPER_ROOT_ID

theorem superRootKey_eq : superRootKey = -1 := by decide

/-- The update without its result. -/
def attempt (mysql : MySQL) (env : Env) (stmt : Statement) (db : Db) : Db :=
  (executeUpdate mysql env stmt db).2

/-- Following a `unique_ptr<sql::ResultSet>`. -/
def derefResultSet {β : Type} (res : Option β) : Except Abort β :=
  match res with
  | some rs => .ok rs
  | none => .error .nullResultSet

/-- `res->next()` and the getter after it, on the first row. -/
def fetchFirst (res : Option (List Int)) : Except Abort (Option Int) := do
  let rows ← derefResultSet res
  return rows.head?

/-! ## §2. `addNode`. -/

/-- The text of the first INSERT. -/
def insertObjectQuery (name : String) : String :=
  "INSERT INTO objects (name) VALUES ('" ++ name ++ "')"

/-- `int DataSyncMagnr::addNode(const std::string &name, int parent_id)`. -/
def addNode (mysql : MySQL) (name : String) (parent_id : Int) (env : Env) (s : State) :
    Except Abort (Int × State) := do
  -- make sure AUTOCOMMIT is off
  let db := attempt mysql env (.setAutocommit false) s.db
  let (result, db) := executeUpdate mysql env (.insertObject (insertObjectQuery name)) db
  if result = -1 then
    return (-1, ⟨attempt mysql env .rollback db, s.mem⟩)
  else
    let res := executeQuery env .lastInsertId db
    if res.isNone then
      -- the exit without ROLLBACK
      return (-1, ⟨db, s.mem⟩)
    else
      -- `res->next()` finds no row: not with a server that answers
      match ← fetchFirst res with
      | none => return (-1, ⟨db, s.mem⟩)
      | some new_id =>
        let mem := s.mem.store new_id (ObjectNode.ofInt new_id name)
        if parent_id ≠ -1 then
          let (result, db) := executeUpdate mysql env (.insertRelationship new_id parent_id) db
          -- the new node stays in the map on both failing exits below
          if result = -1 then
            return (-1, ⟨attempt mysql env .rollback db, mem⟩)
          else
            match mem.find parent_id with
            | some (some parent) =>
              let mem := mem.modify parent (·.pushChild (mem.index new_id))
              return (new_id, ⟨attempt mysql env (.setAutocommit true) db, mem⟩)
            | _ => return (-1, ⟨attempt mysql env .rollback db, mem⟩)
        else
          -- a top-level node gets no row in `relationships`
          let root ← Memory.deref (mem.lock mem.superRoot)
          let mem := mem.modify root (·.pushChild (mem.index new_id))
          return (new_id, ⟨attempt mysql env (.setAutocommit true) db, mem⟩)

/-! ## §3. `removeNode`. -/

/-- `void DataSyncMagnr::removeNode(int id)`. -/
def removeNode (mysql : MySQL) (id : Int) (env : Env) (s : State) : Except Abort State :=
  match s.mem.find id with
  | none => .ok s
  | some object => do
    let node ← Memory.deref object
    if (s.mem.heap node).getChildren.length ≠ 0 then
      -- node has children: nothing is asked of the database
      return s
    else
      let db := attempt mysql env (.setAutocommit false) s.db
      let res := executeQuery env (.parentsOf id) db
      if res.isNone then
        return ⟨db, s.mem⟩
      else
        match ← fetchFirst res with
        -- no row names a parent: autocommit is left off
        | none => return ⟨db, s.mem⟩
        | some parent_id =>
          match s.mem.find parent_id with
          | none =>
            return ⟨attempt mysql env (.setAutocommit true)
              (attempt mysql env .rollback db), s.mem⟩
          | some parent_object =>
            let parent ← Memory.deref parent_object
            -- memory changes before the database is asked, and no exit restores it
            let mem := s.mem.modify parent (·.removeChild s.mem.lock object)
            -- delete from relationships: keyed by the parent alone
            let (result, db) := executeUpdate mysql env (.deleteRelationships parent_id) db
            if result = -1 then
              return ⟨attempt mysql env .rollback db, mem⟩
            else
              let (result, db) := executeUpdate mysql env (.deleteObject id) db
              if result = -1 then
                return ⟨attempt mysql env .rollback db, mem⟩
              else
                return ⟨attempt mysql env (.setAutocommit true)
                  (attempt mysql env .commit db), mem.erase id⟩

/-! ## §4. `validate_tree`. -/

/-- `bool DataSyncMagnr::validate_tree()`. -/
def validateTree (m : Memory) : Bool :=
  m.nodes.entries.all fun entry =>
    match entry.2 with
    | none => false
    | some node => (m.heap node).getChildren.all (fun child => !m.expired child)

/-! ## §5. The constructor and `hasConnected`. -/

/-- The outcomes of `MySQLDB::connect`. -/
inductive Connect where
  /-- `driver->connect` throws: the member `connection` stays null -/
  | refused
  /-- `setSchema` throws: the connection is open, `connect` gives false -/
  | noSchema
  | connected
  deriving DecidableEq, Repr

/-- The result of `MySQLDB::connect`. -/
def Connect.succeeds : Connect → Bool
  | .connected => true
  | _ => false

/-- The member `connection` is not null afterwards. -/
def Connect.opens : Connect → Bool
  | .refused => false
  | _ => true

/-- The outcome of one startup SELECT: the null of a failed query, or a result
set in some delivery order, where fetching the row with index `throwsAt` (when
there is such a row) throws `sql::SQLException`. -/
inductive Select where
  | null
  | resultSet (order : Order) (throwsAt : Option Nat)

/-- The environment of one run of the constructor. -/
structure Startup where
  connect : Connect
  objects : Select
  relationships : Select
  /-- the iteration order of the `unordered_map` -/
  iteration : Order

/-- `executeQuery` at startup: the rows to deliver with the index of the fetch
that throws, or null.  It follows the member `connection` unchecked. -/
def Select.execute (sel : Select) (connection : Bool) {α : Type} (rows : List α) :
    Except Abort (Option (List α × Option Nat)) :=
  if connection then
    match sel with
    | .null => .ok none
    | .resultSet order throwsAt => .ok (some (order.arrange rows, throwsAt))
  else .error .nullConnection

/-- `while (res->next()) body`: the state after the rows fetched, and whether a
fetch threw. -/
def fetchRows {α σ : Type} (body : σ → α → Except Abort σ) :
    List α → Option Nat → σ → Except Abort (σ × Bool)
  | [], _, s => .ok (s, false)
  | _ :: _, some 0, s => .ok (s, true)
  | row :: rows, some (k + 1), s => do fetchRows body rows (some k) (← body s row)
  | row :: rows, none, s => do fetchRows body rows none (← body s row)

/-- Populate nodes map: one row of `objects`. -/
def loadObject (m : Memory) (row : ObjectRow) : Except Abort Memory :=
  .ok (m.store row.id (ObjectNode.ofInt row.id row.name))

/-- Build tree from relationships: one row.  The second component is the set
`children`. -/
def loadRelationship (mc : Memory × List Int) (row : RelationshipRow) :
    Except Abort (Memory × List Int) :=
  let (m, children) := mc
  if (m.find row.parent_id).isSome ∧ (m.find row.child_id).isSome then do
    let parent ← Memory.deref (m.index row.parent_id)
    return (m.modify parent (·.pushChild (m.index row.child_id)), row.child_id :: children)
  else
    -- Error: Parent or Child node not found!
    return (m, children)

/-- Identify root nodes: one pair of the map. -/
def linkRoot (children : List Int) (m : Memory) (pair : Sigma fun _ : Int => SharedPtr) :
    Except Abort Memory :=
  if pair.1 ∉ children ∧ toUInt pair.1 ≠ SUPER_ROOT_ID then do
    let root ← Memory.deref (m.lock m.superRoot)
    return m.modify root (·.pushChild pair.2)
  else
    return m

/-- The map holds `superRoot` alone. -/
def Memory.start : Memory :=
  let m := Memory.blank.store superRootKey ⟨SUPER_ROOT_ID, "superRoot", []⟩
  { m with superRoot := m.index superRootKey }

/-- The constructor on the tables `T`: the memory it leaves and the member
`connection`.  A `sql::SQLException` ends the loading, not the constructor. -/
def construct (env : Startup) (T : Tables) : Except Abort (Memory × Bool) := do
  -- `connection = db.connect(...)`, the value that `hasConnected` gives back
  let connection := env.connect.succeeds
  let res ← env.objects.execute env.connect.opens T.objects
  let (rows, throwsAt) ← derefResultSet res
  let (m, threw) ← fetchRows loadObject rows throwsAt Memory.start
  -- the catch block: what was loaded stays
  if threw then
    return (m, connection)
  else
    let res ← env.relationships.execute env.connect.opens T.relationships
    let (rows, throwsAt) ← derefResultSet res
    let ((m, children), threw) ← fetchRows loadRelationship rows throwsAt (m, [])
    if threw then
      return (m, connection)
    else
      let m ← (env.iteration.arrange m.nodes.entries).foldlM (linkRoot children) m
      return (m, connection)

/-- A process starts on the server `db`: a new session, the constructor, and
the answer of `hasConnected`, on which `main` decides whether to serve. -/
def startup (env : Startup) (db : Db) : Except Abort (State × Bool) := do
  let (m, hasConnected) ← construct env db.committed
  return (⟨db.reconnected, m⟩, hasConnected)

/-- A process that comes up has the memory its constructor left. -/
theorem startup_eq_ok {env : Startup} {db : Db} {s : State} {hasConnected : Bool}
    (h : startup env db = .ok (s, hasConnected)) :
    ∃ m, construct env db.committed = .ok (m, hasConnected) ∧ s = ⟨db.reconnected, m⟩ := by
  unfold startup at h
  cases hcons : construct env db.committed with
  | error e =>
      rw [hcons] at h
      cases h
  | ok r =>
      obtain ⟨m, connection⟩ := r
      rw [hcons] at h
      obtain ⟨rfl, rfl⟩ := Prod.mk.inj (Except.ok.inj h)
      exact ⟨m, rfl, rfl⟩

end ApiSyncer
