/-
  ApiSyncer.Routes
  ────────────────
  **RENDERING THE TREE, AND THE REQUESTS OF A RUN.**

  `nodeToJson` follows child lists with no visited set; its fuel stands for the
  depth of the call stack.  A run is made of requests and, where a property allows
  it, of restarts of the process.
-/
import ApiSyncer.DataSyncMagnr
import ApiSyncer.Lib.Run
import ApiSyncer.Lib.Unfold

namespace ApiSyncer

open ApiSyncer.Lib

/-! ## §1. `/api/tree`. -/

/-- A rendered node: its "id", its "name" and its "children". -/
abbrev Json := RoseTree Int String

/-- `crow::json::wvalue nodeToJson(const ObjectNode &node)`. -/
def nodeToJson (m : Memory) : Nat → Addr → Except Abort Json
  | 0, _ => .error .outOfFuel
  | fuel + 1, node => do
    let locks := (m.heap node).getChildren.map m.lock
    -- an expired child is reported and left out
    let children ← (locks.filter Option.isSome).mapM fun lock => do
      nodeToJson m fuel (← Memory.deref lock)
    return .node (m.heap node).getID (m.heap node).getName children

/-- The handler of `GET /api/tree`: the rendered superRoot, or the 404. -/
def apiTree (m : Memory) (fuel : Nat) : Except Abort (Option Json) :=
  let lock := m.lock m.superRoot
  if lock.isSome then do
    let root ← Memory.deref lock
    let json ← nodeToJson m fuel root
    return some json
  else
    return none

/-- With a live superRoot the handler renders it. -/
theorem apiTree_eq {m : Memory} {root : Addr} {fuel : Nat}
    (h : m.lock m.superRoot = some root) :
    apiTree m fuel = (nodeToJson m fuel root).map some := by
  unfold apiTree
  rw [h]
  show (nodeToJson m fuel root >>= _) = _
  cases nodeToJson m fuel root <;> rfl

/-- `GET /api/tree` answers with the tree, given the stack that it needs. -/
def Shows (m : Memory) (t : Json) : Prop :=
  ∃ depth, ∀ fuel, depth ≤ fuel → apiTree m fuel = .ok (some t)

theorem Shows.unique {m : Memory} {t t' : Json} (h : Shows m t) (h' : Shows m t') : t = t' := by
  obtain ⟨d, hd⟩ := h
  obtain ⟨d', hd'⟩ := h'
  have heq := (hd _ (Nat.le_max_left d d')).symm.trans (hd' _ (Nat.le_max_right d d'))
  exact Option.some.inj (Except.ok.inj heq)

/-! ## §2. Runs. -/

/-- One request, with the environment of its database calls. -/
inductive Request where
  | addNode (name : String) (parent_id : Int) (env : Env)
  | removeNode (id : Int) (env : Env)
  | tree (fuel : Nat)
  | validateTree

/-- What the caller of a request gets. -/
inductive Response where
  | added (id : Int)
  | removed
  | tree (json : Option Json)
  | valid (good : Bool)

/-- One request on the state. -/
def serve (mysql : MySQL) : Request → State → Except Abort (Response × State)
  | .addNode name parent_id env, s => do
    let (id, s') ← addNode mysql name parent_id env s
    return (.added id, s')
  | .removeNode id env, s => do
    let s' ← removeNode mysql id env s
    return (.removed, s')
  | .tree fuel, s => do
    let json ← apiTree s.mem fuel
    return (.tree json, s)
  | .validateTree, s => return (.valid (ApiSyncer.validateTree s.mem), s)

/-- The step relation of a session: a request that returns. -/
def Serves (mysql : MySQL) (req : Request) (s : State) (resp : Response) (s' : State) :
    Prop :=
  serve mysql req s = .ok (resp, s')

/-- A request, or a restart of the process. -/
inductive Action where
  | request (req : Request)
  | restart (env : Startup)

/-- The step relation of the whole program: a request that returns, or a
restart after which the new process serves. -/
def Acts (mysql : MySQL) : Action → State → Option Response → State → Prop
  | .request req, s, resp, s' => ∃ r, resp = some r ∧ Serves mysql req s r s'
  | .restart env, s, resp, s' => resp = none ∧ startup env s.db = .ok (s', true)

/-- Empty tables and a freshly constructed `DataSyncMagnr`. -/
def State.initial : State := ⟨Db.empty, Memory.start⟩

/-! ## §3. Concrete environments. -/

/-- A server that reads the INSERT of the name "a" and refuses any other. -/
def readsA : MySQL :=
  ⟨fun query => if query = insertObjectQuery "a" then some ["a"] else none⟩

/-- No call fails, and the rows inserted get the listed ids. -/
def Env.allocating (ids : List Int) : Env := ⟨fun _ => false, ids, .stored⟩

theorem readsA_length {query : String} {names : List String}
    (h : readsA.valuesOf query = some names) : names.length = 1 := by
  have h' : (if query = insertObjectQuery "a" then some ["a"] else none) = some names := h
  split at h'
  next => rw [← Option.some.inj h', List.length_singleton]
  next => cases h'

/-- Exactly the listed calls fail. -/
def Env.failing (calls : List Call) (ids : List Int) : Env :=
  ⟨fun call => decide (call ∈ calls), ids, .stored⟩

/-- `addNode "a" parent_id`, and its row gets the id `id`. -/
def Request.adding (parent_id id : Int) : Request :=
  .addNode "a" parent_id (.allocating [id])

/-- `removeNode id`, and no call fails. -/
def Request.removing (id : Int) : Request := .removeNode id (.allocating [])

def SchemaTables.empty : SchemaTables where
  toTables := Tables.empty
  ids_nodup := List.nodup_nil
  relationships_nodup := List.nodup_nil
  int_range _ h := (List.not_mem_nil h).elim
  foreign_keys _ h := (List.not_mem_nil h).elim

/-- One object, whose only parent row names itself. -/
def SchemaTables.selfParent : SchemaTables where
  objects := [⟨1, "a"⟩]
  relationships := [⟨1, 1⟩]
  ids_nodup := by decide
  relationships_nodup := by decide
  int_range := by decide
  foreign_keys := by
    unfold Tables.ForeignKeys
    decide

/-- Both tables come back whole, in stored order. -/
def Startup.whole : Startup :=
  ⟨.connected, .resultSet .stored none, .resultSet .stored none, .stored⟩

/-- Both tables come back whole, in the reverse of the stored order, and so does
the map. -/
def Startup.reversed : Startup where
  connect := .connected
  objects := .resultSet ⟨List.reverse, List.reverse_perm⟩ none
  relationships := .resultSet ⟨List.reverse, List.reverse_perm⟩ none
  iteration := ⟨List.reverse, List.reverse_perm⟩

/-- A process without memory of its own, on a server that holds `T`. -/
def State.cold (T : Tables) : State := ⟨Db.opened T, Memory.blank⟩

/-- The state after a request that returns. -/
def State.after (mysql : MySQL) (s : State) (req : Request) : State :=
  match serve mysql req s with
  | .ok (_, s') => s'
  | .error _ => s

/-- A top-level object, and then a child of it. -/
def State.one : State := State.initial.after readsA (.adding (-1) 1)

def State.two : State := State.one.after readsA (.adding 1 2)

theorem serves_one : Serves readsA (.adding (-1) 1) State.initial (.added 1) State.one := rfl

theorem serves_two : Serves readsA (.adding 1 2) State.one (.added 2) State.two := rfl

/-- The state after a restart that returns. -/
def State.restarted (s : State) : State :=
  match startup .whole s.db with
  | .ok (s', _) => s'
  | .error _ => s

end ApiSyncer
