/-
  ApiSyncer.Handlers
  ──────────────────
  **THE HANDLERS OF `/api/add_node` AND `/api/remove_node`.**

  Each reads the fields of the JSON body, calls the method and answers.  The
  integers of JSON are 64 bits wide and the arguments of the methods are
  `int`s, so the ids are narrowed on the way.  Both handlers answer 201 once
  the method has returned: `addNode` reports a failure by the value -1, which
  goes into the body as the id, and `removeNode` does not report.
-/
import ApiSyncer.Routes

namespace ApiSyncer

open ApiSyncer.Lib

/-! ## §1. Bodies and responses. -/

/-- A field of a JSON object, read as an `α`: it is not there, or null, or the
accessor throws, or it has a value. -/
inductive Field (α : Type) where
  | missing
  | null
  | mistyped
  | given (value : α)

structure AddBody where
  name : Field String
  parent_id : Field Int64

structure RemoveBody where
  id : Field Int64

inductive JsonValue where
  | string (value : String)
  | int (value : Int)
  deriving DecidableEq, Repr

inductive Payload where
  | empty
  | text (message : String)
  | json (fields : List (String × JsonValue))
  deriving DecidableEq, Repr

/-- A `crow::response`. -/
structure HttpResponse where
  code : Nat
  payload : Payload
  deriving DecidableEq, Repr

namespace HttpResponse

def invalidJson : HttpResponse := ⟨400, .text "Invalid JSON data"⟩

/-- Both handlers use this text for their required field. -/
def notProvided : HttpResponse := ⟨500, .text "Name not provided"⟩

/-- Crow's answer when an accessor has thrown. -/
def uncaught : HttpResponse := ⟨500, .empty⟩

def added (new_id : Int) (name : String) : HttpResponse :=
  ⟨201, .json [("message", .string "Node added successfully"), ("id", .int new_id),
    ("name", .string name)]⟩

def removed (id : Int) : HttpResponse :=
  ⟨201, .json [("message", .string "Node Remvoed successfully"), ("id", .int id)]⟩

end HttpResponse

/-! ## §2. The handlers. -/

/-- Conversion of the `int64_t` of a JSON number to `int`. -/
def narrow (v : Int64) : Int := v.toInt32.toInt

/-- What `/api/add_node` passes on: the name, and -1 without a parent. -/
def AddBody.arguments : AddBody → Except HttpResponse (String × Int)
  | ⟨.missing, _⟩ => .error .notProvided
  | ⟨.null, _⟩ => .error .notProvided
  | ⟨.mistyped, _⟩ => .error .uncaught
  | ⟨.given name, .missing⟩ => .ok (name, -1)
  | ⟨.given name, .null⟩ => .ok (name, -1)
  | ⟨.given _, .mistyped⟩ => .error .uncaught
  | ⟨.given name, .given v⟩ => .ok (name, narrow v)

def RemoveBody.argument : RemoveBody → Except HttpResponse Int
  | ⟨.missing⟩ => .error .notProvided
  | ⟨.null⟩ => .error .notProvided
  | ⟨.mistyped⟩ => .error .uncaught
  | ⟨.given v⟩ => .ok (narrow v)

/-- `POST /api/add_node`; the body is `none` when it is not valid JSON. -/
def addNodeHandler (mysql : MySQL) (body : Option AddBody) (env : Env) (s : State) :
    Except Abort (HttpResponse × State) :=
  match body with
  | none => .ok (.invalidJson, s)
  | some body =>
      match body.arguments with
      | .error resp => .ok (resp, s)
      | .ok (name, parent_id) => do
          let (new_id, s') ← addNode mysql name parent_id env s
          -- the -1 of a failure is answered like an id
          return (.added new_id name, s')

/-- `POST /api/remove_node`. -/
def removeNodeHandler (mysql : MySQL) (body : Option RemoveBody) (env : Env) (s : State) :
    Except Abort (HttpResponse × State) :=
  match body with
  | none => .ok (.invalidJson, s)
  | some body =>
      match body.argument with
      | .error resp => .ok (resp, s)
      | .ok id => do
          let s' ← removeNode mysql id env s
          return (.removed id, s')

/-! ## §3. What they answer. -/

section Answers

variable {mysql : MySQL} {env : Env} {s s' : State} {name : String} {parent_id r id : Int}
  {resp : HttpResponse}

theorem addNodeHandler_ok {body : AddBody} (hargs : body.arguments = .ok (name, parent_id))
    (hok : addNode mysql name parent_id env s = .ok (r, s')) :
    addNodeHandler mysql (some body) env s = .ok (.added r name, s') := by
  unfold addNodeHandler
  simp only [hargs, hok]
  rfl

theorem removeNodeHandler_ok {body : RemoveBody} (harg : body.argument = .ok id)
    (hok : removeNode mysql id env s = .ok s') :
    removeNodeHandler mysql (some body) env s = .ok (.removed id, s') := by
  unfold removeNodeHandler
  simp only [harg, hok]
  rfl

/-- Without its arguments no method is called. -/
theorem addNodeHandler_error {body : AddBody} (hargs : body.arguments = .error resp) :
    addNodeHandler mysql (some body) env s = .ok (resp, s) := by
  unfold addNodeHandler
  simp only [hargs]

theorem removeNodeHandler_error {body : RemoveBody} (harg : body.argument = .error resp) :
    removeNodeHandler mysql (some body) env s = .ok (resp, s) := by
  unfold removeNodeHandler
  simp only [harg]

/-- Arguments that are not there are answered with an error. -/
theorem AddBody.arguments_error {body : AddBody} (h : body.arguments = .error resp) :
    400 ≤ resp.code := by
  unfold AddBody.arguments at h
  split at h <;> cases h <;> decide

theorem RemoveBody.argument_error {body : RemoveBody} (h : body.argument = .error resp) :
    400 ≤ resp.code := by
  unfold RemoveBody.argument at h
  split at h <;> cases h <;> decide

theorem RemoveBody.argument_ok {body : RemoveBody} (h : body.argument = .ok id) :
    ∃ v, body = ⟨.given v⟩ ∧ id = narrow v := by
  unfold RemoveBody.argument at h
  split at h
  · cases h
  · cases h
  · cases h
  · exact ⟨_, rfl, (Except.ok.inj h).symm⟩

end Answers

/-! ## §4. Narrowing. -/

/-- The number is an `int`. -/
def InRange (v : Int64) : Prop := Tables.intMin ≤ v.toInt ∧ v.toInt ≤ Tables.intMax

instance (v : Int64) : Decidable (InRange v) := inferInstanceAs (Decidable (_ ∧ _))

/-- What is not an `int` becomes one modulo 2^32. -/
theorem narrow_eq (v : Int64) : narrow v = v.toInt.bmod 4294967296 := Int64.toInt_toInt32 v

theorem narrow_range (v : Int64) : Tables.intMin ≤ narrow v ∧ narrow v ≤ Tables.intMax := by
  have hlo : Tables.intMin = -2147483648 := rfl
  have hhi : Tables.intMax = 2147483647 := rfl
  rw [narrow_eq]
  unfold Int.bmod
  simp only []
  split <;> omega

/-- **An id is passed on as it is exactly when it is an `int`.** -/
theorem narrow_eq_self {v : Int64} : narrow v = v.toInt ↔ InRange v := by
  have hlo : Tables.intMin = -2147483648 := rfl
  have hhi : Tables.intMax = 2147483647 := rfl
  constructor
  · intro h
    unfold InRange
    rw [← h]
    exact narrow_range v
  · intro h
    obtain ⟨hmin, hmax⟩ := h
    rw [narrow_eq]
    unfold Int.bmod
    simp only []
    split <;> omega

end ApiSyncer
