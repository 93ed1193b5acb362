/-
  ApiSyncer.ObjectNode
  ────────────────────
  **NODES, POINTERS AND THE `nodes` MAP.**

  The process memory behind a `DataSyncMagnr`: objects at addresses that are
  never handed out twice, the map `nodes` that owns them through `shared_ptr`s,
  and `weak_ptr`s in the child lists and in `superRoot`.  Between the
  statements of the program the map entries are the only owners that outlive a
  call, so a `weak_ptr` is live exactly when some entry owns its object.

  Both kinds of pointer may be null, and following a null one ends in `Abort`.
-/
import Mathlib.Data.List.AList

namespace ApiSyncer

/-! ## §1. Machine integers and undefined behaviour. -/

/-- Conversion of an `int` to `unsigned int`. -/
def toUInt (i : Int) : Int := i % 4294967296

/-- Conversion of an `unsigned int` to `int`. -/
def toInt (u : Int) : Int := Int.bmod u 4294967296

theorem toInt_toUInt {i : Int} (hlo : -2147483648 ≤ i) (hhi : i ≤ 2147483647) :
    toInt (toUInt i) = i := by
  unfold toInt toUInt Int.bmod
  simp only []
  split <;> omega

/-- How a computation of the process can fail to return: it follows a null
pointer, or its recursion is deeper than the given fuel. -/
inductive Abort where
  | nullConnection
  | nullResultSet
  | nullNode
  | outOfFuel
  deriving DecidableEq, Repr

theorem ok_bind {α β : Type} (a : α) (f : α → Except Abort β) :
    (Except.ok a >>= f) = f a := rfl

/-! ## §2. `ObjectNode`. -/

abbrev Addr := Nat

/-- A `std::shared_ptr<ObjectNode>`: null, or the address of its object. -/
abbrev SharedPtr := Option Addr

/-- A `std::weak_ptr<ObjectNode>`: empty, or the address of its object, which
may be gone. -/
abbrev WeakPtr := Option Addr

/-- An `ObjectNode`; `id` is a `uint`.  (The member `parent` is never set.) -/
structure ObjectNode where
  id : Int
  name : String
  children : List WeakPtr

namespace ObjectNode

/-- The constructor at the call sites that pass an `int` id. -/
def ofInt (id : Int) (name : String) : ObjectNode := ⟨toUInt id, name, []⟩

def getID (node : ObjectNode) : Int := toInt node.id

def getName (node : ObjectNode) : String := node.name

def getChildren (node : ObjectNode) : List WeakPtr := node.children

def pushChild (child : WeakPtr) (node : ObjectNode) : ObjectNode :=
  { node with children := node.children ++ [child] }

/-- Drops the children that lock to `target`, and the expired ones. -/
def removeChild (lock : WeakPtr → SharedPtr) (target : SharedPtr)
    (node : ObjectNode) : ObjectNode :=
  { node with children := node.children.filter (fun wp =>
      match lock wp with
      | some sp_wp => !decide (some sp_wp = target)
      | none => false) }

end ObjectNode

/-! ## §3. The memory of the process. -/

/-- The heap, the map `nodes` and the member `superRoot`. -/
structure Memory where
  heap : Addr → ObjectNode
  next : Addr
  nodes : AList (fun _ : Int => SharedPtr)
  superRoot : WeakPtr

namespace Memory

/-- Before the constructor has run. -/
def blank : Memory := ⟨fun _ => ⟨0, "", []⟩, 0, ∅, none⟩

/-- Some entry of the map owns the object at `a`. -/
def owned (m : Memory) (a : Addr) : Bool :=
  m.nodes.entries.any (fun e => decide (e.2 = some a))

/-- `weak_ptr::lock`. -/
def lock (m : Memory) (wp : WeakPtr) : SharedPtr :=
  wp.filter m.owned

/-- `weak_ptr::expired`. -/
def expired (m : Memory) (wp : WeakPtr) : Bool := (m.lock wp).isNone

/-- `nodes.find(key)`: `none` is `nodes.end()`. -/
def find (m : Memory) (key : Int) : Option SharedPtr := m.nodes.lookup key

/-- `nodes[key]` for a present key. -/
def index (m : Memory) (key : Int) : SharedPtr := (m.find key).getD none

/-- Following a `shared_ptr`. -/
def deref (p : SharedPtr) : Except Abort Addr :=
  match p with
  | some a => .ok a
  | none => .error .nullNode

/-- `nodes[key] = std::make_shared<ObjectNode>(node)`. -/
def store (key : Int) (node : ObjectNode) (m : Memory) : Memory :=
  { m with heap := Function.update m.heap m.next node,
           next := m.next + 1,
           nodes := m.nodes.insert key (some m.next) }

/-- A method call on the object at `a`. -/
def modify (a : Addr) (f : ObjectNode → ObjectNode) (m : Memory) : Memory :=
  { m with heap := Function.update m.heap a (f (m.heap a)) }

/-- `nodes.erase(key)`. -/
def erase (key : Int) (m : Memory) : Memory :=
  { m with nodes := m.nodes.erase key }

/-! ## §4. What the operations do to `find`, `lock` and the heap. -/

variable {m : Memory} {key k : Int} {a b : Addr} {node : ObjectNode}
  {f : ObjectNode → ObjectNode}

theorem owned_iff : m.owned a = true ↔ ∃ k, m.find k = some (some a) := by
  unfold owned find
  rw [List.any_eq_true]
  constructor
  · intro h
    obtain ⟨⟨k, p⟩, hmem, hp⟩ := h
    have hp' : p = some a := of_decide_eq_true hp
    subst hp'
    exact ⟨k, AList.mem_lookup_iff.mpr hmem⟩
  · intro h
    -- the entry under `k` is the owner
    obtain ⟨k, hk⟩ := h
    exact ⟨⟨k, some a⟩, AList.mem_lookup_iff.mp hk, by simp⟩

theorem lock_eq_some {wp : WeakPtr} :
    m.lock wp = some a ↔ wp = some a ∧ ∃ k, m.find k = some (some a) := by
  unfold lock
  rw [Option.filter_eq_some_iff, owned_iff]

@[simp] theorem find_store_self : (m.store key node).find key = some (some m.next) :=
  AList.lookup_insert _

theorem find_store_of_ne (h : k ≠ key) : (m.store key node).find k = m.find k :=
  AList.lookup_insert_ne h

@[simp] theorem index_store_self : (m.store key node).index key = some m.next := by
  unfold Memory.index
  rw [find_store_self]
  rfl

@[simp] theorem heap_store_next : (m.store key node).heap m.next = node :=
  Function.update_self ..

theorem heap_store_of_ne (h : a ≠ m.next) : (m.store key node).heap a = m.heap a :=
  Function.update_of_ne h ..

@[simp] theorem next_store : (m.store key node).next = m.next + 1 := rfl

@[simp] theorem find_modify : (m.modify a f).find k = m.find k := rfl

@[simp] theorem heap_modify_self : (m.modify a f).heap a = f (m.heap a) :=
  Function.update_self ..

theorem heap_modify_of_ne (h : b ≠ a) : (m.modify a f).heap b = m.heap b :=
  Function.update_of_ne h ..

@[simp] theorem find_erase_self : (m.erase key).find key = none :=
  AList.lookup_erase _ _

theorem find_erase_of_ne (h : k ≠ key) : (m.erase key).find k = m.find k :=
  AList.lookup_erase_ne h

end Memory

end ApiSyncer
