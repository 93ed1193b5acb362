/-
  ApiSyncer.Schema
  ────────────────
  **THE TWO TABLES AND THE WRITES THAT REACH THEM.**

  `objects (id, name)` with the AUTO_INCREMENT primary key `id`, and
  `relationships (parent_id, child_id)` with the pair as primary key and both
  columns foreign keys into `objects (id)`, ON DELETE CASCADE.  (The column
  `serial` of `objects` is read by no query of the program.)

  `SchemaTables` bundles table contents with the constraints that the schema
  enforces, so contents the server would refuse cannot be built.
-/
import ApiSyncer.Lib.Session

namespace ApiSyncer

open ApiSyncer.Lib

/-! ## §1. Rows and tables. -/

/-- A row of `objects`. -/
structure ObjectRow where
  id : Int
  name : String
  deriving DecidableEq, Repr

/-- A row of `relationships`. -/
structure RelationshipRow where
  parent_id : Int
  child_id : Int
  deriving DecidableEq, Repr

/-- The contents of the two tables. -/
structure Tables where
  objects : List ObjectRow
  relationships : List RelationshipRow
  deriving DecidableEq, Repr

namespace Tables

def empty : Tables := ⟨[], []⟩

/-- The primary keys present in `objects`. -/
def ids (T : Tables) : List Int := T.objects.map (·.id)

/-- The bounds of MySQL's `INT`, and of a C++ `int`. -/
def intMin : Int := -2147483648

def intMax : Int := 2147483647

/-- Both endpoints of the row exist. -/
def joins (T : Tables) (r : RelationshipRow) : Bool :=
  decide (r.parent_id ∈ T.ids ∧ r.child_id ∈ T.ids)

/-- `c` is the child of a row whose two endpoints exist. -/
def parented (T : Tables) (c : Int) : Bool :=
  T.relationships.any (fun r => T.joins r && decide (r.child_id = c))

theorem parented_iff {T : Tables} {c : Int} :
    T.parented c = true ↔ ∃ p, ⟨p, c⟩ ∈ T.relationships ∧ p ∈ T.ids ∧ c ∈ T.ids := by
  unfold parented joins
  rw [List.any_eq_true]
  constructor
  · intro h
    obtain ⟨⟨p, d⟩, hr, hd⟩ := h
    simp only [Bool.and_eq_true, decide_eq_true_eq] at hd
    obtain ⟨⟨hp, hc⟩, rfl⟩ := hd
    exact ⟨p, hr, hp, hc⟩
  · intro h
    obtain ⟨p, hr, hp, hc⟩ := h
    exact ⟨⟨p, c⟩, hr, by simp [hp, hc]⟩

/-- Both endpoints of every row are objects. -/
def ForeignKeys (T : Tables) : Prop :=
  ∀ r ∈ T.relationships, r.parent_id ∈ T.ids ∧ r.child_id ∈ T.ids

/-- With foreign keys every row joins two objects. -/
theorem ForeignKeys.parented_iff {T : Tables} (h : T.ForeignKeys) {c : Int} :
    T.parented c = true ↔ ∃ p, ⟨p, c⟩ ∈ T.relationships := by
  rw [Tables.parented_iff]
  constructor
  · intro hex
    obtain ⟨p, hr, -⟩ := hex
    exact ⟨p, hr⟩
  · intro hex
    obtain ⟨p, hr⟩ := hex
    exact ⟨p, hr, h _ hr⟩

theorem ForeignKeys.not_parented_iff {T : Tables} (h : T.ForeignKeys) {c : Int} :
    T.parented c = false ↔ ∀ p, ⟨p, c⟩ ∉ T.relationships := by
  rw [← Bool.not_eq_true, h.parented_iff, not_exists]

end Tables

/-- Table contents that the schema admits. -/
structure SchemaTables extends Tables where
  ids_nodup : (objects.map (·.id)).Nodup
  relationships_nodup : relationships.Nodup
  int_range : ∀ o ∈ objects, Tables.intMin ≤ o.id ∧ o.id ≤ Tables.intMax
  foreign_keys : toTables.ForeignKeys

/-! ## §2. The writes of the program. -/

/-- What one accepted INSERT or DELETE does. -/
inductive Write where
  | insertObjects (rows : List ObjectRow)
  | insertRelationship (row : RelationshipRow)
  | deleteRelationships (parent_id : Int)
  | deleteObject (id : Int)
  deriving DecidableEq, Repr

/-- The tables after a write.  `DELETE FROM relationships` is keyed by the
parent; `DELETE FROM objects` cascades over both foreign keys. -/
def Tables.apply (T : Tables) : Write → Tables
  | .insertObjects rows => { T with objects := T.objects ++ rows }
  | .insertRelationship row => { T with relationships := T.relationships ++ [row] }
  | .deleteRelationships parent_id =>
      { T with relationships := T.relationships.filter (fun r => r.parent_id ≠ parent_id) }
  | .deleteObject id =>
      { objects := T.objects.filter (fun o => o.id ≠ id),
        relationships := T.relationships.filter
          (fun r => r.parent_id ≠ id ∧ r.child_id ≠ id) }

instance : Applies Write Tables := ⟨Tables.apply⟩

namespace Tables

variable {T : Tables}

@[simp] theorem applies_eq (T : Tables) (w : Write) : Applies.apply T w = T.apply w := rfl

@[simp] theorem objects_insertObjects (rows : List ObjectRow) :
    (T.apply (.insertObjects rows)).objects = T.objects ++ rows := rfl

@[simp] theorem relationships_insertObjects (rows : List ObjectRow) :
    (T.apply (.insertObjects rows)).relationships = T.relationships := rfl

@[simp] theorem relationships_insertRelationship (row : RelationshipRow) :
    (T.apply (.insertRelationship row)).relationships = T.relationships ++ [row] := rfl

@[simp] theorem mem_relationships_deleteRelationships {p : Int} {r : RelationshipRow} :
    r ∈ (T.apply (.deleteRelationships p)).relationships
      ↔ r ∈ T.relationships ∧ r.parent_id ≠ p := by
  simp [apply]

@[simp] theorem mem_objects_deleteObject {id : Int} {o : ObjectRow} :
    o ∈ (T.apply (.deleteObject id)).objects ↔ o ∈ T.objects ∧ o.id ≠ id := by
  simp [apply]

@[simp] theorem mem_relationships_deleteObject {id : Int} {r : RelationshipRow} :
    r ∈ (T.apply (.deleteObject id)).relationships
      ↔ r ∈ T.relationships ∧ r.parent_id ≠ id ∧ r.child_id ≠ id := by
  simp [apply]

theorem mem_ids {i : Int} : i ∈ T.ids ↔ ∃ o ∈ T.objects, o.id = i := by
  simp [ids]

@[simp] theorem ids_insertObjects (rows : List ObjectRow) :
    (T.apply (.insertObjects rows)).ids = T.ids ++ rows.map (·.id) := by
  simp [ids]

theorem mem_ids_deleteObject {id i : Int} :
    i ∈ (T.apply (.deleteObject id)).ids ↔ i ∈ T.ids ∧ i ≠ id := by
  rw [mem_ids, mem_ids]
  constructor
  · intro h
    obtain ⟨o, ho, rfl⟩ := h
    obtain ⟨hT, hne⟩ := mem_objects_deleteObject.mp ho
    exact ⟨⟨o, hT, rfl⟩, hne⟩
  · intro h
    obtain ⟨⟨o, ho, rfl⟩, hne⟩ := h
    exact ⟨o, mem_objects_deleteObject.mpr ⟨ho, hne⟩, rfl⟩

end Tables

end ApiSyncer
