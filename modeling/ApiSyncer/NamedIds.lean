/-
  ApiSyncer.NamedIds
  ──────────────────
  **WHETHER A REQUEST ACTS ON THE ID IT NAMES.**

  The handlers narrow the 64 bits of an id to an `int`, so 2^32 + 2 names the
  node 2 as well, and -1, the value for "no parent", can be sent.  Within the
  range of an `int` the tables are the weak spot: the DELETE by parent takes
  the rows of all siblings, and a ROLLBACK takes back what an earlier request
  has left uncommitted.

      AddsUnder / RemovesOnly    the property
      requests_act_on_named_iff  when it holds
-/
import ApiSyncer.Atomicity
import ApiSyncer.Handlers

namespace ApiSyncer

open ApiSyncer.Lib

/-! ## §1. The property. -/

/-- Nothing has changed: neither the memory nor the rows that the session
reads. -/
structure Undisturbed (s s' : State) : Prop where
  memory : SameMemory s.mem s'.mem
  view : s'.db.view = s.db.view

/-- The node `id`, at `new`, is new, and was attached to the node `v`, at
`parent`, which is not superRoot: it comes last in its list, and in the tables
its row is the only new one, and it is a child of `v`. -/
structure AttachedAt (v id : Int) (s s' : State) (parent new : Addr) : Prop where
  found : s.mem.find v = some (some parent)
  named : (s.mem.heap parent).getID = v
  noRoot : s.mem.superRoot ≠ some parent
  fresh : s.mem.find id = none
  find : s'.mem.find id = some (some new)
  appended : s'.mem.heap parent = (s.mem.heap parent).pushChild (some new)
  entries : ∀ k, k ≠ id → s'.mem.find k = s.mem.find k
  others : ∀ k a, s.mem.find k = some (some a) → a ≠ parent → s'.mem.heap a = s.mem.heap a
  objects : ∃ o, o.id = id ∧ s'.db.view.objects = s.db.view.objects ++ [o]
  relationships : s'.db.view.relationships = s.db.view.relationships ++ [⟨v, id⟩]

def AttachedTo (v : Int) (s s' : State) : Prop :=
  ∃ id parent new, AttachedAt v id s s' parent new

/-- The tables but for the rows of `v`. -/
def Tables.without (T : Tables) (v : Int) : Tables := T.apply (.deleteObject v)

/-- A child list but for `v` and for expired pointers. -/
def Memory.others (m : Memory) (v : Int) (children : List WeakPtr) : List WeakPtr :=
  children.filter fun child => child ≠ m.index v ∧ m.expired child = false

/-- The nodes other than `v` are what they were, except that a list may have
lost `v` and expired pointers. -/
structure SparesMemory (v : Int) (m m' : Memory) : Prop where
  superRoot : m'.superRoot = m.superRoot
  entries : ∀ k, k ≠ v → m'.find k = m.find k
  fields : ∀ k a, k ≠ v → m.find k = some (some a) →
    (m'.heap a).id = (m.heap a).id ∧ (m'.heap a).name = (m.heap a).name
  shrinks : ∀ k a, k ≠ v → m.find k = some (some a) →
    (m'.heap a).children.Sublist (m.heap a).children
  children : ∀ k a, k ≠ v → m.find k = some (some a) →
    m.others v (m'.heap a).children = m.others v (m.heap a).children

/-- The nodes other than `v` and their rows are what they were. -/
structure Spares (v : Int) (s s' : State) : Prop where
  memory : SparesMemory v s.mem s'.mem
  view : s'.db.view.without v = s.db.view.without v

/-- `v` is the id of an object, in the map and in the tables. -/
def Stored (v : Int) (s : State) : Prop := s.mem.find v ≠ none ∧ v ∈ s.db.view.ids

/-- `add_node` with the parent `v`. -/
def AddsUnder (v : Int) (s s' : State) : Prop := Undisturbed s s' ∨ AttachedTo v s s'

/-- `remove_node` with the id `v`. -/
def RemovesOnly (v : Int) (s s' : State) : Prop :=
  Spares v s s' ∧ (¬ Stored v s → Undisturbed s s')

/-! ## §2. The conditions. -/

/-- A new node can be linked to `v`: it is not the -1 of "no parent", the calls
after the first INSERT go through, and `v` has its row and its node. -/
structure Linkable (v : Int) (env : Env) (s : State) : Prop where
  notSentinel : v ≠ -1
  lastInsertId : env.fails .lastInsertId = false
  insertRelationship : env.fails .insertRelationship = false
  row : v ∈ s.db.view.ids
  node : ∃ parent, s.mem.find v = some (some parent)

/-- A ROLLBACK goes through and takes back rows that an earlier request has
left uncommitted. -/
def Reverts (env : Env) (s : State) : Prop :=
  env.fails .rollback = false ∧ s.db.committed ≠ s.db.view

/-- A ROLLBACK goes through and takes back rows that are not rows of `v`. -/
def RevertsOthers (v : Int) (env : Env) (s : State) : Prop :=
  env.fails .rollback = false ∧ s.db.committed.without v ≠ s.db.view.without v

/-- The server reads the INSERT of the name as one row, if at all. -/
def SingleRow (mysql : MySQL) (name : String) : Prop :=
  ∀ names, mysql.valuesOf (insertObjectQuery name) = some names → names.length = 1

/-- Where the name is accepted it is one row and the node can be linked to `v`,
and where it is refused the ROLLBACK takes nothing back. -/
def LinksOrRefuses (mysql : MySQL) (name : String) (v : Int) (env : Env) (s : State) : Prop :=
  (InsertAccepted mysql name env s → Linkable v env s ∧ SingleRow mysql name)
    ∧ (¬ InsertAccepted mysql name env s → ¬ Reverts env s)

/-- `removeNode id` comes to its ROLLBACK. -/
def RollsBack (id : Int) (env : Env) (s : State) : Prop :=
  (∃ p, Strays id env s p)
    ∨ (∃ p node parent, Detaches id env s p node parent)
      ∧ (env.fails .deleteRelationships = true ∨ env.fails .deleteObject = true)

/-- The first DELETE of `removeNode` runs, and no ROLLBACK undoes it. -/
def DeletesRows (env : Env) (s : State) : Prop :=
  env.fails .deleteRelationships = false
    ∧ (env.fails .deleteObject = false ∨ env.fails .rollback = true
      ∨ env.fails .autocommitOff = true ∧ s.db.session.autocommit = true)

/-- `removeNode id` changes something. -/
def Disturbs (id : Int) (env : Env) (s : State) : Prop :=
  (∃ p node parent, Detaches id env s p node parent
      ∧ (DeletesRows env s ∨ Drops s.mem parent node))
    ∨ RollsBack id env s ∧ Reverts env s

/-- `removeNode id` changes another node: the row of a sibling goes, or one
that waited for its commit. -/
def DisturbsOthers (id : Int) (env : Env) (s : State) : Prop :=
  (∃ p node parent, Detaches id env s p node parent ∧ DeletesRows env s ∧ p ≠ id
      ∧ ∃ c, c ≠ id ∧ ⟨p, c⟩ ∈ s.db.view.relationships)
    ∨ RollsBack id env s ∧ RevertsOthers id env s

/-! ## §3. What the session reads after a ROLLBACK. -/

section Views

variable {env : Env} {s : State} {db : Db}

theorem view_commit (mysql : MySQL) (env : Env) (db : Db) :
    (attempt mysql env .commit db).view = db.view := by
  cases hf : env.fails .commit with
  | true => rw [show attempt mysql env .commit db = db from attempt_fails hf]
  | false =>
      rw [attempt_commit hf]
      rfl

/-- A ROLLBACK that goes through leaves what is committed. -/
theorem view_rollback (mysql : MySQL) (env : Env) (db : Db) :
    (attempt mysql env .rollback db).view
      = if env.fails .rollback = true then db.view else db.committed := by
  cases hf : env.fails .rollback with
  | true =>
      rw [show attempt mysql env .rollback db = db from attempt_fails hf]
      rfl
  | false =>
      rw [attempt_rollback hf]
      rfl

/-- Turning autocommit off commits nothing. -/
theorem committed_autocommitOff (mysql : MySQL) (env : Env) (db : Db) :
    (attempt mysql env (.setAutocommit false) db).committed = db.committed := by
  cases hf : env.fails .autocommitOff with
  | true => rw [show attempt mysql env (.setAutocommit false) db = db from attempt_fails hf]
  | false =>
      rw [attempt_autocommitOff hf]
      rfl

/-- With autocommit on, all that the session reads is committed. -/
theorem Db.committed_eq_view (h : db.session.autocommit = true) : db.committed = db.view :=
  (Session.view_eq_committed (db.session.settled h)).symm

theorem Db.view_deleted (db : Db) (p : Int) :
    (db.deleted p).view = db.view.apply (.deleteRelationships p) := Session.view_write _ _

theorem Db.view_deletedObject (db : Db) (id : Int) :
    (db.deletedObject id).view = db.view.apply (.deleteObject id) := Session.view_write _ _

/-- What the session reads after the ROLLBACK of a request that wrote
nothing. -/
theorem view_rolledBack (mysql : MySQL) (env : Env) (s : State) :
    (attempt mysql env .rollback (attempt mysql env (.setAutocommit false) s.db)).view
      = if env.fails .rollback = true then s.db.view else s.db.committed := by
  rw [view_rollback, view_autocommitOff, committed_autocommitOff]

/-- What the session reads after the ROLLBACK of a request that ran the first
DELETE. -/
theorem view_rolledBack_deleted (mysql : MySQL) (env : Env) (s : State) (p : Int) :
    (attempt mysql env .rollback
        ((attempt mysql env (.setAutocommit false) s.db).deleted p)).view
      = if env.fails .rollback = true
          ∨ env.fails .autocommitOff = true ∧ s.db.session.autocommit = true
        then s.db.view.apply (.deleteRelationships p) else s.db.committed := by
  have hview : ((attempt mysql env (.setAutocommit false) s.db).deleted p).view
      = s.db.view.apply (.deleteRelationships p) := by
    rw [Db.view_deleted, view_autocommitOff]
  rw [view_rollback, hview]
  -- a ROLLBACK that goes through finds the DELETE only if it waits
  cases hback : env.fails .rollback with
  | true => simp
  | false =>
      cases hon : (attempt mysql env (.setAutocommit false) s.db).session.autocommit with
      | true =>
          have hmode := autocommit_autocommitOff mysql env s.db
          rw [hon, eq_comm, Bool.and_eq_true] at hmode
          rw [if_neg (by simp), if_pos (Or.inr hmode), ← hview]
          exact Db.committed_eq_view (by unfold Db.deleted; rwa [Session.autocommit_write])
      | false =>
          have hmode := autocommit_autocommitOff mysql env s.db
          rw [hon, eq_comm, ← Bool.not_eq_true, Bool.and_eq_true] at hmode
          rw [if_neg (by simp), if_neg (by simpa using hmode)]
          exact (Session.committed_write_of_off hon _).trans (committed_autocommitOff mysql env s.db)

/-- What is left after a ROLLBACK is what the session read before, as far as
`f` tells, unless the ROLLBACK goes through and takes rows back. -/
theorem reverted_iff {α : Type} (f : Tables → α) :
    f (if env.fails .rollback = true then s.db.view else s.db.committed) = f s.db.view
      ↔ ¬ (env.fails .rollback = false ∧ f s.db.committed ≠ f s.db.view) := by
  cases env.fails .rollback with
  | true => simp
  | false => simp

end Views

/-! ## §4. What belongs to the other nodes. -/

namespace Tables

variable {T : Tables} {v p c : Int}

theorem without_deleteObject : (T.apply (.deleteObject v)).without v = T.without v := by
  unfold without apply
  simp only [List.filter_filter, Bool.and_self]

/-- **Deleting the rows of a parent spares the rows of others than `v` exactly
when `v` is that parent or has no sibling.** -/
theorem without_deleteRelationships :
    (T.apply (.deleteRelationships p)).without v = T.without v
      ↔ p = v ∨ ∀ c, ⟨p, c⟩ ∈ T.relationships → c = v := by
  constructor
  · intro heq
    by_cases hpv : p = v
    · exact Or.inl hpv
    · refine Or.inr fun c hc => ?_
      by_contra hcv
      -- the row is gone on the left and there on the right
      have hrow : ⟨p, c⟩ ∈ (T.without v).relationships :=
        mem_relationships_deleteObject.mpr ⟨hc, hpv, hcv⟩
      rw [← heq] at hrow
      have hkept := (mem_relationships_deleteObject.mp hrow).1
      exact (mem_relationships_deleteRelationships.mp hkept).2 rfl
  · intro h
    unfold without apply
    simp only [Tables.mk.injEq, true_and, List.filter_filter]
    refine List.filter_congr fun r hr => ?_
    by_cases hrp : r.parent_id = p
    · rcases h with hpv | hall
      · simp [hrp, hpv]
      · have hcv := hall r.child_id (hrp ▸ hr)
        simp [hcv]
    · simp [hrp]

end Tables

section Memory

variable {m m' : Memory} {s : State} {v id : Int} {node parent : Addr}

theorem SameMemory.spares (h : SameMemory m m') : SparesMemory v m m' where
  superRoot := h.superRoot
  entries k _ := h.entries k
  fields k a _ hk := by
    rw [h.objects k a hk]
    exact ⟨rfl, rfl⟩
  shrinks k a _ hk := by rw [h.objects k a hk]
  children k a _ hk := by rw [h.objects k a hk]

/-- **Unlinking a node spares the others.** -/
theorem sparesMemory_unlinked (hfind : s.mem.find id = some (some node)) :
    SparesMemory id s.mem (s.unlinked parent node) := by
  have hindex : s.mem.index id = some node := by
    unfold Memory.index
    rw [hfind]
    rfl
  -- the list of `parent` is all that may change
  have hheap : ∀ a, (s.unlinked parent node).heap a = s.mem.heap a
      ∨ (s.unlinked parent node).heap a
        = { s.mem.heap a with children := s.mem.others id (s.mem.heap a).children } := by
    intro a
    unfold State.unlinked
    by_cases ha : a = parent
    · subst ha
      rw [Memory.heap_modify_self, removeChild_eq]
      unfold Memory.others
      rw [hindex]
      exact Or.inr rfl
    · exact Or.inl (Memory.heap_modify_of_ne ha)
  refine ⟨rfl, fun _ _ => rfl, fun k a _ _ => ?_, fun k a _ _ => ?_, fun k a _ _ => ?_⟩
  · rcases hheap a with heq | heq <;> rw [heq] <;> exact ⟨rfl, rfl⟩
  · rcases hheap a with heq | heq
    · rw [heq]
    · rw [heq]
      exact List.filter_sublist
  · rcases hheap a with heq | heq
    · rw [heq]
    · rw [heq]
      show s.mem.others id (s.mem.others id (s.mem.heap a).children) = _
      unfold Memory.others
      rw [List.filter_filter]
      simp only [Bool.and_self]

theorem SparesMemory.erase (h : SparesMemory v m m') : SparesMemory v m (m'.erase v) where
  superRoot := h.superRoot
  entries k hk := (Memory.find_erase_of_ne hk).trans (h.entries k hk)
  fields := h.fields
  shrinks := h.shrinks
  children := h.children

end Memory

theorem Undisturbed.spares {s s' : State} {v : Int} (h : Undisturbed s s') : Spares v s s' :=
  ⟨h.memory.spares, by rw [h.view]⟩

/-! ## §5. `/api/add_node`. -/

section Add

variable {mysql : MySQL} {env : Env} {s s' : State} {root a : Addr} {name : String} {v : Int64}
  {new_id r : Int} {rows : List ObjectRow} {db : Db}

/-- The id of a node of the map is passed on as it is. -/
theorem Grounded.narrow_of_find (h : Grounded s root) (hfind : s.mem.find v.toInt ≠ none) :
    narrow v = v.toInt := narrow_eq_self.mpr (h.key_range hfind)

/-- The ids of the map were handed out. -/
theorem Grounded.find_fresh (h : Grounded s root) (hi : Inserted mysql name env s new_id rows db) :
    s.mem.find new_id = none := by
  by_contra hfind
  rcases h.indexed.keys new_id hfind with hroot | halloc
  · exact hi.new_id_ne_superRootKey hroot
  · exact (hi.fresh hi.new_id_mem).2.2 halloc

/-- The INSERT adds a row. -/
theorem Inserted.view_ne (hi : Inserted mysql name env s new_id rows db) :
    db.view ≠ s.db.view := by
  intro heq
  have hlist := congrArg Tables.objects (hi.view_eq.symm.trans heq)
  rw [Tables.objects_insertObjects, List.append_right_eq_self] at hlist
  have hmem := hi.new_id_mem
  rw [hlist] at hmem
  cases hmem

theorem Linkable.narrow_eq (hl : Linkable v.toInt env s) (h : Grounded s root) :
    narrow v = v.toInt := by
  obtain ⟨parent, hfind⟩ := hl.node
  refine h.narrow_of_find ?_
  rw [hfind]
  simp

theorem Linkable.accepted (hl : Linkable v.toInt env s) (h : Grounded s root) :
    ParentAccepted (narrow v) env s := by
  rw [hl.narrow_eq h]
  exact Or.inr ⟨hl.insertRelationship, Or.inl hl.row, Or.inr hl.node⟩

theorem AttachedTo.narrow_eq (hatt : AttachedTo v.toInt s s') (h : Grounded s root) :
    narrow v = v.toInt := by
  obtain ⟨id, parent, new, hat⟩ := hatt
  refine h.narrow_of_find ?_
  rw [hat.found]
  simp

/-- The list of the parent has changed. -/
theorem AttachedTo.heap_ne {v : Int} (hatt : AttachedTo v s s') :
    ¬ ∀ k a, s.mem.find k = some (some a) → s'.mem.heap a = s.mem.heap a := by
  intro hheap
  obtain ⟨id, parent, new, hat⟩ := hatt
  have hlist := congrArg (·.children.length) (hat.appended.symm.trans (hheap _ _ hat.found))
  unfold ObjectNode.pushChild at hlist
  simp only [List.length_append, List.length_singleton] at hlist
  omega

theorem Grounded.heap_stored (h : Grounded s root) {k : Int}
    (hk : s.mem.find k = some (some a)) : (s.stored new_id name).heap a = s.mem.heap a :=
  Memory.heap_store_of_ne (Nat.ne_of_lt (h.indexed.bound k a hk))

/-- An entry for the new node is a change. -/
theorem Grounded.not_sameMemory (h : Grounded s root)
    (hi : Inserted mysql name env s new_id rows db) {m : Memory} (hnew : m.find new_id ≠ none) :
    ¬ SameMemory s.mem m := by
  intro hsame
  rw [hsame.entries, h.find_fresh hi] at hnew
  exact hnew rfl

/-- The tables with the new rows and the row of the relationship. -/
theorem Inserted.view_linked {parent_id : Int} (hi : Inserted mysql name env s new_id rows db) :
    (attempt mysql env (.setAutocommit true)
      { db with session := db.session.write (.insertRelationship ⟨parent_id, new_id⟩) }).view
      = (s.db.view.apply (.insertObjects rows)).apply
        (.insertRelationship ⟨parent_id, new_id⟩) := by
  rw [view_setAutocommit, ← hi.view_eq]
  exact Session.view_write _ _

/-- A name is read as one row exactly when it adds one. -/
theorem Inserted.singleRow_iff (hi : Inserted mysql name env s new_id rows db) :
    SingleRow mysql name ↔ ∃ o, o.id = new_id ∧ rows = [o] := by
  constructor
  · intro hsingle
    obtain ⟨row, rest, rfl, hid⟩ := hi.effect.head
    have hlen := hsingle _ hi.effect.names_eq
    rw [List.length_map, List.length_cons] at hlen
    obtain rfl := List.eq_nil_of_length_eq_zero (Nat.succ.inj hlen)
    exact ⟨row, hid, rfl⟩
  · intro hone names hnames
    obtain ⟨o, -, rfl⟩ := hone
    rw [← Option.some.inj (hi.effect.names_eq.symm.trans hnames)]
    rfl

/-- **Linking under `v` attaches the node to `v`.** -/
theorem Grounded.attachedTo (h : Grounded s root) (hi : Inserted mysql name env s new_id rows db)
    (hsingle : SingleRow mysql name) {parent_id : Int} (hpar : parent_id ≠ -1)
    (hfind : s.mem.find parent_id = some (some a)) :
    AttachedTo parent_id s
      ⟨attempt mysql env (.setAutocommit true)
        { db with session := db.session.write (.insertRelationship ⟨parent_id, new_id⟩) },
        (s.stored new_id name).modify a (·.pushChild (some s.mem.next))⟩ := by
  have hview := @Inserted.view_linked _ _ _ _ _ _ _ parent_id hi
  refine ⟨new_id, a, s.mem.next, ?_⟩
  constructor
  · exact hfind
  · obtain ⟨hlo, hhi⟩ := h.key_range (show s.mem.find parent_id ≠ none by rw [hfind]; simp)
    unfold ObjectNode.getID
    rw [h.indexed.named _ _ hfind]
    exact toInt_toUInt hlo hhi
  · intro hroot
    rw [h.anchored.pointer] at hroot
    obtain rfl := Option.some.inj hroot
    exact hpar ((h.indexed.distinct _ _ _ hfind h.anchored.find).trans superRootKey_eq)
  · exact h.find_fresh hi
  · show (s.stored new_id name).find new_id = _
    exact Memory.find_store_self
  · rw [Memory.heap_modify_self, h.heap_stored hfind]
  · intro k hk
    show (s.stored new_id name).find k = _
    exact Memory.find_store_of_ne hk
  · intro k b hk hne
    rw [Memory.heap_modify_of_ne hne]
    exact h.heap_stored hk
  · obtain ⟨o, hid, rfl⟩ := hi.singleRow_iff.mp hsingle
    exact ⟨o, hid, congrArg Tables.objects hview⟩
  · rw [hview]
    rfl

/-- Linking under `v` needs that `v` is a node, and that nothing else is added. -/
theorem Grounded.attachedTo_iff (h : Grounded s root)
    (hi : Inserted mysql name env s new_id rows db) (hlast : env.fails .lastInsertId = false)
    (hpar : narrow v ≠ -1) (hf : env.fails .insertRelationship = false)
    (hadm : Db.admitsRelationship db.view ⟨narrow v, new_id⟩ = true)
    (hfind : (s.stored new_id name).find (narrow v) = some (some a)) :
    AttachedTo v.toInt s
        ⟨attempt mysql env (.setAutocommit true)
          { db with session := db.session.write (.insertRelationship ⟨narrow v, new_id⟩) },
          (s.stored new_id name).modify a (·.pushChild (some s.mem.next))⟩
      ↔ Linkable v.toInt env s ∧ SingleRow mysql name := by
  constructor
  · intro hatt
    have hv := hatt.narrow_eq h
    obtain ⟨id, parent, new, hat⟩ := hatt
    have hids := (hi.admitted h.issued.known).mp hadm
    -- nothing else was added, so the INSERT was one row
    have hrows : ∃ o, o.id = new_id ∧ rows = [o] := by
      obtain ⟨o, -, hobjects⟩ := hat.objects
      have hlinked := congrArg Tables.objects (@Inserted.view_linked _ _ _ _ _ _ _ (narrow v) hi)
      have heq : rows = [o] := List.append_cancel_left (hlinked.symm.trans hobjects)
      obtain ⟨row, rest, hhead, hid⟩ := hi.effect.head
      obtain ⟨rfl, -⟩ := List.cons.inj (heq.symm.trans hhead)
      exact ⟨o, hid, heq⟩
    rw [hv] at hpar hids
    refine ⟨⟨hpar, hlast, hf, hids.resolve_right ?_, parent, hat.found⟩,
      hi.singleRow_iff.mpr hrows⟩
    -- the ids of the new rows are not in the map
    rw [hi.effect.ids_eq]
    intro hmem
    rcases h.indexed.keys v.toInt (by rw [hat.found]; simp) with hroot | halloc
    · exact hpar (hroot.trans superRootKey_eq)
    · exact (hi.fresh hmem).2.2 halloc
  · intro hcond
    obtain ⟨hl, hsingle⟩ := hcond
    have hv := hl.narrow_eq h
    obtain ⟨parent, hparent⟩ := hl.node
    rw [hv] at hfind hpar ⊢
    refine h.attachedTo hi hsingle hpar ?_
    unfold State.stored at hfind
    rwa [Memory.find_store_of_ne ?_] at hfind
    intro heq
    rw [heq, h.find_fresh hi] at hparent
    cases hparent

/-- Under superRoot the node is under no node that was named: the -1 sent is the
key of superRoot. -/
theorem AttachedTo.narrow_ne (hatt : AttachedTo v.toInt s s') (h : Grounded s root) :
    narrow v ≠ -1 := by
  intro hpar
  have hv := hatt.narrow_eq h
  obtain ⟨id, parent, new, hat⟩ := hatt
  have hroot := h.anchored.find
  rw [superRootKey_eq, ← hpar, hv, hat.found] at hroot
  exact hat.noRoot (h.anchored.pointer.trans (Option.some.inj hroot).symm)

/-- A refused name changes nothing unless the ROLLBACK does. -/
theorem addsUnder_refused_iff {v : Int} (hno : ¬ InsertAccepted mysql name env s) :
    AddsUnder v s ⟨attempt mysql env .rollback (attempt mysql env (.setAutocommit false) s.db),
        s.mem⟩
      ↔ LinksOrRefuses mysql name v env s := by
  have hview := view_rolledBack mysql env s
  constructor
  · intro hdone
    refine ⟨fun hacc => absurd hacc hno, fun _ => ?_⟩
    rcases hdone with hsame | hatt
    · refine (reverted_iff id).mp ?_
      rw [← hview]
      exact hsame.view
    · exact absurd (fun _ _ _ => rfl) hatt.heap_ne
  · intro hcond
    exact Or.inl ⟨SameMemory.refl _, hview.trans ((reverted_iff id).mpr (hcond.2 hno))⟩

/-- Once the name is accepted something changes, so the node has to be where it
was asked for. -/
theorem Inserted.addsUnder_iff {v : Int} (hi : Inserted mysql name env s new_id rows db)
    (hsame : ¬ Undisturbed s s') (hiff : AttachedTo v s s' ↔ Linkable v env s ∧ SingleRow mysql name) :
    AddsUnder v s s' ↔ LinksOrRefuses mysql name v env s := by
  constructor
  · intro hdone
    exact ⟨fun _ => hiff.mp (hdone.resolve_left hsame), fun hno => absurd hi.accepted hno⟩
  · intro hcond
    exact Or.inr (hiff.mpr (hcond.1 hi.accepted))

/-- **`add_node` attaches the new node to the node it names, or changes
nothing, exactly when the node can be linked and is the only one, or the name is
refused and the ROLLBACK takes nothing back.** -/
theorem AddExit.named_iff (hexit : AddExit mysql name (narrow v) env s r s')
    (h : Grounded s root) :
    AddsUnder v.toInt s s' ↔ LinksOrRefuses mysql name v.toInt env s := by
  have hnew : ∀ {new_id a}, ((s.stored new_id name).modify a
      (·.pushChild (some s.mem.next))).find new_id ≠ none := by
    intro new_id a
    rw [Memory.find_modify]
    unfold State.stored
    rw [Memory.find_store_self]
    simp
  cases hexit with
  | insertRefused hrefused => exact addsUnder_refused_iff fun hacc => hacc.ran hrefused
  -- the row is there, and no node
  | idLost hi hlost =>
      refine hi.addsUnder_iff (fun hsame => hi.view_ne hsame.view) (iff_of_false ?_ fun hl => ?_)
      · exact fun hatt => hatt.heap_ne fun _ _ _ => rfl
      · have hlast := hl.1.lastInsertId
        rw [hlost] at hlast
        cases hlast
  -- the entry stays in the map, and no list has changed
  | relationshipRefused hi hlast hpar hrefused =>
      refine hi.addsUnder_iff (fun hsame => h.indexed.not_sameMemory_stored hsame.memory)
        (iff_of_false ?_ fun hl => ?_)
      · exact fun hatt => hatt.heap_ne fun _ _ hk => h.heap_stored hk
      · exact hi.refused h.issued.known hpar hrefused (hl.1.accepted h)
  | parentUnknown hi hlast hpar hf hadm hfind =>
      refine hi.addsUnder_iff (fun hsame => h.indexed.not_sameMemory_stored hsame.memory)
        (iff_of_false ?_ fun hl => ?_)
      · exact fun hatt => hatt.heap_ne fun _ _ hk => h.heap_stored hk
      · exact hi.unknown hpar hfind (hl.1.accepted h)
  | linked hi hlast hpar hf hadm hfind =>
      exact hi.addsUnder_iff (fun hsame => h.not_sameMemory hi hnew hsame.memory)
        (h.attachedTo_iff hi hlast hpar hf hadm hfind)
  | rooted hi hlast hpar hlock =>
      refine hi.addsUnder_iff (fun hsame => h.not_sameMemory hi hnew hsame.memory)
        (iff_of_false (fun hatt => hatt.narrow_ne h hpar) fun hl => ?_)
      exact hl.1.notSentinel ((hl.1.narrow_eq h).symm.trans hpar)

end Add

/-! ## §6. `/api/remove_node`. -/

/-- What became of a `removeNode id`: nothing; or it came to its ROLLBACK before
the node was unlinked in memory, or after; or rows are gone. -/
inductive RemoveEffect (id : Int) (env : Env) (s s' : State) : Prop where
  | kept : (∀ p node parent, ¬ Detaches id env s p node parent) → ¬ RollsBack id env s →
      s'.mem = s.mem → s'.db.view = s.db.view → RemoveEffect id env s s'
  | strayed : (∀ p node parent, ¬ Detaches id env s p node parent) → RollsBack id env s →
      s'.mem = s.mem →
      s'.db.view = (if env.fails .rollback = true then s.db.view else s.db.committed) →
      RemoveEffect id env s s'
  | reverted {p : Int} {node parent : Addr} : Detaches id env s p node parent →
      ¬ DeletesRows env s → RollsBack id env s → s'.mem = s.unlinked parent node →
      s'.db.view = (if env.fails .rollback = true then s.db.view else s.db.committed) →
      RemoveEffect id env s s'
  | deleted {p : Int} {node parent : Addr} : Detaches id env s p node parent →
      DeletesRows env s → ¬ (RollsBack id env s ∧ Reverts env s) →
      SparesMemory id s.mem s'.mem → ⟨p, id⟩ ∉ s'.db.view.relationships →
      s'.db.view.without id = (s.db.view.apply (.deleteRelationships p)).without id →
      RemoveEffect id env s s'

section Remove

variable {mysql : MySQL} {env : Env} {s s' : State} {root : Addr} {id p : Int} {v : Int64}
  {node parent : Addr}

theorem Detaches.rollsBack_iff (h : Detaches id env s p node parent) :
    RollsBack id env s
      ↔ env.fails .deleteRelationships = true ∨ env.fails .deleteObject = true := by
  constructor
  · intro hback
    rcases hback with ⟨q, hstray⟩ | ⟨-, hfails⟩
    · -- the parent delivered is in the map
      have hpq : p = q := Option.some.inj (h.delivered.symm.trans hstray.delivered)
      have hmissing := hstray.missing
      rw [← hpq, h.find] at hmissing
      cases hmissing
    · exact hfails
  · intro hfails
    exact Or.inr ⟨⟨p, node, parent, h⟩, hfails⟩

theorem Detaches.disturbs_iff (h : Detaches id env s p node parent) :
    Disturbs id env s ↔ (DeletesRows env s ∨ Drops s.mem parent node)
      ∨ RollsBack id env s ∧ Reverts env s := or_congr_left h.exists_iff

theorem Detaches.disturbsOthers_iff (h : Detaches id env s p node parent) :
    DisturbsOthers id env s ↔ (DeletesRows env s ∧ p ≠ id
        ∧ ∃ c, c ≠ id ∧ ⟨p, c⟩ ∈ s.db.view.relationships)
      ∨ RollsBack id env s ∧ RevertsOthers id env s := or_congr_left h.exists_iff

section NoDetaches

variable (hno : ∀ p node parent, ¬ Detaches id env s p node parent)

include hno

theorem disturbs_iff_of_not : Disturbs id env s ↔ RollsBack id env s ∧ Reverts env s := by
  refine or_iff_right fun hex => ?_
  obtain ⟨p, node, parent, hdet, -⟩ := hex
  exact hno p node parent hdet

theorem disturbsOthers_iff_of_not :
    DisturbsOthers id env s ↔ RollsBack id env s ∧ RevertsOthers id env s := by
  refine or_iff_right fun hex => ?_
  obtain ⟨p, node, parent, hdet, -⟩ := hex
  exact hno p node parent hdet

end NoDetaches

theorem KeptExit.effect (hexit : KeptExit mysql id env s s')
    (hno : ∀ p node parent, ¬ Detaches id env s p node parent) : RemoveEffect id env s s' := by
  have hkept : (∀ p, ¬ Strays id env s p) → ¬ RollsBack id env s := by
    intro hstray hback
    rcases hback with ⟨p, hp⟩ | ⟨⟨p, node, parent, hdet⟩, -⟩
    · exact hstray p hp
    · exact hno p node parent hdet
  cases hexit with
  | untouched hstray => exact .kept hno (hkept hstray) rfl rfl
  | autocommitOff hstray => exact .kept hno (hkept hstray) rfl (view_autocommitOff mysql env s.db)
  | @rolledBack p hstray =>
      refine .strayed hno (Or.inl ⟨p, hstray⟩) rfl ?_
      rw [view_setAutocommit, view_rolledBack]

theorem DetachExit.effect (hdet : Detaches id env s p node parent)
    (hexit : DetachExit mysql id env s p node parent s') : RemoveEffect id env s s' := by
  have hrow : ∀ {T : Tables}, ⟨p, id⟩ ∉ (T.apply (.deleteRelationships p)).relationships :=
    fun hr => (Tables.mem_relationships_deleteRelationships.mp hr).2 rfl
  cases hexit with
  | relationshipsKept hf =>
      refine .reverted hdet (fun hdel => ?_) (hdet.rollsBack_iff.mpr (Or.inl hf)) rfl
        (view_rolledBack mysql env s)
      rw [hdel.1] at hf
      cases hf
  | objectKept hf hf₂ =>
      have hback := hdet.rollsBack_iff.mpr (Or.inr hf₂)
      have hview := view_rolledBack_deleted mysql env s p
      by_cases hstays : env.fails .rollback = true
          ∨ env.fails .autocommitOff = true ∧ s.db.session.autocommit = true
      · -- the rows are gone, for good or until the next ROLLBACK
        rw [if_pos hstays] at hview
        refine .deleted hdet ⟨hf, Or.inr hstays⟩ (fun hrev => ?_)
          (sparesMemory_unlinked hdet.leaf.find) ?_ ?_
        · rcases hstays with hfails | ⟨-, hon⟩
          · rw [hrev.2.1] at hfails
            cases hfails
          · exact hrev.2.2 (Db.committed_eq_view hon)
        · rw [hview]
          exact hrow
        · rw [hview]
      · rw [if_neg hstays] at hview
        refine .reverted hdet (fun hdel => ?_) hback rfl ?_
        · rcases hdel.2 with hf₂' | hstays'
          · rw [hf₂] at hf₂'
            cases hf₂'
          · exact hstays hstays'
        · rw [if_neg fun hfails => hstays (Or.inl hfails)]
          exact hview
  | removed hf hf₂ =>
      have hview : (attempt mysql env (.setAutocommit true) (attempt mysql env .commit
          (((attempt mysql env (.setAutocommit false) s.db).deleted p).deletedObject id))).view
          = (s.db.view.apply (.deleteRelationships p)).apply (.deleteObject id) := by
        rw [view_setAutocommit, view_commit, Db.view_deletedObject, Db.view_deleted,
          view_autocommitOff]
      -- no DELETE has failed, so it does not come to a ROLLBACK
      refine .deleted hdet ⟨hf, Or.inl hf₂⟩ (fun hrev => ?_)
        (sparesMemory_unlinked hdet.leaf.find).erase ?_ ?_
      · rcases hdet.rollsBack_iff.mp hrev.1 with hfails | hfails
        · rw [hf] at hfails
          cases hfails
        · rw [hf₂] at hfails
          cases hfails
      · rw [hview]
        exact fun hr => hrow (Tables.mem_relationships_deleteObject.mp hr).1
      · rw [hview, Tables.without_deleteObject]

theorem RemoveSplit.effect (hsplit : RemoveSplit mysql id env s s') :
    RemoveEffect id env s s' := by
  rcases hsplit with ⟨hno, hexit⟩ | ⟨p, node, parent, hdet, hexit⟩
  · exact hexit.effect hno
  · exact hexit.effect hdet

namespace RemoveEffect

/-- **When nothing at all is changed.** -/
theorem undisturbed_iff (heff : RemoveEffect id env s s') :
    Undisturbed s s' ↔ ¬ Disturbs id env s := by
  cases heff with
  | kept hno hback hmem hview =>
      rw [disturbs_iff_of_not hno]
      refine iff_of_true ⟨?_, hview⟩ fun hdist => hback hdist.1
      rw [hmem]
      exact SameMemory.refl _
  | strayed hno hback hmem hview =>
      have hsame : Undisturbed s s' ↔ s'.db.view = s.db.view := by
        refine ⟨fun h => h.view, fun h => ⟨?_, h⟩⟩
        rw [hmem]
        exact SameMemory.refl _
      rw [hsame, hview, reverted_iff fun T => T, disturbs_iff_of_not hno, and_iff_right hback]
      exact Iff.rfl
  | @reverted p node parent hdet hdel hback hmem hview =>
      have hsame : Undisturbed s s' ↔ ¬ Drops s.mem parent node ∧ s'.db.view = s.db.view := by
        rw [← sameMemory_unlinked hdet.find, ← hmem]
        exact ⟨fun h => ⟨h.memory, h.view⟩, fun h => ⟨h.1, h.2⟩⟩
      rw [hsame, hview, reverted_iff fun T => T, hdet.disturbs_iff, or_iff_right hdel,
        and_iff_right hback, not_or]
      exact Iff.rfl
  | deleted hdet hdel hrev hmem hrow hview =>
      rw [hdet.disturbs_iff]
      refine iff_of_false (fun hsame => ?_) fun hno => hno (Or.inl (Or.inl hdel))
      rw [hsame.view] at hrow
      exact hrow hdet.row

/-- **When only `id` is changed.** -/
theorem spares_iff (heff : RemoveEffect id env s s') :
    Spares id s s' ↔ ¬ DisturbsOthers id env s := by
  -- the memory of the others is spared in any case
  have hspares : SparesMemory id s.mem s'.mem →
      (Spares id s s' ↔ s'.db.view.without id = s.db.view.without id) :=
    fun hmem => ⟨fun h => h.view, fun h => ⟨hmem, h⟩⟩
  cases heff with
  | kept hno hback hmem hview =>
      rw [disturbsOthers_iff_of_not hno]
      refine iff_of_true ⟨?_, by rw [hview]⟩ fun hdist => hback hdist.1
      rw [hmem]
      exact (SameMemory.refl _).spares
  | strayed hno hback hmem hview =>
      have hsame : SparesMemory id s.mem s'.mem := by
        rw [hmem]
        exact (SameMemory.refl _).spares
      rw [hspares hsame, hview, reverted_iff fun T => T.without id,
        disturbsOthers_iff_of_not hno, and_iff_right hback]
      exact Iff.rfl
  | reverted hdet hdel hback hmem hview =>
      have hsame : SparesMemory id s.mem s'.mem := by
        rw [hmem]
        exact sparesMemory_unlinked hdet.leaf.find
      rw [hspares hsame, hview, reverted_iff fun T => T.without id, hdet.disturbsOthers_iff,
        or_iff_right fun hrows => hdel hrows.1, and_iff_right hback]
      exact Iff.rfl
  | @deleted p node parent hdet hdel hrev hmem hrow hview =>
      -- what reverts rows of others reverts rows
      have hno : ¬ (RollsBack id env s ∧ RevertsOthers id env s) := fun hback =>
        hrev ⟨hback.1, hback.2.1, fun heq => hback.2.2 (by rw [heq])⟩
      rw [hspares hmem, hview, Tables.without_deleteRelationships, hdet.disturbsOthers_iff,
        or_iff_left hno, and_iff_right hdel]
      -- no sibling has a row
      constructor
      · intro hnone hsib
        obtain ⟨hp, c, hc, hrow'⟩ := hsib
        rcases hnone with hpid | hall
        · exact hp hpid
        · exact hc (hall c hrow')
      · intro hnone
        by_cases hp : p = id
        · exact Or.inl hp
        · refine Or.inr fun c hrow' => ?_
          by_contra hc
          exact hnone ⟨hp, c, hc, hrow'⟩

/-- Nothing is done about an id that is not stored. -/
theorem undisturbed_of_not_stored (heff : RemoveEffect id env s s') (h : Grounded s root)
    (hno : ¬ Stored id s) : Undisturbed s s' := by
  -- whatever removeNode acts on has a node and a row
  have hstored : ∀ {node p}, Leaf s id node → ⟨p, id⟩ ∈ s.db.view.relationships →
      Stored id s := by
    intro node p hleaf hrow
    refine ⟨?_, h.issued.tables.view.child_mem_ids hrow⟩
    rw [hleaf.find]
    simp
  rw [heff.undisturbed_iff]
  intro hdist
  rcases hdist with ⟨p, node, parent, hdet, -⟩ | ⟨⟨p, hstray⟩ | ⟨⟨p, node, parent, hdet⟩, -⟩, -⟩
  · exact hno (hstored hdet.leaf hdet.row)
  · obtain ⟨node, hleaf⟩ := hstray.leaf
    exact hno (hstored hleaf hstray.row)
  · exact hno (hstored hdet.leaf hdet.row)

/-- **`remove_node` acts on the id it names, exactly when that is an `int` and
no other node is changed, or its alias comes to nothing.** -/
theorem named_iff (heff : RemoveEffect (narrow v) env s s') (h : Grounded s root) :
    RemovesOnly v.toInt s s' ↔ (InRange v → ¬ DisturbsOthers v.toInt env s)
      ∧ (¬ InRange v → ¬ Disturbs (narrow v) env s) := by
  by_cases hrange : InRange v
  · rw [narrow_eq_self.mpr hrange] at heff
    constructor
    · intro honly
      exact ⟨fun _ => heff.spares_iff.mp honly.1, fun hno => absurd hrange hno⟩
    · intro hcond
      exact ⟨heff.spares_iff.mpr (hcond.1 hrange), heff.undisturbed_of_not_stored h⟩
  · -- no entry of the map has this id
    have hno : ¬ Stored v.toInt s := fun hstored => hrange (h.key_range hstored.1)
    constructor
    · intro honly
      exact ⟨fun hyes => absurd hyes hrange, fun _ => heff.undisturbed_iff.mp (honly.2 hno)⟩
    · intro hcond
      have hsame := heff.undisturbed_iff.mpr (hcond.2 hrange)
      exact ⟨hsame.spares, fun _ => hsame⟩

end RemoveEffect

end Remove

/-! ## §7. Both requests. -/

section Handlers

variable {mysql : MySQL} {env : Env} {s : State} {root : Addr}

theorem Grounded.addNodeHandler_named (h : Grounded s root) (name : Field String) (v : Int64)
    (env : Env) :
    ∃ resp s', addNodeHandler mysql (some ⟨name, .given v⟩) env s = .ok (resp, s')
      ∧ (AddsUnder v.toInt s s' ↔
          ∀ n, name = .given n → LinksOrRefuses mysql n v.toInt env s) := by
  -- without a name the handler answers before it looks at `parent_id`
  have hrefused : ∀ {resp : HttpResponse},
      (⟨name, .given v⟩ : AddBody).arguments = .error resp → (∀ n, name ≠ .given n) →
      ∃ resp s', addNodeHandler mysql (some ⟨name, .given v⟩) env s = .ok (resp, s')
        ∧ (AddsUnder v.toInt s s' ↔
            ∀ n, name = .given n → LinksOrRefuses mysql n v.toInt env s) := by
    intro resp hargs hno
    refine ⟨resp, s, addNodeHandler_error hargs, iff_of_true ?_ ?_⟩
    · exact Or.inl ⟨SameMemory.refl _, rfl⟩
    · exact fun n hn => absurd hn (hno n)
  cases name with
  | missing => exact hrefused rfl fun _ hn => by cases hn
  | null => exact hrefused rfl fun _ hn => by cases hn
  | mistyped => exact hrefused rfl fun _ hn => by cases hn
  | given name =>
      obtain ⟨r, s', hok, hexit⟩ := h.addNode name (narrow v) env
      refine ⟨_, s', addNodeHandler_ok rfl hok, ?_⟩
      rw [hexit.named_iff h]
      constructor
      · intro hcond n hn
        cases hn
        exact hcond
      · intro hall
        exact hall name rfl

theorem Grounded.removeNodeHandler_named (h : Grounded s root) (v : Int64) (env : Env) :
    ∃ resp s', removeNodeHandler mysql (some ⟨.given v⟩) env s = .ok (resp, s')
      ∧ (RemovesOnly v.toInt s s' ↔ (InRange v → ¬ DisturbsOthers v.toInt env s)
        ∧ (¬ InRange v → ¬ Disturbs (narrow v) env s)) := by
  obtain ⟨s', hok, -, hsplit⟩ := h.removeNode (narrow v) env
  exact ⟨_, s', removeNodeHandler_ok rfl hok, hsplit.effect.named_iff h⟩

/-- **The requests act on the ids they name exactly under these conditions.** -/
theorem requests_act_on_named_iff (h : Reachable mysql s) (env : Env) (name : Field String)
    (v w : Int64) :
    (∃ resp s', addNodeHandler mysql (some ⟨name, .given v⟩) env s = .ok (resp, s')
      ∧ (AddsUnder v.toInt s s' ↔
          ∀ n, name = .given n → LinksOrRefuses mysql n v.toInt env s))
    ∧ ∃ resp s', removeNodeHandler mysql (some ⟨.given w⟩) env s = .ok (resp, s')
      ∧ (RemovesOnly w.toInt s s' ↔ (InRange w → ¬ DisturbsOthers w.toInt env s)
        ∧ (¬ InRange w → ¬ Disturbs (narrow w) env s)) := by
  obtain ⟨root, hs⟩ := h.grounded
  exact ⟨hs.addNodeHandler_named name v env, hs.removeNodeHandler_named w env⟩

end Handlers

/-- With 1 and its child 2 there, adding a second child to 1 and removing 2 do
what they say. -/
theorem requests_act_on_named_children :
    (∃ resp s', addNodeHandler readsA (some ⟨.given "a", .given 1⟩) (.allocating [3]) State.two
        = .ok (resp, s') ∧ AddsUnder 1 State.two s')
    ∧ ∃ resp s', removeNodeHandler readsA (some ⟨.given 2⟩) (.allocating [3]) State.two
        = .ok (resp, s') ∧ RemovesOnly 2 State.two s' := by
  have hlinks : LinksOrRefuses readsA "a" 1 (.allocating [3]) State.two := by
    refine ⟨fun _ => ⟨⟨by decide, rfl, rfl, List.mem_cons_self, 1, rfl⟩, ?_⟩,
      fun _ hrev => hrev.2 rfl⟩
    exact fun _ hnames => readsA_length hnames
  have hothers : ¬ DisturbsOthers 2 (.allocating [3]) State.two := by
    intro hdist
    rcases hdist with ⟨p, node, parent, hdet, -, -, c, hc, hrow⟩ | ⟨-, hrev⟩
    · -- the only row is the one of 2
      have hrows : State.two.db.view.relationships = [⟨1, 2⟩] := rfl
      rw [hrows, List.mem_singleton] at hrow
      exact hc (RelationshipRow.mk.inj hrow).2
    · exact hrev.2 rfl
  obtain ⟨⟨resp, s', hok, hadd⟩, resp₂, s₂, hok₂, hremove⟩ :=
    requests_act_on_named_iff Reachable.two (.allocating [3]) (.given "a") 1 2
  refine ⟨⟨resp, s', hok, hadd.mpr fun n hn => ?_⟩, resp₂, s₂, hok₂, hremove.mpr ⟨?_, ?_⟩⟩
  · cases hn
    exact hlinks
  · exact fun _ => hothers
  · exact fun hno => absurd (by decide) hno

/-- **`remove_node` with the id 2^32 + 2 removes the node 2.** -/
theorem alias_removed :
    ¬ ∀ (mysql : MySQL) (env : Env) (s : State), Reachable mysql s →
      (∀ name v resp s', addNodeHandler mysql (some ⟨name, .given v⟩) env s = .ok (resp, s') →
        AddsUnder v.toInt s s')
      ∧ ∀ v resp s', removeNodeHandler mysql (some ⟨.given v⟩) env s = .ok (resp, s') →
        RemovesOnly v.toInt s s' := by
  intro hevery
  have hnarrow : narrow 4294967298 = 2 := by decide
  have harg : (⟨.given 4294967298⟩ : RemoveBody).argument = .ok 2 := congrArg _ hnarrow
  have hcall : removeNode readsA 2 (.allocating []) State.two
      = .ok (State.two.after readsA (.removing 2)) := rfl
  have honly := (hevery readsA (.allocating []) _ Reachable.two).2 _ _ _
    (removeNodeHandler_ok harg hcall)
  have hunknown : State.two.mem.find (4294967298 : Int64).toInt = none := rfl
  have hentry := (honly.2 fun hstored => hstored.1 hunknown).memory.entries 2
  have hold : State.two.mem.find 2 = some (some 2) := rfl
  have hnew : (State.two.after readsA (.removing 2)).mem.find 2 = none := rfl
  rw [hold, hnew] at hentry
  cases hentry

end ApiSyncer
