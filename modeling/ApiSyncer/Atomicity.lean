/-
  ApiSyncer.Atomicity
  ───────────────────
  **WHAT A CALL THAT DID NOT SUCCEED LEAVES IN MEMORY.**

  The database can roll back, the memory cannot.  `addNode` enters the new node
  into the map before it knows about the parent, and `removeNode` takes the
  node out of its parent's list before the two DELETEs; no exit takes these
  steps back.

      addNode_atomic_iff     an `addNode` that returns -1
      removeNode_intact_iff  a `removeNode` after which the id is still there
-/
import ApiSyncer.Durability
import ApiSyncer.Transactions
import ApiSyncer.Reachable

namespace ApiSyncer

open ApiSyncer.Lib

/-! ## §1. The same memory. -/

/-- The map has the same entries, each the same object with the same child
list. -/
structure SameMemory (m m' : Memory) : Prop where
  entries : ∀ k, m'.find k = m.find k
  objects : ∀ k a, m.find k = some (some a) → m'.heap a = m.heap a
  superRoot : m'.superRoot = m.superRoot

theorem mapM_congr {α β : Type} {f g : α → Except Abort β} :
    ∀ {l : List α}, (∀ a ∈ l, f a = g a) → l.mapM f = l.mapM g
  | [], _ => rfl
  | a :: l, h => by
      rw [List.mapM_cons, List.mapM_cons, h a List.mem_cons_self,
        mapM_congr fun b hb => h b (List.mem_cons_of_mem _ hb)]

namespace SameMemory

variable {m m' : Memory}

theorem refl (m : Memory) : SameMemory m m := ⟨fun _ => rfl, fun _ _ _ => rfl, rfl⟩

theorem lock (h : SameMemory m m') : m'.lock = m.lock := by
  funext wp
  ext a
  rw [Memory.lock_eq_some, Memory.lock_eq_some]
  simp only [h.entries]

/-- Rendering starts from an object that the map owns, and only follows
pointers that lock. -/
theorem nodeToJson (h : SameMemory m m') :
    ∀ {fuel : ℕ} {k : Int} {a : Addr}, m.find k = some (some a) →
      ApiSyncer.nodeToJson m' fuel a = ApiSyncer.nodeToJson m fuel a := by
  intro fuel
  induction fuel with
  | zero => intro k a _; rfl
  | succ fuel ih =>
      intro k a hk
      unfold ApiSyncer.nodeToJson
      simp only [h.objects k a hk, h.lock]
      -- the children that are rendered are owned as well
      have hkids : (((m.heap a).getChildren.map m.lock).filter Option.isSome).mapM
            (fun lock => Memory.deref lock >>= ApiSyncer.nodeToJson m' fuel)
          = (((m.heap a).getChildren.map m.lock).filter Option.isSome).mapM
            (fun lock => Memory.deref lock >>= ApiSyncer.nodeToJson m fuel) := by
        refine mapM_congr fun lock hlock => ?_
        obtain ⟨hmem, hsome⟩ := List.mem_filter.mp hlock
        obtain ⟨wp, -, rfl⟩ := List.mem_map.mp hmem
        obtain ⟨b, hb⟩ := Option.isSome_iff_exists.mp hsome
        obtain ⟨-, l, hl⟩ := Memory.lock_eq_some.mp hb
        rw [hb]
        exact ih hl
      exact congrArg (· >>= _) hkids

/-- **The same memory renders to the same tree.** -/
theorem apiTree (h : SameMemory m m') (fuel : ℕ) :
    ApiSyncer.apiTree m' fuel = ApiSyncer.apiTree m fuel := by
  have hlock : m'.lock m'.superRoot = m.lock m.superRoot := by rw [h.lock, h.superRoot]
  cases hroot : m.lock m.superRoot with
  | none =>
      unfold ApiSyncer.apiTree
      rw [hlock, hroot]
      rfl
  | some root =>
      obtain ⟨-, k, hk⟩ := Memory.lock_eq_some.mp hroot
      rw [apiTree_eq (hlock.trans hroot), apiTree_eq hroot, h.nodeToJson hk]

end SameMemory

/-! ## §2. `addNode`. -/

/-- The INSERT of the name runs. -/
def InsertAccepted (mysql : MySQL) (name : String) (env : Env) (s : State) : Prop :=
  env.fails .insertObject = false
    ∧ s.db.run mysql env (.insertObject (insertObjectQuery name)) ≠ none

/-- `addNode` has all it needs. -/
structure Admits (mysql : MySQL) (name : String) (parent_id : Int) (env : Env) (s : State) :
    Prop where
  insert : InsertAccepted mysql name env s
  lastInsertId : env.fails .lastInsertId = false
  parent : ParentAccepted parent_id env s

theorem Issued.known {db : Db} (h : Issued db) :
    Session.Both (Known db.allocated) db.session :=
  h.tables.imp fun _ hT => ⟨hT.allocated, fun r hr => hT.allocated _ (hT.foreign_keys r hr).2⟩

section AddNode

variable {mysql : MySQL} {name : String} {parent_id r new_id : Int} {env : Env} {s s' : State}
  {rows : List ObjectRow} {db : Db} {root : Addr}

theorem Inserted.accepted (hi : Inserted mysql name env s new_id rows db) :
    InsertAccepted mysql name env s := by
  obtain ⟨n, db', hf, hrun, -⟩ := executeUpdate_ran hi.ran
  refine ⟨hf, fun hnone => ?_⟩
  rw [run_insertObject_eq_none (allocated_attempt rfl) hnone] at hrun
  cases hrun

/-- An INSERT that gave -1 was not accepted. -/
theorem InsertAccepted.ran (h : InsertAccepted mysql name env s) :
    (executeUpdate mysql env (.insertObject (insertObjectQuery name))
      (attempt mysql env (.setAutocommit false) s.db)).1 ≠ -1 := by
  obtain ⟨hf, hrun⟩ := h
  cases hrun' : (attempt mysql env (.setAutocommit false) s.db).run mysql env
      (.insertObject (insertObjectQuery name)) with
  | none => exact absurd (run_insertObject_eq_none (allocated_attempt rfl).symm hrun') hrun
  | some res =>
      obtain ⟨n, db'⟩ := res
      rw [executeUpdate_ok hf hrun']
      show (n : Int) ≠ -1
      omega

/-- **What decides between the exits of `addNode`**: it has all it needs and
returns the new id; or it comes back before the map, or after it. -/
theorem AddExit.decided (hexit : AddExit mysql name parent_id env s r s') (h : Issued s.db) :
    (Admits mysql name parent_id env s ∧ r ≠ -1)
      ∨ ((InsertAccepted mysql name env s → env.fails .lastInsertId = true)
        ∧ r = -1 ∧ s'.mem = s.mem)
      ∨ (InsertAccepted mysql name env s ∧ env.fails .lastInsertId = false
        ∧ ¬ ParentAccepted parent_id env s
        ∧ r = -1 ∧ ∃ new_id rows db, Inserted mysql name env s new_id rows db
          ∧ s'.mem = s.stored new_id name) := by
  cases hexit with
  | insertRefused hrefused =>
      exact Or.inr (Or.inl ⟨fun hacc => absurd hrefused hacc.ran, rfl, rfl⟩)
  | idLost hi hlost => exact Or.inr (Or.inl ⟨fun _ => hlost, rfl, rfl⟩)
  | relationshipRefused hi hlast hpar hrefused =>
      exact Or.inr (Or.inr ⟨hi.accepted, hlast, hi.refused h.known hpar hrefused, rfl, _, _, _,
        hi, rfl⟩)
  | parentUnknown hi hlast hpar _ _ hfind =>
      exact Or.inr (Or.inr ⟨hi.accepted, hlast, hi.unknown hpar hfind, rfl, _, _, _, hi, rfl⟩)
  | linked hi hlast hpar hf hadm hfind =>
      exact Or.inl ⟨⟨hi.accepted, hlast, hi.known h.known hf hadm hfind⟩, hi.new_id_ne⟩
  | rooted hi hlast hpar => exact Or.inl ⟨⟨hi.accepted, hlast, Or.inl hpar⟩, hi.new_id_ne⟩

/-- **`addNode` returns an id exactly when it has all it needs.** -/
theorem AddExit.succeeds_iff (hexit : AddExit mysql name parent_id env s r s')
    (h : Issued s.db) : r ≠ -1 ↔ Admits mysql name parent_id env s := by
  rcases hexit.decided h with ⟨hadm, hr⟩ | ⟨hno, hr, -⟩ | ⟨-, -, hno, hr, -⟩
  · exact iff_of_true hr hadm
  · refine iff_of_false (fun hne => hne hr) fun hadm => ?_
    have hlast := hno hadm.insert
    rw [hadm.lastInsertId] at hlast
    cases hlast
  · exact iff_of_false (fun hne => hne hr) fun hadm => hno hadm.parent

/-- **`addNode` returns on a grounded state.** -/
theorem Grounded.addNode (h : Grounded s root) (name : String) (parent_id : Int) (env : Env) :
    ∃ r s', ApiSyncer.addNode mysql name parent_id env s = .ok (r, s')
      ∧ AddExit mysql name parent_id env s r s' := by
  rcases addNode_spec mysql name parent_id env s with
    hret | ⟨-, new_id, rows, db, hi, hlock⟩
  · exact hret
  · -- superRoot is live once the new node is stored
    have hstored : Anchored ⟨db, s.stored new_id name⟩ root := h.anchored.stored hi
    have hroot := hstored.lock_superRoot
    rw [show (s.stored new_id name).superRoot = s.mem.superRoot from rfl, hlock] at hroot
    cases hroot

/-- An entry that stays in the map is a change. -/
theorem Indexed.not_sameMemory_stored {allocated : List Int} (h : Indexed s.mem allocated) :
    ¬ SameMemory s.mem (s.stored new_id name) := by
  intro hsame
  have hnew := hsame.entries new_id
  unfold State.stored at hnew
  rw [Memory.find_store_self] at hnew
  exact absurd (h.bound _ _ hnew.symm) (Nat.lt_irrefl _)

/-- **An `addNode` that returns -1 leaves memory as it was if and only if it
did not get as far as a parent that it then refuses**: the row of the name was
inserted, its id is known, and then the parent is not accepted. -/
theorem addNode_atomic_iff (h : Reachable mysql s) (name : String) (parent_id : Int)
    (env : Env) :
    ∃ r s', addNode mysql name parent_id env s = .ok (r, s')
      ∧ ((r = -1 → SameMemory s.mem s'.mem)
        ↔ (InsertAccepted mysql name env s → env.fails .lastInsertId = false →
            ParentAccepted parent_id env s)) := by
  obtain ⟨root, hs⟩ := h.grounded
  obtain ⟨r, s', hok, hexit⟩ := hs.addNode name parent_id env
  refine ⟨r, s', hok, ?_⟩
  rcases hexit.decided hs.issued with
    ⟨hadm, hr⟩ | ⟨hno, -, hmem⟩ | ⟨hins, hlast, hno, hr, new_id, rows, db, hi, hmem⟩
  · exact ⟨fun _ _ _ => hadm.parent, fun _ heq => absurd heq hr⟩
  · constructor
    · intro _ hacc hlast
      rw [hno hacc] at hlast
      cases hlast
    · intro _ _
      rw [hmem]
      exact SameMemory.refl _
  · constructor
    · intro hsame
      have hkept := hsame hr
      rw [hmem] at hkept
      exact absurd hkept hs.indexed.not_sameMemory_stored
    · intro hacc
      exact absurd (hacc hins hlast) hno

end AddNode

/-- A name that the server refuses leaves nothing in memory, unknown parent or
not. -/
theorem addNode_atomic_refused_name :
    SameMemory State.initial.mem
      (State.initial.after readsA (.addNode "b" 7 (.allocating [1]))).mem := by
  have hcall : addNode readsA "b" 7 (.allocating [1]) State.initial
      = .ok (-1, State.initial.after readsA (.addNode "b" 7 (.allocating [1]))) := rfl
  obtain ⟨r, s', hok, hiff⟩ :=
    addNode_atomic_iff (Reachable.initial : Reachable readsA _) "b" 7 (.allocating [1])
  -- the INSERT of "b" is not accepted
  obtain ⟨rfl, rfl⟩ := Prod.mk.inj (Except.ok.inj (hcall.symm.trans hok))
  exact hiff.mpr (fun hacc => absurd rfl hacc.2) rfl

/-- **On empty tables `addNode("a", 7)` returns -1 and leaves the node 1 in the
map.** -/
theorem unknown_parent_leaves_entry :
    ¬ ∀ (mysql : MySQL) (name : String) (parent_id : Int) (env : Env) (s s' : State),
      Reachable mysql s → addNode mysql name parent_id env s = .ok (-1, s') →
        SameMemory s.mem s'.mem := by
  intro hevery
  have hcall : addNode readsA "a" 7 (.allocating [1]) State.initial
      = .ok (-1, State.initial.after readsA (.adding 7 1)) := rfl
  have hentry := (hevery _ _ _ _ _ _ Reachable.initial hcall).entries 1
  have hold : State.initial.mem.find 1 = none := rfl
  have hnew : (State.initial.after readsA (.adding 7 1)).mem.find 1 = some (some 1) := rfl
  rw [hold, hnew] at hentry
  cases hentry

/-! ## §3. `removeNode`. -/

/-- The map, all child lists and so the tree, and the committed tables are what
they were. -/
structure Intact (s s' : State) : Prop where
  memory : SameMemory s.mem s'.mem
  tree : ∀ fuel, apiTree s'.mem fuel = apiTree s.mem fuel
  committed : s'.db.committed = s.db.committed

theorem Intact.mk' {s s' : State} (hmem : SameMemory s.mem s'.mem)
    (hdb : s'.db.committed = s.db.committed) : Intact s s' :=
  ⟨hmem, hmem.apiTree, hdb⟩

/-- `removeChild` finds something to drop: the node, or a child that has
expired. -/
def Drops (m : Memory) (parent node : Addr) : Prop :=
  ∃ child ∈ (m.heap parent).children, child = some node ∨ m.expired child = true

/-- The request unlinks the node, and then one of its two DELETEs fails. -/
def HalfRemoves (id : Int) (env : Env) (s : State) : Prop :=
  (env.fails .deleteRelationships = true ∨ env.fails .deleteObject = true)
    ∧ ∃ p node parent, Detaches id env s p node parent ∧ Drops s.mem parent node

section RemoveNode

variable {mysql : MySQL} {id p : Int} {env : Env} {s s' : State} {root node parent : Addr}

/-- What `removeChild` keeps. -/
theorem removeChild_eq (m : Memory) (a : Addr) (obj : ObjectNode) :
    obj.removeChild m.lock (some a) = { obj with
      children := obj.children.filter fun child => child ≠ some a ∧ m.expired child = false } := by
  unfold ObjectNode.removeChild
  congr 1
  refine List.filter_congr fun child _ => ?_
  unfold Memory.expired
  cases hlock : m.lock child with
  | none => simp
  | some b =>
      obtain ⟨rfl, -⟩ := Memory.lock_eq_some.mp hlock
      by_cases hba : b = a <;> simp [hba]

/-- Unlinking changes nothing exactly when there is nothing to drop. -/
theorem sameMemory_unlinked (hfind : s.mem.find p = some (some parent)) :
    SameMemory s.mem (s.unlinked parent node) ↔ ¬ Drops s.mem parent node := by
  have hkept : (s.mem.heap parent).removeChild s.mem.lock (some node) = s.mem.heap parent
      ↔ ¬ Drops s.mem parent node := by
    rw [removeChild_eq]
    constructor
    · intro heq hdrops
      obtain ⟨child, hmem, hgone⟩ := hdrops
      have hlist := congrArg ObjectNode.children heq
      rw [List.filter_eq_self] at hlist
      have hstay := of_decide_eq_true (hlist child hmem)
      rcases hgone with hnode | hexp
      · exact hstay.1 hnode
      · rw [hstay.2] at hexp
        cases hexp
    · intro hno
      have hlist : (s.mem.heap parent).children.filter (fun child =>
          decide (child ≠ some node ∧ s.mem.expired child = false))
          = (s.mem.heap parent).children := by
        rw [List.filter_eq_self]
        intro child hmem
        rw [decide_eq_true_eq]
        refine ⟨fun heq => hno ⟨child, hmem, Or.inl heq⟩, ?_⟩
        rw [← Bool.not_eq_true]
        exact fun hexp => hno ⟨child, hmem, Or.inr hexp⟩
      rw [hlist]
  rw [← hkept]
  constructor
  · intro hsame
    have hparent := hsame.objects p parent hfind
    unfold State.unlinked at hparent
    rwa [Memory.heap_modify_self] at hparent
  · intro heq
    refine ⟨fun _ => rfl, fun k a _ => ?_, rfl⟩
    unfold State.unlinked
    -- only the parent's list is written
    by_cases ha : a = parent
    · rw [ha, Memory.heap_modify_self, heq]
    · rw [Memory.heap_modify_of_ne ha]

/-- **`removeNode` returns on a grounded state**, before or after the
unlinking. -/
theorem Grounded.removeNode (h : Grounded s root) (id : Int) (env : Env) :
    ∃ s', ApiSyncer.removeNode mysql id env s = .ok s' ∧ RemoveExit mysql id env s s'
      ∧ RemoveSplit mysql id env s s' := by
  rcases removeNode_split mysql id env s with hret | ⟨-, k, hnull⟩
  · exact hret
  · exact absurd hnull (h.anchored.entries k)

/-- Before the unlinking no row is written, and the memory is what it was. -/
theorem KeptExit.mem_eq (hexit : KeptExit mysql id env s s') : s'.mem = s.mem := by
  cases hexit <;> rfl

theorem KeptExit.committed_eq (hexit : KeptExit mysql id env s s')
    (hoff : env.fails .autocommitOff = false) (hon : env.fails .autocommitOn = false)
    (hback : env.fails .rollback = false) : s'.db.committed = s.db.committed := by
  cases hexit with
  | untouched => rfl
  | autocommitOff =>
      rw [attempt_autocommitOff hoff]
      rfl
  | rolledBack =>
      rw [attempt_autocommitOn hon, attempt_rollback hback, attempt_autocommitOff hoff]
      rfl

/-- With autocommit off the first DELETE waits, and the ROLLBACK takes it
back. -/
theorem DetachExit.committed_eq (hexit : DetachExit mysql id env s p node parent s')
    (hfails : env.fails .deleteRelationships = true ∨ env.fails .deleteObject = true)
    (hoff : env.fails .autocommitOff = false) (hback : env.fails .rollback = false) :
    s'.mem = s.unlinked parent node ∧ s'.db.committed = s.db.committed := by
  cases hexit with
  | relationshipsKept =>
      refine ⟨rfl, ?_⟩
      rw [attempt_rollback hback, attempt_autocommitOff hoff]
      rfl
  | objectKept =>
      refine ⟨rfl, ?_⟩
      rw [attempt_rollback hback, attempt_autocommitOff hoff]
      exact Session.committed_write_of_off rfl _
  | removed hf hf₂ =>
      rcases hfails with hfail | hfail
      · rw [hf] at hfail
        cases hfail
      · rw [hf₂] at hfail
        cases hfail

theorem Detaches.halfRemoves_iff (h : Detaches id env s p node parent) :
    HalfRemoves id env s
      ↔ (env.fails .deleteRelationships = true ∨ env.fails .deleteObject = true)
        ∧ Drops s.mem parent node := and_congr_right fun _ => h.exists_iff

/-- **A `removeNode` after which the id is still there leaves everything
intact if and only if it does not unlink a node and then fail in a DELETE.** -/
theorem removeNode_intact_iff (h : Reachable mysql s) (id : Int)
    (hoff : env.fails .autocommitOff = false) (hon : env.fails .autocommitOn = false)
    (hback : env.fails .rollback = false) :
    ∃ s', removeNode mysql id env s = .ok s'
      ∧ ((s'.mem.find id ≠ none → Intact s s') ↔ ¬ HalfRemoves id env s) := by
  obtain ⟨root, hs⟩ := h.grounded
  obtain ⟨s', hok, -, hsplit⟩ := hs.removeNode id env
  refine ⟨s', hok, ?_⟩
  rcases hsplit with ⟨hno, hkept⟩ | ⟨p, node, parent, hdet, hexit⟩
  · constructor
    · intro _ hhalf
      obtain ⟨-, p, node, parent, hdet, -⟩ := hhalf
      exact hno p node parent hdet
    · intro _ _
      refine Intact.mk' ?_ (hkept.committed_eq hoff hon hback)
      rw [hkept.mem_eq]
      exact SameMemory.refl _
  rw [hdet.halfRemoves_iff]
  by_cases hfails : env.fails .deleteRelationships = true ∨ env.fails .deleteObject = true
  · obtain ⟨hmem, hdb⟩ := hexit.committed_eq hfails hoff hback
    have hthere : s'.mem.find id ≠ none := by
      rw [hmem]
      show s.mem.find id ≠ none
      rw [hdet.leaf.find]
      simp
    have hsame : SameMemory s.mem s'.mem ↔ ¬ Drops s.mem parent node := by
      rw [hmem]
      exact sameMemory_unlinked hdet.find
    constructor
    · intro hintact hhalf
      exact hsame.mp (hintact hthere).memory hhalf.2
    · intro hno _
      exact Intact.mk' (hsame.mpr fun hdrops => hno ⟨hfails, hdrops⟩) hdb
  · -- both DELETEs go through: the id is gone
    have hran := not_or.mp hfails
    rw [Bool.not_eq_true, Bool.not_eq_true] at hran
    exact iff_of_true (fun hthere => absurd (hexit.erased hran.1 hran.2) hthere)
      fun hhalf => hfails hhalf.1

end RemoveNode

/-- A `removeNode` that cannot read the parent leaves everything intact. -/
theorem removeNode_intact_lost_query :
    Intact State.two (State.two.after readsA (.removeNode 2 (.failing [.selectParent] []))) := by
  have hcall : removeNode readsA 2 (.failing [.selectParent] []) State.two
      = .ok (State.two.after readsA (.removeNode 2 (.failing [.selectParent] []))) := rfl
  obtain ⟨s', hok, hiff⟩ := removeNode_intact_iff Reachable.two 2
    (rfl : (Env.failing [.selectParent] []).fails .autocommitOff = false) rfl rfl
  obtain rfl := Except.ok.inj (hcall.symm.trans hok)
  refine hiff.mpr (fun hhalf => ?_) ?_
  · rcases hhalf.1 with hfail | hfail
    · exact absurd hfail (by decide)
    · exact absurd hfail (by decide)
  · have hthere : (State.two.after readsA
        (.removeNode 2 (.failing [.selectParent] []))).mem.find 2 = some (some 2) := rfl
    rw [hthere]
    simp

/-- **When the DELETE fails, the child 2 of 1 stays in the map and the tables
and is gone from the list of 1.** -/
theorem failed_delete_unlinks :
    ¬ ∀ (mysql : MySQL) (id : Int) (env : Env) (s s' : State), Reachable mysql s →
      env.fails .autocommitOff = false → env.fails .autocommitOn = false →
      env.fails .rollback = false → removeNode mysql id env s = .ok s' →
      s'.mem.find id ≠ none → Intact s s' := by
  intro hevery
  have hcall : removeNode readsA 2 (.failing [.deleteRelationships] []) State.two
      = .ok (State.two.after readsA (.removeNode 2 (.failing [.deleteRelationships] []))) := rfl
  have hthere : (State.two.after readsA
      (.removeNode 2 (.failing [.deleteRelationships] []))).mem.find 2 = some (some 2) := rfl
  have hintact := hevery _ _ _ _ _ Reachable.two rfl rfl rfl hcall (by rw [hthere]; simp)
  have hlist := congrArg ObjectNode.children (hintact.memory.objects 1 1 rfl)
  have hold : (State.two.mem.heap 1).children = [some 2] := rfl
  have hnew : ((State.two.after readsA
      (.removeNode 2 (.failing [.deleteRelationships] []))).mem.heap 1).children = [] := rfl
  rw [hold, hnew] at hlist
  cases hlist

end ApiSyncer
