/-
  ApiSyncer.NullSafety
  ────────────────────
  **NO REQUEST FOLLOWS A NULL POINTER, AND superRoot SURVIVES.**

  superRoot sits in the map under the key -1, the value that `addNode` reads as
  "no parent" and that a client may pass to `removeNode`.  What protects it is
  in the tables: ids are positive, so no row names -1, and `removeNode` erases
  nothing that has no row.

  The invariant is stated on the pointers alone.  The tables may hold several
  parents per object, so a child list may well hold expired pointers here.
-/
import ApiSyncer.CompleteLoad
import ApiSyncer.Ledger

namespace ApiSyncer

open ApiSyncer.Lib

/-! ## §1. The invariant. -/

/-- Tables whose keys are positive. -/
structure Positive (T : Tables) : Prop where
  ids : ∀ i ∈ T.ids, 0 < i
  rows : ∀ r ∈ T.relationships, 0 < r.parent_id ∧ 0 < r.child_id

/-- The object at `root` is superRoot: the map and the member point to it, no
child list does, and no entry of the map is null. -/
structure Anchored (s : State) (root : Addr) : Prop where
  find : s.mem.find superRootKey = some (some root)
  pointer : s.mem.superRoot = some root
  object : (s.mem.heap root).id = SUPER_ROOT_ID ∧ (s.mem.heap root).name = "superRoot"
  entries : ∀ k, s.mem.find k ≠ some none
  bound : ∀ k a, s.mem.find k = some (some a) → a < s.mem.next
  unlisted : ∀ k a, s.mem.find k = some (some a) → some root ∉ (s.mem.heap a).children
  positive : Session.Both Positive s.db.session

namespace Positive

variable {T : Tables}

theorem insertObjects (h : Positive T) {rows : List ObjectRow}
    (hrows : ∀ r ∈ rows, 0 < r.id) : Positive (T.apply (.insertObjects rows)) where
  ids i hi := by
    rw [Tables.ids_insertObjects, List.mem_append] at hi
    rcases hi with hi | hi
    · exact h.ids i hi
    · obtain ⟨r, hr, rfl⟩ := List.mem_map.mp hi
      exact hrows r hr
  rows := h.rows

/-- An admitted row joins objects, so its endpoints are positive. -/
theorem insertRelationship (h : Positive T) {row : RelationshipRow}
    (hadm : Db.admitsRelationship T row = true) :
    Positive (T.apply (.insertRelationship row)) where
  ids := h.ids
  rows r hr := by
    obtain ⟨-, hp, hc⟩ := of_decide_eq_true hadm
    rcases List.mem_append.mp hr with hr | hr
    · exact h.rows r hr
    · rw [List.mem_singleton.mp hr]
      exact ⟨h.ids _ hp, h.ids _ hc⟩

theorem deleteRelationships (h : Positive T) (p : Int) :
    Positive (T.apply (.deleteRelationships p)) where
  ids := h.ids
  rows r hr := h.rows r (Tables.mem_relationships_deleteRelationships.mp hr).1

theorem deleteObject (h : Positive T) (id : Int) :
    Positive (T.apply (.deleteObject id)) where
  ids i hi := h.ids i (Tables.mem_ids_deleteObject.mp hi).1
  rows r hr := h.rows r (Tables.mem_relationships_deleteObject.mp hr).1

end Positive

namespace Anchored

variable {mysql : MySQL} {env : Env} {s s' : State} {root a : Addr} {k id : Int} {db : Db}
  {name : String}

/-! ## §2. The pieces of a request. -/

theorem setDb (h : Anchored s root) (hpos : Session.Both Positive db.session) :
    Anchored ⟨db, s.mem⟩ root :=
  ⟨h.find, h.pointer, h.object, h.entries, h.bound, h.unlisted, hpos⟩

theorem control {stmt : Statement} {m : Memory} (h : Anchored ⟨db, m⟩ root)
    (hc : stmt.isControl = true) : Anchored ⟨attempt mysql env stmt db, m⟩ root :=
  h.setDb (both_attempt hc h.positive)

/-- A new node under a positive key: never in the place of superRoot. -/
theorem store (h : Anchored s root) (hk : 0 < k) (name : String) :
    Anchored ⟨s.db, s.mem.store k (ObjectNode.ofInt k name)⟩ root := by
  have hne : superRootKey ≠ k := by
    rw [superRootKey_eq]
    omega
  -- the new object gets an address of its own
  have hroot : root < s.mem.next := h.bound _ _ h.find
  constructor
  · exact (Memory.find_store_of_ne hne).trans h.find
  · exact h.pointer
  · show ((s.mem.store k (ObjectNode.ofInt k name)).heap root).id = _ ∧ _
    rw [Memory.heap_store_of_ne (Nat.ne_of_lt hroot)]
    exact h.object
  · intro l
    show (s.mem.store k (ObjectNode.ofInt k name)).find l ≠ _
    by_cases hl : l = k
    · subst hl
      rw [Memory.find_store_self]
      simp
    · rw [Memory.find_store_of_ne hl]
      exact h.entries l
  · intro l b hl
    show b < s.mem.next + 1
    by_cases hlk : l = k
    · subst hlk
      rw [Memory.find_store_self] at hl
      rw [← Option.some.inj (Option.some.inj hl)]
      exact Nat.lt_succ_self _
    · rw [Memory.find_store_of_ne hlk] at hl
      exact Nat.lt_succ_of_lt (h.bound l b hl)
  · intro l b hl
    show some root ∉ ((s.mem.store k (ObjectNode.ofInt k name)).heap b).children
    by_cases hlk : l = k
    · subst hlk
      rw [Memory.find_store_self] at hl
      rw [← Option.some.inj (Option.some.inj hl), Memory.heap_store_next]
      exact List.not_mem_nil
    · rw [Memory.find_store_of_ne hlk] at hl
      rw [Memory.heap_store_of_ne (Nat.ne_of_lt (h.bound l b hl))]
      exact h.unlisted l b hl
  · exact h.positive

/-- A change of one child list that does not add superRoot. -/
theorem modify (h : Anchored s root) {f : ObjectNode → ObjectNode}
    (hf : ∀ node, (f node).id = node.id ∧ (f node).name = node.name
      ∧ (some root ∉ node.children → some root ∉ (f node).children)) :
    Anchored ⟨s.db, s.mem.modify a f⟩ root := by
  constructor
  · exact h.find
  · exact h.pointer
  · show ((s.mem.modify a f).heap root).id = _ ∧ _
    by_cases hra : root = a
    · subst hra
      rw [Memory.heap_modify_self, (hf _).1, (hf _).2.1]
      exact h.object
    · rw [Memory.heap_modify_of_ne hra]
      exact h.object
  · exact h.entries
  · exact h.bound
  · intro l b hl
    have hold := h.unlisted l b hl
    show some root ∉ ((s.mem.modify a f).heap b).children
    by_cases hba : b = a
    · subst hba
      rw [Memory.heap_modify_self]
      exact (hf _).2.2 hold
    · rw [Memory.heap_modify_of_ne hba]
      exact hold
  · exact h.positive

/-- `pushChild` of another object. -/
theorem pushChild (h : Anchored s root) {b : Addr} (hne : root ≠ b) :
    Anchored ⟨s.db, s.mem.modify a (·.pushChild (some b))⟩ root := by
  refine h.modify fun node => ⟨rfl, rfl, fun hno hmem => ?_⟩
  rcases List.mem_append.mp hmem with hold | hnew
  · exact hno hold
  · exact hne (Option.some.inj (List.mem_singleton.mp hnew))

theorem removeChild (h : Anchored s root) (lock : WeakPtr → SharedPtr)
    (target : SharedPtr) :
    Anchored ⟨s.db, s.mem.modify a (·.removeChild lock target)⟩ root :=
  h.modify fun _ => ⟨rfl, rfl, fun hno hmem => hno (List.mem_filter.mp hmem).1⟩

theorem erase (h : Anchored s root) (hk : 0 < k) :
    Anchored ⟨s.db, s.mem.erase k⟩ root := by
  have hne : superRootKey ≠ k := by
    rw [superRootKey_eq]
    omega
  have hold : ∀ {l p}, (s.mem.erase k).find l = some p → s.mem.find l = some p := by
    intro l p hl
    by_cases hlk : l = k
    · subst hlk
      rw [Memory.find_erase_self] at hl
      cases hl
    · rwa [Memory.find_erase_of_ne hlk] at hl
  exact ⟨(Memory.find_erase_of_ne hne).trans h.find, h.pointer, h.object,
    fun l hl => h.entries l (hold hl), fun l b hl => h.bound l b (hold hl),
    fun l b hl => h.unlisted l b (hold hl), h.positive⟩

/-- `superRoot.lock()` is the object under -1. -/
theorem lock_superRoot (h : Anchored s root) : s.mem.lock s.mem.superRoot = some root := by
  rw [h.pointer]
  exact Memory.lock_eq_some.mpr ⟨rfl, _, h.find⟩

/-! ## §3. The two requests that write. -/

section AddNode

variable {new_id parent_id r : Int} {rows : List ObjectRow}

theorem inserted (h : Anchored s root) (hi : Inserted mysql name env s new_id rows db) :
    Anchored ⟨db, s.mem⟩ root := by
  refine h.setDb ?_
  rw [hi.effect.session]
  exact (both_attempt rfl h.positive).write fun hT =>
    hT.insertObjects fun row hrow => (hi.effect.fresh row hrow).1

theorem stored (h : Anchored s root) (hi : Inserted mysql name env s new_id rows db) :
    Anchored ⟨db, s.stored new_id name⟩ root :=
  (h.inserted hi).store hi.new_id_pos name

theorem related (h : Anchored s root) (hi : Inserted mysql name env s new_id rows db)
    (hadm : Db.admitsRelationship db.view ⟨parent_id, new_id⟩ = true) :
    Anchored ⟨{ db with session := db.session.write (.insertRelationship ⟨parent_id, new_id⟩) },
      s.stored new_id name⟩ root :=
  (h.stored hi).setDb ((h.inserted hi).positive.write fun hT => hT.insertRelationship hadm)

/-- The object that `pushChild` adds is the new one. -/
theorem pushed (h : Anchored s root)
    (hs : Anchored ⟨db, s.stored new_id name⟩ root) :
    Anchored ⟨db, (s.stored new_id name).modify a (·.pushChild (some s.mem.next))⟩ root :=
  hs.pushChild (Nat.ne_of_lt (h.bound _ _ h.find))

/-- **Every exit of `addNode`.** -/
theorem addExit (h : Anchored s root) (hexit : AddExit mysql name parent_id env s r s') :
    Anchored s' root := by
  cases hexit with
  | insertRefused => exact (h.control rfl).control rfl
  | idLost hi => exact h.inserted hi
  | relationshipRefused hi => exact (h.stored hi).control rfl
  | parentUnknown hi _ _ _ hadm => exact (h.related hi hadm).control rfl
  | linked hi _ _ _ hadm => exact (h.pushed (h.related hi hadm)).control rfl
  | rooted hi => exact (h.pushed (h.stored hi)).control rfl

end AddNode

section RemoveNode

variable {parent_id : Int} {node parent : Addr}

theorem unlinked (h : Anchored s root) (parent node : Addr) :
    Anchored ⟨s.db, s.unlinked parent node⟩ root :=
  h.removeChild _ _

theorem deleted (h : Anchored s root) (parent_id : Int) :
    Anchored ⟨s.db.deleted parent_id, s.mem⟩ root :=
  h.setDb (h.positive.write fun hT => hT.deleteRelationships parent_id)

theorem deletedObject (h : Anchored s root) (id : Int) :
    Anchored ⟨s.db.deletedObject id, s.mem⟩ root :=
  h.setDb (h.positive.write fun hT => hT.deleteObject id)

/-- **Every exit of `removeNode`.**  What it erases is the child of a row, so
it is not superRoot. -/
theorem removeExit (h : Anchored s root) (hexit : RemoveExit mysql id env s s') :
    Anchored s' root := by
  have hoff : Anchored ⟨attempt mysql env (.setAutocommit false) s.db, s.mem⟩ root :=
    h.control rfl
  cases hexit with
  | notFound => exact h
  | hasChildren => exact h
  | queryFailed => exact hoff
  | noParent => exact hoff
  | parentMissing => exact (hoff.control rfl).control rfl
  | relationshipsKept => exact (hoff.unlinked _ _).control rfl
  | objectKept => exact ((hoff.unlinked _ _).deleted _).control rfl
  | @removed node parent p _ _ hrow =>
      -- `id` is the child of a row, hence positive and not the key of superRoot
      have hdel := (((hoff.unlinked parent node).deleted p).deletedObject id).erase
        (h.positive.view.rows _ hrow).2
      exact (hdel.control rfl).control rfl

end RemoveNode

/-- **Every request.** -/
theorem serve (h : Anchored s root) {req : Request} {resp : Response}
    (hserve : Serves mysql req s resp s') : Anchored s' root := by
  rcases serves_cases hserve with ⟨_, _, _, _, -, -, hexit⟩ | ⟨_, _, -, -, hexit⟩ | ⟨-, heq⟩
  · exact h.addExit hexit
  · exact h.removeExit hexit
  · rw [heq]
    exact h

end Anchored

/-! ## §4. No null pointer is followed. -/

/-- A list whose elements all succeed or exhaust the fuel. -/
theorem mapM_error {α β : Type} {f : α → Except Abort β} {e : Abort} :
    ∀ {l : List α}, l.mapM f = .error e → (∀ a ∈ l, ∀ e', f a = .error e' → e' = .outOfFuel) →
      e = .outOfFuel
  | [], h, _ => by cases h
  | a :: l, h, hl => by
      rw [List.mapM_cons] at h
      cases ha : f a with
      | error e' =>
          rw [ha] at h
          cases h
          exact hl a List.mem_cons_self _ ha
      | ok b =>
          rw [ha, ok_bind] at h
          cases hrest : l.mapM f with
          | error e' =>
              rw [hrest] at h
              cases h
              exact mapM_error hrest fun a' ha' => hl a' (List.mem_cons_of_mem _ ha')
          | ok bs =>
              rw [hrest] at h
              cases h

/-- `nodeToJson` only follows what `lock` gave it. -/
theorem nodeToJson_error {m : Memory} :
    ∀ {fuel : ℕ} {node : Addr} {e : Abort},
      nodeToJson m fuel node = .error e → e = .outOfFuel := by
  intro fuel
  induction fuel with
  | zero =>
      intro node e h
      cases h
      rfl
  -- the children kept by the filter are not null
  | succ fuel ih =>
      intro node e h
      unfold nodeToJson at h
      simp only at h
      cases hkids : ((((m.heap node).getChildren.map m.lock).filter Option.isSome).mapM
          fun lock => do nodeToJson m fuel (← Memory.deref lock)) with
      | ok children =>
          rw [hkids] at h
          cases h
      | error e' =>
          rw [hkids] at h
          cases h
          refine mapM_error hkids fun lock hlock e'' hchild => ?_
          cases lock with
          | none => exact absurd (List.mem_filter.mp hlock).2 (by simp)
          | some child => exact ih hchild

/-- The handler either answers 404 or renders an object that is there. -/
theorem apiTree_error {m : Memory} {fuel : ℕ} {e : Abort} (h : apiTree m fuel = .error e) :
    e = .outOfFuel := by
  cases hlock : m.lock m.superRoot with
  | none =>
      unfold apiTree at h
      rw [hlock] at h
      cases h
  | some root =>
      rw [apiTree_eq hlock] at h
      cases hjson : nodeToJson m fuel root with
      | ok json =>
          rw [hjson] at h
          cases h
      | error e' =>
          rw [hjson] at h
          cases h
          exact nodeToJson_error hjson

/-- **No request on an anchored state follows a null pointer.** -/
theorem Anchored.no_null {mysql : MySQL} {s : State} {root : Addr} (h : Anchored s root)
    {req : Request} {e : Abort} (herr : ApiSyncer.serve mysql req s = .error e) :
    e = .outOfFuel := by
  cases req with
  | addNode name parent_id env =>
      rcases addNode_spec mysql name parent_id env s with
        ⟨r, s', hok, -⟩ | ⟨-, new_id, rows, db, hi, hlock⟩
      · simp only [ApiSyncer.serve, hok] at herr
        cases herr
      · -- superRoot is live once the new node is stored
        have hroot := (h.stored hi).lock_superRoot
        rw [show (s.stored new_id name).superRoot = s.mem.superRoot from rfl, hlock] at hroot
        cases hroot
  | removeNode id env =>
      rcases removeNode_spec mysql id env s with ⟨s', hok, -⟩ | ⟨-, k, hnull⟩
      · simp only [ApiSyncer.serve, hok] at herr
        cases herr
      · exact absurd hnull (h.entries k)
  | tree fuel =>
      cases htree : apiTree s.mem fuel with
      | ok json =>
          simp only [ApiSyncer.serve, htree] at herr
          cases herr
      | error e' =>
          simp only [ApiSyncer.serve, htree] at herr
          cases herr
          exact apiTree_error htree
  | validateTree => cases herr

/-! ## §5. Runs after a startup. -/

/-- **A successful startup anchors superRoot.** -/
theorem startup_anchored {env : Startup} {db : Db} {T : SchemaTables} {s : State}
    {hasConnected : Bool} (hT : db.committed = T.toTables)
    (hpos : ∀ o ∈ T.objects, 0 < o.id) (hstart : startup env db = .ok (s, hasConnected)) :
    ∃ root, Anchored s root := by
  have hkeyed := T.keyed hpos
  have hload := hkeyed.loadable
  have hpositive : Positive T.toTables :=
    ⟨fun i hi => (hkeyed.int_range i hi).1, hkeyed.rows_pos⟩
  obtain ⟨m, hcons, rfl⟩ := startup_eq_ok hstart
  rw [hT] at hcons
  obtain ⟨F, addr, hrep, hroot, hpart⟩ := construct_part hload T.relationships_nodup hcons
  have hself := hrep.node _ hroot.mem_keys
  refine ⟨addr superRootKey, hrep.find_of_mem hroot.mem_keys, hroot.pointer, ?_,
    fun k => hrep.find_ne_null, ?_, ?_, ?_⟩
  · rw [hself, hpart.label_root]
    exact ⟨rfl, rfl⟩
  · intro k a hk
    obtain ⟨hmem, rfl⟩ := hrep.find_eq_some.mp hk
    exact hrep.bound k hmem
  · intro k a hk hmem
    obtain ⟨hkF, rfl⟩ := hrep.find_eq_some.mp hk
    exact hpart.unlisted_superRoot hload k
      ⟨hkF, (hrep.mem_children hkF hroot.mem_keys).mp hmem⟩
  · show Session.Both Positive (Session.opened db.committed)
    rw [hT]
    exact Session.Both.opened hpositive

/-- **No null dereference after startup, and superRoot survives.** -/
theorem superRoot_survives {mysql : MySQL} {env : Startup} {db : Db} {T : SchemaTables}
    {s₀ s : State} {steps : List (Step State Request Response)}
    (hT : db.committed = T.toTables) (hpos : ∀ o ∈ T.objects, 0 < o.id)
    (hstart : startup env db = .ok (s₀, true)) (hrun : Run (Serves mysql) s₀ steps s) :
    ∃ root, s₀.mem.superRoot = some root
      ∧ s.mem.find superRootKey = some (some root)
      ∧ s.mem.lock s.mem.superRoot = some root
      ∧ (s.mem.heap root).getID = superRootKey ∧ (s.mem.heap root).getName = "superRoot"
      ∧ (∀ k node, s.mem.find k = some (some node) → some root ∉ (s.mem.heap node).children)
      ∧ (∀ k, s.mem.find k ≠ some none)
      ∧ ∀ req e, serve mysql req s = .error e → e = .outOfFuel := by
  obtain ⟨root, h₀⟩ := startup_anchored hT hpos hstart
  have h : Anchored s root := hrun.invariant (I := fun s => Anchored s root) h₀
    fun _ _ _ _ hs hserve => hs.serve hserve
  refine ⟨root, h₀.pointer, h.find, h.lock_superRoot, ?_, h.object.2, h.unlisted, h.entries,
    fun req e herr => h.no_null herr⟩
  unfold ObjectNode.getID
  rw [h.object.1]
  rfl

/-- `removeNode(-1)` on a superRoot that lists nobody: it passes the guard on
the child count, and superRoot is still there. -/
theorem superRoot_survives_removeNode :
    ∃ root, (State.cold SchemaTables.selfParent.toTables).restarted.mem.superRoot = some root
      ∧ ((State.cold SchemaTables.selfParent.toTables).restarted.after readsA
          (.removing (-1))).mem.find superRootKey = some (some root) := by
  have hpos : ∀ o ∈ SchemaTables.selfParent.objects, 0 < o.id := by decide
  have hstart : startup .whole (Db.opened SchemaTables.selfParent.toTables)
      = .ok ((State.cold SchemaTables.selfParent.toTables).restarted, true) := rfl
  have hremove : Serves readsA (.removing (-1))
      (State.cold SchemaTables.selfParent.toTables).restarted .removed
      ((State.cold SchemaTables.selfParent.toTables).restarted.after readsA (.removing (-1))) :=
    rfl
  obtain ⟨root, hroot, hfind, -⟩ :=
    superRoot_survives rfl hpos hstart (Run.nil.snoc hremove)
  exact ⟨root, hroot, hfind⟩

end ApiSyncer
