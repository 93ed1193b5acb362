/-
  ApiSyncer.Load
  ──────────────
  **WHAT THE CONSTRUCTOR BUILDS.**

  The three loops of the constructor, each refining a fold over ids:

      objects        one `insert` per row
      relationships  one `link` per row whose two endpoints are in the map
      roots          one `link` under superRoot per key that no such row names

  A fetch that throws cuts the fold at its row.  `construct` is then one of a
  few explicit results, and the graphs of those results are known edge by edge.
-/
import ApiSyncer.Represents

namespace ApiSyncer

open ApiSyncer.Lib

/-! ## §1. Loops over result sets. -/

/-- The rows delivered before the fetch that throws. -/
def fetched {α : Type} (rows : List α) : Option Nat → List α
  | none => rows
  | some k => rows.take k

/-- Some row is the one whose fetch throws. -/
def throwsIn {α : Type} (rows : List α) : Option Nat → Bool
  | none => false
  | some k => decide (k < rows.length)

/-- **The loop runs its body on the delivered rows.** -/
theorem fetchRows_eq {α σ : Type} (body : σ → α → Except Abort σ) :
    ∀ (rows : List α) (throwsAt : Option Nat) (s : σ),
      fetchRows body rows throwsAt s
        = (fetched rows throwsAt).foldlM body s >>= fun s' => .ok (s', throwsIn rows throwsAt)
  | [], none, s => rfl
  | [], some k, s => by
      show _ = ([].take k).foldlM body s >>= _
      rw [List.take_nil]
      simp [fetchRows, throwsIn, pure, Except.pure, ok_bind]
  | row :: rows, some 0, s => rfl
  | row :: rows, none, s => by
      show (body s row >>= fun s' => fetchRows body rows none s')
        = (body s row >>= fun s' => rows.foldlM body s') >>= _
      cases body s row with
      | error e => rfl
      | ok s' => exact fetchRows_eq body rows none s'
  | row :: rows, some (k + 1), s => by
      show (body s row >>= fun s' => fetchRows body rows (some k) s')
        = (body s row >>= fun s' => (rows.take k).foldlM body s') >>= _
      cases body s row with
      | error e => rfl
      | ok s' =>
          -- one row further on the throwing fetch is one row closer
          have hthrows : throwsIn (row :: rows) (some (k + 1)) = throwsIn rows (some k) := by
            simp [throwsIn]
          rw [hthrows]
          exact fetchRows_eq body rows (some k) s'

theorem fetched_of_not_throwsIn {α : Type} {rows : List α} {throwsAt : Option Nat}
    (h : throwsIn rows throwsAt = false) : fetched rows throwsAt = rows := by
  cases throwsAt with
  | none => rfl
  | some k =>
      have hk : ¬ k < rows.length := of_decide_eq_false h
      exact List.take_of_length_le (by omega)

theorem mem_of_mem_fetched {α : Type} {rows : List α} {throwsAt : Option Nat} {a : α}
    (h : a ∈ fetched rows throwsAt) : a ∈ rows := by
  cases throwsAt with
  | none => exact h
  | some k => exact List.mem_of_mem_take h

theorem nodup_fetched {α : Type} {rows : List α} {throwsAt : Option Nat}
    (h : rows.Nodup) : (fetched rows throwsAt).Nodup := by
  cases throwsAt with
  | none => exact h
  | some k => exact h.sublist (List.take_sublist k rows)

/-- A throwing fetch loses a row. -/
theorem exists_not_fetched {α : Type} {rows : List α} {throwsAt : Option Nat}
    (hnodup : rows.Nodup) (h : throwsIn rows throwsAt = true) :
    ∃ a ∈ rows, a ∉ fetched rows throwsAt := by
  cases throwsAt with
  | none => cases h
  | some k =>
      have hk : k < rows.length := of_decide_eq_true h
      refine ⟨rows[k], List.getElem_mem hk, fun hmem => ?_⟩
      -- the row at index `k` itself: it occurs nowhere before
      obtain ⟨i, hi, heq⟩ := List.mem_take_iff_getElem.mp hmem
      have := (hnodup.getElem_inj_iff).mp heq
      omega

/-! ## §2. The graphs that the loops build. -/

/-- superRoot alone. -/
def startForest : Forest Int String := ⟨{superRootKey}, fun _ => "superRoot", fun _ => []⟩

/-- One key per row of `objects`. -/
def withObjects (rows : List ObjectRow) (F : Forest Int String) : Forest Int String :=
  rows.foldl (fun F o => F.insert o.id o.name) F

/-- One edge per row of `relationships` with both endpoints present. -/
def withRelationships (rows : List RelationshipRow) (F : Forest Int String) :
    Forest Int String :=
  rows.foldl (fun F r => if r.parent_id ∈ F.keys ∧ r.child_id ∈ F.keys
    then F.link r.parent_id r.child_id else F) F

/-- The given keys under superRoot. -/
def withRoots (roots : List Int) (F : Forest Int String) : Forest Int String :=
  roots.foldl (fun F c => F.link superRootKey c) F

/-- Row `r` has both endpoints among `keys`. -/
def RelationshipRow.within (r : RelationshipRow) (keys : Finset Int) : Bool :=
  decide (r.parent_id ∈ keys ∧ r.child_id ∈ keys)

theorem mem_keys_withObjects {k : Int} :
    ∀ {rows : List ObjectRow} {F : Forest Int String},
      k ∈ (withObjects rows F).keys ↔ k ∈ F.keys ∨ k ∈ rows.map (·.id)
  | [], F => by simp [withObjects]
  | o :: rows, F => by
      show k ∈ (withObjects rows (F.insert o.id o.name)).keys ↔ _
      rw [mem_keys_withObjects, Forest.mem_keys_insert, List.map_cons, List.mem_cons]
      tauto

theorem kids_withObjects {k : Int} :
    ∀ (rows : List ObjectRow) {F : Forest Int String},
      F.kids k = [] → (withObjects rows F).kids k = []
  | [], F, h => h
  | o :: rows, F, h => by
      refine kids_withObjects rows ?_
      by_cases hk : k = o.id
      · rw [hk]
        exact Forest.kids_insert_self
      · rw [Forest.kids_insert_of_ne hk]
        exact h

theorem label_withObjects_of_notMem {k : Int} :
    ∀ {rows : List ObjectRow} {F : Forest Int String},
      k ∉ rows.map (·.id) → (withObjects rows F).label k = F.label k
  | [], F, _ => rfl
  | o :: rows, F, h => by
      rw [List.map_cons, List.mem_cons, not_or] at h
      show (withObjects rows (F.insert o.id o.name)).label k = _
      rw [label_withObjects_of_notMem h.2, Forest.label_insert_of_ne h.1]

/-- Each object keeps its own name. -/
theorem label_withObjects {o : ObjectRow} :
    ∀ {rows : List ObjectRow} {F : Forest Int String},
      (rows.map (·.id)).Nodup → o ∈ rows → (withObjects rows F).label o.id = o.name
  | o' :: rows, F, hnodup, ho => by
      rw [List.map_cons, List.nodup_cons] at hnodup
      show (withObjects rows (F.insert o'.id o'.name)).label o.id = _
      rcases List.mem_cons.mp ho with rfl | ho
      · rw [label_withObjects_of_notMem hnodup.1]
        exact Forest.label_insert_self
      · exact label_withObjects hnodup.2 ho

@[simp] theorem keys_withRelationships :
    ∀ (rows : List RelationshipRow) (F : Forest Int String),
      (withRelationships rows F).keys = F.keys
  | [], _ => rfl
  | r :: rows, F => by
      show (withRelationships rows (if _ then _ else _)).keys = _
      rw [keys_withRelationships]
      split <;> rfl

@[simp] theorem label_withRelationships :
    ∀ (rows : List RelationshipRow) (F : Forest Int String),
      (withRelationships rows F).label = F.label
  | [], _ => rfl
  | r :: rows, F => by
      show (withRelationships rows (if _ then _ else _)).label = _
      rw [label_withRelationships]
      split <;> rfl

/-- **The list of a key holds the children of its rows, in delivery order.** -/
theorem kids_withRelationships (p : Int) :
    ∀ (rows : List RelationshipRow) (F : Forest Int String),
      (withRelationships rows F).kids p
        = F.kids p ++ (rows.filter fun r =>
            r.within F.keys && decide (r.parent_id = p)).map (·.child_id)
  | [], F => by simp [withRelationships]
  | r :: rows, F => by
      show (withRelationships rows (if r.parent_id ∈ F.keys ∧ r.child_id ∈ F.keys
        then F.link r.parent_id r.child_id else F)).kids p = _
      by_cases hin : r.parent_id ∈ F.keys ∧ r.child_id ∈ F.keys
      · rw [if_pos hin, kids_withRelationships p rows, Forest.keys_link]
        by_cases hp : r.parent_id = p
        · subst hp
          simp [RelationshipRow.within, hin]
        · rw [Forest.kids_link_of_ne (Ne.symm hp)]
          simp [RelationshipRow.within, hin, hp]
      · rw [if_neg hin, kids_withRelationships p rows]
        have : r.within F.keys = false := by simpa [RelationshipRow.within] using hin
        simp [this]

@[simp] theorem keys_withRoots :
    ∀ (roots : List Int) (F : Forest Int String), (withRoots roots F).keys = F.keys
  | [], _ => rfl
  | c :: roots, F => keys_withRoots roots (F.link superRootKey c)

@[simp] theorem label_withRoots :
    ∀ (roots : List Int) (F : Forest Int String), (withRoots roots F).label = F.label
  | [], _ => rfl
  | c :: roots, F => label_withRoots roots (F.link superRootKey c)

theorem kids_withRoots_self :
    ∀ (roots : List Int) (F : Forest Int String),
      (withRoots roots F).kids superRootKey = F.kids superRootKey ++ roots
  | [], F => by simp [withRoots]
  | c :: roots, F => by
      show (withRoots roots (F.link superRootKey c)).kids superRootKey = _
      rw [kids_withRoots_self, Forest.kids_link_self, List.append_assoc]
      rfl

theorem kids_withRoots_of_ne {k : Int} (hk : k ≠ superRootKey) :
    ∀ (roots : List Int) (F : Forest Int String), (withRoots roots F).kids k = F.kids k
  | [], _ => rfl
  | c :: roots, F => by
      show (withRoots roots (F.link superRootKey c)).kids k = _
      rw [kids_withRoots_of_ne hk, Forest.kids_link_of_ne hk]

/-! ## §3. The loops refine the graphs. -/

theorem represents_start : Represents Memory.start startForest (fun _ => 0) := by
  have hkeys : ∀ {k}, k ∈ startForest.keys ↔ k = superRootKey := Finset.mem_singleton
  constructor
  · intro k
    by_cases hk : k = superRootKey
    · subst hk
      rw [if_pos (hkeys.mpr rfl)]
      exact AList.lookup_insert _
    · rw [if_neg (fun h => hk (hkeys.mp h))]
      exact AList.lookup_insert_ne hk
  · intro k hk
    rw [hkeys.mp hk]
    rfl
  · intro k hk l hl _
    rw [hkeys.mp hk, hkeys.mp hl]
  · intro k _
    exact Nat.zero_lt_one
  · intro p c he
    cases he.2

/-- **The first loop.**  New nodes get new addresses; the others keep theirs. -/
theorem foldlM_loadObject :
    ∀ (rows : List ObjectRow) {m : Memory} {F : Forest Int String} {addr : Int → Addr},
      Represents m F addr → (∀ k, F.kids k = []) →
      ∃ m' addr', rows.foldlM loadObject m = .ok m'
        ∧ Represents m' (withObjects rows F) addr'
        ∧ m'.superRoot = m.superRoot
        ∧ (∀ k, k ∉ rows.map (·.id) → addr' k = addr k)
        ∧ (∀ k, k ∈ rows.map (·.id) → m.next ≤ addr' k)
  | [], m, F, addr, h, _ => ⟨m, addr, rfl, h, rfl, fun _ _ => rfl, fun _ hk => by cases hk⟩
  | o :: rows, m, F, addr, h, hbare => by
      have hu : F.Unlisted o.id := fun p he => by
        have := he.2
        rw [hbare p] at this
        cases this
      have hbare' : ∀ k, (F.insert o.id o.name).kids k = [] := fun k =>
        kids_withObjects [o] (hbare k)
      obtain ⟨m', addr', hfold, hrep, hroot, hkeep, hnew⟩ :=
        foldlM_loadObject rows (h.store hu o.name) hbare'
      refine ⟨m', addr', hfold, hrep, hroot, ?_, ?_⟩
      · intro k hk
        rw [List.map_cons, List.mem_cons, not_or] at hk
        rw [hkeep k hk.2]
        exact Function.update_of_ne hk.1 ..
      · intro k hk
        by_cases hrest : k ∈ rows.map (·.id)
        -- stored again by a later row with the same id
        · exact Nat.le_of_succ_le (hnew k hrest)
        · rw [List.map_cons, List.mem_cons] at hk
          have hself : Function.update addr o.id m.next o.id = m.next :=
            Function.update_self ..
          rw [hkeep k hrest, hk.resolve_right hrest, hself]

/-- The set `children` after the second loop. -/
def childrenOf (rows : List RelationshipRow) (keys : Finset Int) : List Int :=
  ((rows.filter (·.within keys)).map (·.child_id)).reverse

/-- **The second loop.** -/
theorem foldlM_loadRelationship :
    ∀ (rows : List RelationshipRow) (children : List Int) {m : Memory}
      {F : Forest Int String} {addr : Int → Addr},
      Represents m F addr →
      ∃ m', rows.foldlM loadRelationship (m, children)
          = .ok (m', childrenOf rows F.keys ++ children)
        ∧ Represents m' (withRelationships rows F) addr
        ∧ m'.superRoot = m.superRoot ∧ m'.nodes = m.nodes
  | [], children, m, F, addr, h => ⟨m, rfl, h, rfl, rfl⟩
  | r :: rows, children, m, F, addr, h => by
      rw [List.foldlM_cons]
      by_cases hin : r.parent_id ∈ F.keys ∧ r.child_id ∈ F.keys
      · have hstep : loadRelationship (m, children) r
            = .ok (m.modify (addr r.parent_id) (·.pushChild (some (addr r.child_id))),
                r.child_id :: children) := by
          simp only [loadRelationship]
          rw [if_pos (by rw [h.find_of_mem hin.1, h.find_of_mem hin.2]; exact ⟨rfl, rfl⟩),
            h.index_of_mem hin.1, h.index_of_mem hin.2]
          rfl
        obtain ⟨m', hfold, hrep, hroot, hnodes⟩ :=
          foldlM_loadRelationship rows (r.child_id :: children)
            (h.link hin.1 hin.2)
        refine ⟨m', ?_, ?_, hroot, hnodes⟩
        · rw [hstep, ok_bind, hfold]
          have hw : r.within F.keys = true := decide_eq_true hin
          simp [childrenOf, hw]
        · show Represents m' (withRelationships rows (if _ then _ else _)) addr
          rw [if_pos hin]
          exact hrep
      · have hfind : ¬ ((m.find r.parent_id).isSome ∧ (m.find r.child_id).isSome) := by
          rw [h.find, h.find]
          intro hcon
          apply hin
          constructor
          · by_contra hp
            rw [if_neg hp] at hcon
            exact absurd hcon.1 (by simp)
          · by_contra hc
            rw [if_neg hc] at hcon
            exact absurd hcon.2 (by simp)
        -- Parent or Child node not found: the row is skipped
        have hstep : loadRelationship (m, children) r = .ok (m, children) := by
          simp only [loadRelationship]
          rw [if_neg hfind]
          rfl
        obtain ⟨m', hfold, hrep, hroot, hnodes⟩ :=
          foldlM_loadRelationship rows children h
        refine ⟨m', ?_, ?_, hroot, hnodes⟩
        · rw [hstep, ok_bind, hfold]
          have hw : r.within F.keys = false := decide_eq_false hin
          simp [childrenOf, hw]
        · show Represents m' (withRelationships rows (if _ then _ else _)) addr
          rw [if_neg hin]
          exact hrep

/-- The test of the third loop. -/
def isRoot (children : List Int) (key : Int) : Bool :=
  decide (key ∉ children ∧ toUInt key ≠ SUPER_ROOT_ID)

/-- **The third loop, with a live superRoot.** -/
theorem foldlM_linkRoot (children : List Int) :
    ∀ {pairs : List (Sigma fun _ : Int => SharedPtr)} {m : Memory}
      {F : Forest Int String} {addr : Int → Addr},
      Represents m F addr → Rooted m F addr →
      (∀ e ∈ pairs, e.1 ∈ F.keys ∧ e.2 = some (addr e.1)) →
      ∃ m', pairs.foldlM (linkRoot children) m = .ok m'
        ∧ Represents m' (withRoots ((pairs.map (·.1)).filter (isRoot children)) F) addr
        ∧ m'.superRoot = m.superRoot
  | [], m, F, addr, h, _, _ => ⟨m, rfl, h, rfl⟩
  | e :: pairs, m, F, addr, h, hr, hpairs => by
      obtain ⟨hk, hp⟩ := hpairs e List.mem_cons_self
      have hrest := fun e' he' => hpairs e' (List.mem_cons_of_mem _ he')
      rw [List.foldlM_cons, List.map_cons]
      by_cases hroot : e.1 ∉ children ∧ toUInt e.1 ≠ SUPER_ROOT_ID
      · have hstep : linkRoot children m e
            = .ok (m.modify (addr superRootKey) (·.pushChild (some (addr e.1)))) := by
          unfold linkRoot
          rw [if_pos hroot, h.lock_superRoot hr, hp]
          rfl
        have hr' : Rooted (m.modify (addr superRootKey) (·.pushChild (some (addr e.1))))
            (F.link superRootKey e.1) addr := ⟨hr.mem_keys, hr.pointer⟩
        obtain ⟨m', hfold, hrep, hsuper⟩ :=
          foldlM_linkRoot children (h.link hr.mem_keys hk) hr' hrest
        refine ⟨m', ?_, ?_, hsuper⟩
        · rw [hstep, ok_bind, hfold]
        · have hyes : isRoot children e.1 = true := decide_eq_true hroot
          rw [List.filter_cons, if_pos hyes]
          exact hrep
      · have hstep : linkRoot children m e = .ok m := by
          unfold linkRoot
          rw [if_neg hroot]
          rfl
        obtain ⟨m', hfold, hrep, hsuper⟩ :=
          foldlM_linkRoot children h hr hrest
        refine ⟨m', ?_, ?_, hsuper⟩
        · rw [hstep, ok_bind, hfold]
        · have hno : isRoot children e.1 = false := decide_eq_false hroot
          rw [List.filter_cons, hno]
          exact hrep

/-- The third loop with an expired superRoot: it follows the null of `lock` at
the first root, if there is one. -/
theorem foldlM_linkRoot_expired {children : List Int} {m : Memory}
    (hlock : m.lock m.superRoot = none) :
    ∀ pairs : List (Sigma fun _ : Int => SharedPtr),
      pairs.foldlM (linkRoot children) m
        = if pairs.any (fun e => isRoot children e.1) then .error .nullNode else .ok m
  | [] => rfl
  | e :: pairs => by
      rw [List.foldlM_cons, List.any_cons]
      by_cases hroot : e.1 ∉ children ∧ toUInt e.1 ≠ SUPER_ROOT_ID
      · have hstep : linkRoot children m e = .error .nullNode := by
          unfold linkRoot
          rw [if_pos hroot, hlock]
          rfl
        have hyes : isRoot children e.1 = true := decide_eq_true hroot
        rw [hstep, hyes]
        rfl
      · have hstep : linkRoot children m e = .ok m := by
          unfold linkRoot
          rw [if_neg hroot]
          rfl
        have hno : isRoot children e.1 = false := decide_eq_false hroot
        rw [hstep, hno, ok_bind, foldlM_linkRoot_expired hlock pairs]
        rfl

/-! ## §4. The results of `construct`. -/

/-- Where the first loop leaves `superRoot`: it still points to the first
object, which the map owns unless a row has taken its key. -/
structure RootPlace (m : Memory) (F : Forest Int String) (addr : Int → Addr)
    (ids : List Int) : Prop where
  pointer : m.superRoot = some 0
  kept : superRootKey ∉ ids → addr superRootKey = 0
  lost : superRootKey ∈ ids → ∀ k ∈ F.keys, addr k ≠ 0

theorem superRootKey_mem_withObjects (rows : List ObjectRow) :
    superRootKey ∈ (withObjects rows startForest).keys :=
  mem_keys_withObjects.mpr (Or.inl (Finset.mem_singleton_self _))

/-- The first loop on a fresh memory. -/
theorem load_objects (rows : List ObjectRow) :
    ∃ m addr, rows.foldlM loadObject Memory.start = .ok m
      ∧ Represents m (withObjects rows startForest) addr
      ∧ RootPlace m (withObjects rows startForest) addr (rows.map (·.id)) := by
  obtain ⟨m, addr, hfold, hrep, hroot, hkeep, hnew⟩ :=
    foldlM_loadObject rows represents_start (fun _ => rfl)
  refine ⟨m, addr, hfold, hrep, hroot, fun hno => hkeep _ hno, ?_⟩
  intro hlost k hk
  have hmem : k ∈ rows.map (·.id) := by
    rcases mem_keys_withObjects.mp hk with hstart | hmem
    · rw [Finset.mem_singleton.mp hstart]
      exact hlost
    · exact hmem
  have : 1 ≤ addr k := hnew k hmem
  exact Nat.ne_of_gt this

theorem RootPlace.rooted {m : Memory} {F : Forest Int String} {addr : Int → Addr}
    {ids : List Int} (h : RootPlace m F addr ids) (hno : superRootKey ∉ ids)
    (hk : superRootKey ∈ F.keys) : Rooted m F addr :=
  ⟨hk, by rw [h.kept hno]; exact h.pointer⟩

/-- A row has taken the key of superRoot: its `weak_ptr` is expired. -/
theorem RootPlace.lock_eq_none {m : Memory} {F : Forest Int String} {addr : Int → Addr}
    {ids : List Int} (h : RootPlace m F addr ids) (hlost : superRootKey ∈ ids)
    (hrep : Represents m F addr) : m.lock m.superRoot = none := by
  cases hlock : m.lock m.superRoot with
  | none => rfl
  | some a =>
      obtain ⟨hptr, k, hk, rfl⟩ := hrep.lock_eq_some_iff.mp hlock
      rw [h.pointer] at hptr
      exact absurd (Option.some.inj hptr).symm (h.lost hlost k hk)

section Construct

variable {env : Startup} {T : Tables} {order order' : Order} {throwsAt throwsAt' : Option Nat}

theorem construct_refused (hconn : env.connect.opens = false) :
    construct env T = .error .nullConnection := by
  unfold construct Select.execute
  rw [hconn]
  rfl

theorem construct_objects_null (hconn : env.connect.opens = true)
    (hobj : env.objects = .null) : construct env T = .error .nullResultSet := by
  unfold construct Select.execute
  rw [hconn, hobj]
  rfl

/-- The objects are being fetched when a fetch throws. -/
theorem construct_objects_cut (hconn : env.connect.opens = true)
    (hobj : env.objects = .resultSet order throwsAt)
    (hthrow : throwsIn (order.arrange T.objects) throwsAt = true) :
    ∃ m addr, construct env T = .ok (m, env.connect.succeeds)
      ∧ Represents m
          (withObjects (fetched (order.arrange T.objects) throwsAt) startForest) addr
      ∧ RootPlace m (withObjects (fetched (order.arrange T.objects) throwsAt) startForest)
          addr ((fetched (order.arrange T.objects) throwsAt).map (·.id)) := by
  obtain ⟨m, addr, hfold, hrep, hplace⟩ :=
    load_objects (fetched (order.arrange T.objects) throwsAt)
  refine ⟨m, addr, ?_, hrep, hplace⟩
  unfold construct Select.execute
  rw [hconn, hobj]
  show (fetchRows loadObject (order.arrange T.objects) throwsAt Memory.start >>= _) = _
  rw [fetchRows_eq, hfold, hthrow]
  rfl

/-- What is left of the constructor once all objects are loaded. -/
theorem construct_after_objects (hconn : env.connect.opens = true)
    (hobj : env.objects = .resultSet order throwsAt)
    (hthrow : throwsIn (order.arrange T.objects) throwsAt = false) :
    ∃ m addr, Represents m (withObjects (order.arrange T.objects) startForest) addr
      ∧ RootPlace m (withObjects (order.arrange T.objects) startForest) addr
          ((order.arrange T.objects).map (·.id))
      ∧ construct env T = (do
          let res ← env.relationships.execute true T.relationships
          let (rows, throwsAt) ← derefResultSet res
          let ((m, children), threw) ← fetchRows loadRelationship rows throwsAt (m, [])
          if threw then
            return (m, env.connect.succeeds)
          else
            let m ← (env.iteration.arrange m.nodes.entries).foldlM (linkRoot children) m
            return (m, env.connect.succeeds)) := by
  obtain ⟨m, addr, hfold, hrep, hplace⟩ := load_objects (order.arrange T.objects)
  refine ⟨m, addr, hrep, hplace, ?_⟩
  unfold construct
  rw [hconn, hobj]
  show (fetchRows loadObject (order.arrange T.objects) throwsAt Memory.start >>= _) = _
  rw [fetchRows_eq, fetched_of_not_throwsIn hthrow, hfold, hthrow]
  rfl

theorem construct_relationships_null (hconn : env.connect.opens = true)
    (hobj : env.objects = .resultSet order throwsAt)
    (hthrow : throwsIn (order.arrange T.objects) throwsAt = false)
    (hrel : env.relationships = .null) :
    construct env T = .error .nullResultSet := by
  obtain ⟨m, addr, -, -, heq⟩ := construct_after_objects hconn hobj hthrow
  rw [heq, hrel]
  rfl

/-- The relationships are being fetched when a fetch throws. -/
theorem construct_relationships_cut (hconn : env.connect.opens = true)
    (hobj : env.objects = .resultSet order throwsAt)
    (hthrow : throwsIn (order.arrange T.objects) throwsAt = false)
    (hrel : env.relationships = .resultSet order' throwsAt')
    (hthrow' : throwsIn (order'.arrange T.relationships) throwsAt' = true) :
    ∃ m addr, construct env T = .ok (m, env.connect.succeeds)
      ∧ Represents m
          (withRelationships (fetched (order'.arrange T.relationships) throwsAt')
            (withObjects (order.arrange T.objects) startForest)) addr
      ∧ RootPlace m
          (withRelationships (fetched (order'.arrange T.relationships) throwsAt')
            (withObjects (order.arrange T.objects) startForest)) addr
          ((order.arrange T.objects).map (·.id)) := by
  obtain ⟨m, addr, hrep, hplace, heq⟩ := construct_after_objects hconn hobj hthrow
  obtain ⟨m', hfold, hrep', hsuper, -⟩ :=
    foldlM_loadRelationship (fetched (order'.arrange T.relationships) throwsAt') [] hrep
  refine ⟨m', addr, ?_, hrep', ⟨hsuper.trans hplace.pointer, hplace.kept, ?_⟩⟩
  · rw [heq, hrel]
    show (fetchRows loadRelationship (order'.arrange T.relationships) throwsAt' (m, [])
      >>= _) = _
    rw [fetchRows_eq, hfold, hthrow']
    rfl
  · rw [keys_withRelationships]
    exact hplace.lost

/-- Both tables are fetched; the roots are left to link. -/
theorem construct_after_relationships (hconn : env.connect.opens = true)
    (hobj : env.objects = .resultSet order throwsAt)
    (hthrow : throwsIn (order.arrange T.objects) throwsAt = false)
    (hrel : env.relationships = .resultSet order' throwsAt')
    (hthrow' : throwsIn (order'.arrange T.relationships) throwsAt' = false) :
    ∃ m addr,
      Represents m (withRelationships (order'.arrange T.relationships)
        (withObjects (order.arrange T.objects) startForest)) addr
      ∧ RootPlace m (withRelationships (order'.arrange T.relationships)
          (withObjects (order.arrange T.objects) startForest)) addr
          ((order.arrange T.objects).map (·.id))
      ∧ construct env T
          = (env.iteration.arrange m.nodes.entries).foldlM
              (linkRoot (childrenOf (order'.arrange T.relationships)
                (withObjects (order.arrange T.objects) startForest).keys)) m
            >>= fun m => .ok (m, env.connect.succeeds) := by
  obtain ⟨m, addr, hrep, hplace, heq⟩ := construct_after_objects hconn hobj hthrow
  obtain ⟨m', hfold, hrep', hsuper, -⟩ :=
    foldlM_loadRelationship (order'.arrange T.relationships) [] hrep
  refine ⟨m', addr, hrep', ⟨hsuper.trans hplace.pointer, hplace.kept, ?_⟩, ?_⟩
  · rw [keys_withRelationships]
    exact hplace.lost
  · rw [heq, hrel]
    show (fetchRows loadRelationship (order'.arrange T.relationships) throwsAt' (m, [])
      >>= _) = _
    rw [fetchRows_eq, fetched_of_not_throwsIn hthrow', hfold, hthrow', List.append_nil]
    rfl

end Construct

end ApiSyncer
