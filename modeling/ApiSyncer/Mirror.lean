/-
  ApiSyncer.Mirror
  ────────────────
  **RUNS WITH A DATABASE THAT NEVER FAILS.**

  Between requests nothing is pending, and every committed row is an edge of
  the graph in memory.  The two methods then do one of a few things to the
  graph and to the committed tables together, listed by `AddOutcome` and
  `RemoveOutcome`.

      AddExit.outcome / RemoveExit.outcome   what a request did to both
      Mirror.of_run                          every state of such a run
      removeNode_removes_iff                 when a leaf is removed, and only it
-/
import ApiSyncer.EveryRun
import ApiSyncer.Transactions

namespace ApiSyncer

open ApiSyncer.Lib

/-! ## §1. A database that never fails. -/

/-- No call fails; an INSERT may be rejected for a constraint. -/
def Env.Healthy (env : Env) : Prop :=
  ∀ call, env.fails call = true → call = .insertObject ∨ call = .insertRelationship

/-- The database does not fail during the request. -/
def Request.Healthy : Request → Prop
  | .addNode _ _ env => env.Healthy
  | .removeNode _ env => env.Healthy
  | .tree _ => True
  | .validateTree => True

theorem Env.Healthy.working {env : Env} (h : env.Healthy) : env.Working := by
  intro call hf
  rcases h call hf with hcall | hcall
  · exact Or.inl hcall
  · exact Or.inr (Or.inl hcall)

theorem Env.Healthy.succeeds {env : Env} (h : env.Healthy) {call : Call}
    (hcall : call ≠ .insertObject ∧ call ≠ .insertRelationship) : env.fails call = false := by
  cases hf : env.fails call with
  | false => rfl
  | true =>
      rcases h call hf with rfl | rfl
      · exact absurd rfl hcall.1
      · exact absurd rfl hcall.2

/-- The invariant, with nothing pending and every committed row an edge. -/
structure Mirror (s : State) (F : Forest Int String) (addr : Int → Addr) (rank : Int → ℕ)
    (bound : ℕ) : Prop where
  holds : Holds s F addr rank bound
  pending : s.db.session.pending = []
  rows : ∀ p c, ⟨p, c⟩ ∈ s.db.committed.relationships → F.Edge p c

namespace Mirror

variable {s : State} {F : Forest Int String} {addr : Int → Addr} {rank : Int → ℕ} {bound : ℕ}
  {id p : Int} {node : Addr}

/-- Nothing waits, so the session reads what is committed. -/
theorem view_eq (h : Mirror s F addr rank bound) : s.db.view = s.db.committed :=
  Session.view_eq_committed h.pending

theorem ledger (h : Mirror s F addr rank bound) :
    Ledger s.db.allocated rank s.db.committed :=
  h.holds.ledger.committed

theorem parent_find (h : Mirror s F addr rank bound)
    (hrow : ⟨p, id⟩ ∈ s.db.committed.relationships) :
    p ∈ F.keys ∧ s.mem.find p = some (some (addr p)) :=
  ⟨(h.rows p id hrow).1, h.holds.represents.find_of_mem (h.rows p id hrow).1⟩

/-- A leaf is no parent in the tables either. -/
theorem leaf_no_row (h : Mirror s F addr rank bound) (hleaf : Leaf s id node) {c : Int} :
    ⟨id, c⟩ ∉ s.db.committed.relationships := by
  intro hrow
  obtain ⟨hid, rfl⟩ := h.holds.represents.find_eq_some.mp hleaf.find
  have hkid := (h.rows id c hrow).2
  rw [(h.holds.represents.children_eq_nil hid).mp hleaf.childless] at hkid
  exact List.not_mem_nil hkid

end Mirror

/-! ## §2. What a request did. -/

/-- What an `addNode` did to the graph and to the committed tables: nothing; a
node left in the map alone; or a node in both, under its parent. -/
inductive AddOutcome (mysql : MySQL) (name : String) (parent_id : Int)
    (F : Forest Int String) (T : Tables) : Forest Int String → Tables → Prop where
  | unchanged : AddOutcome mysql name parent_id F T F T
  | leaked {new_id : Int} : new_id ∉ F.keys →
      AddOutcome mysql name parent_id F T (F.insert new_id name) T
  | added {new_id : Int} {rows : List ObjectRow} :
      new_id ∉ F.keys → new_id ∉ T.ids →
      mysql.valuesOf (insertObjectQuery name) = some (rows.map (·.name)) →
      (∃ row rest, rows = row :: rest ∧ row.id = new_id) →
      parent_id ∈ (F.insert new_id name).keys →
      AddOutcome mysql name parent_id F T ((F.insert new_id name).link parent_id new_id)
        ((addedWrites parent_id new_id rows).foldl Applies.apply T)

/-- What a `removeNode` did: nothing, and then it had no leaf with a parent row
to remove; or the leaf is gone, and all rows of its parent with it. -/
inductive RemoveOutcome (id : Int) (s : State) (F : Forest Int String) (T : Tables) :
    Forest Int String → Tables → Prop where
  | unchanged :
      (∀ node, Leaf s id node → ∀ p, ⟨p, id⟩ ∉ T.relationships) →
      RemoveOutcome id s F T F T
  | removed {node : Addr} {p : Int} : Leaf s id node → ⟨p, id⟩ ∈ T.relationships →
      RemoveOutcome id s F T ((F.unlink p id).erase id)
        ([Write.deleteRelationships p, Write.deleteObject id].foldl Applies.apply T)

section Outcomes

variable {mysql : MySQL} {env : Env} {s s' : State} {F : Forest Int String}
  {addr : Int → Addr} {rank : Int → ℕ} {bound : ℕ} {name : String} {parent_id r id : Int}

/-- **What `addNode` did.** -/
theorem AddExit.outcome (hexit : AddExit mysql name parent_id env s r s')
    (henv : env.Healthy) (h : Mirror s F addr rank bound) :
    ∃ F' addr' rank' bound', Holds s' F' addr' rank' bound'
      ∧ s'.db.session.pending = []
      ∧ AddOutcome mysql name parent_id F s.db.committed F' s'.db.committed := by
  obtain ⟨ws, undone, hends, hfailed, hadded⟩ := hexit.ends henv.working h.pending
  obtain ⟨F', addr', rank', bound', hholds, hgraph⟩ := h.holds.addExit hexit
  refine ⟨F', addr', rank', bound', hholds, hends.pending, ?_⟩
  have hcommitted : s'.db.committed = _ := hends.committed
  rw [hcommitted]
  rcases hgraph with ⟨hr, hleaked⟩ | ⟨hr, hnew, hp, rfl⟩
  · -- the tables are as they were; the map may have kept the new node
    rw [hfailed hr]
    rcases hleaked with rfl | ⟨new_id, hnew, rfl⟩
    · exact .unchanged
    · exact .leaked hnew
  · obtain ⟨rfl, rows, db, rfl, hi⟩ := hadded hr
    have hfresh : r ∉ s.db.committed.ids := fun hmem =>
      (hi.fresh hi.new_id_mem).2.2 (h.ledger.allocated _ hmem)
    exact .added hnew hfresh hi.effect.names_eq hi.effect.head hp

/-- **What `removeNode` did.** -/
theorem RemoveExit.outcome (hexit : RemoveExit mysql id env s s') (henv : env.Healthy)
    (h : Mirror s F addr rank bound) :
    ∃ F', Holds s' F' addr rank bound ∧ s'.db.session.pending = []
      ∧ RemoveOutcome id s F s.db.committed F' s'.db.committed := by
  have hwork := henv.working
  have hoff : Session.InBlock s.db.session
      (attempt mysql env (.setAutocommit false) s.db).session [] :=
    inBlock_off hwork h.pending
  have hviewrel : s.db.view.relationships = s.db.committed.relationships := by
    rw [h.view_eq]
  cases hexit with
  | notFound hfind =>
      refine ⟨F, h.holds, h.pending, .unchanged fun node hleaf => ?_⟩
      have heq := hleaf.find
      rw [hfind] at heq
      cases heq
  | hasChildren hfind hkids =>
      refine ⟨F, h.holds, h.pending, .unchanged fun node hleaf => ?_⟩
      have heq := hleaf.find
      rw [hfind] at heq
      obtain rfl := Option.some.inj (Option.some.inj heq)
      exact absurd hleaf.childless hkids
  -- no query fails here
  | queryFailed _ hfails =>
      rw [hwork.selectParent] at hfails
      cases hfails
  | noParent _ _ hno =>
      rw [hviewrel] at hno
      refine ⟨F, h.holds.control rfl, hoff.pending, ?_⟩
      show RemoveOutcome _ _ _ _ _ (attempt mysql env (.setAutocommit false) s.db).committed
      have hcommitted : (attempt mysql env (.setAutocommit false) s.db).committed
          = s.db.committed := hoff.committed
      rw [hcommitted]
      exact .unchanged fun _ _ => hno
  | parentMissing _ _ hrow hfind =>
      -- the parent of a committed row is in the map
      rw [hviewrel] at hrow
      rw [(h.parent_find hrow).2] at hfind
      cases hfind
  | relationshipsKept _ _ _ _ hfails =>
      rw [henv.succeeds (by decide)] at hfails
      cases hfails
  | objectKept _ _ _ _ _ hfails =>
      rw [henv.succeeds (by decide)] at hfails
      cases hfails
  | @removed node parent p hleaf _ hrow hfind =>
      refine ⟨_, h.holds.removed hleaf hrow hfind, (ends_removed hwork h.pending).pending, ?_⟩
      show RemoveOutcome _ _ _ _ _ (Session.committed _)
      rw [(ends_removed hwork h.pending).committed]
      rw [hviewrel] at hrow
      exact .removed hleaf hrow

end Outcomes

/-! ## §3. Runs. -/

section Runs

variable {mysql : MySQL} {s s' : State} {F F' : Forest Int String} {addr : Int → Addr}
  {rank : Int → ℕ} {bound : ℕ} {name : String} {parent_id id : Int} {T T' : Tables}

/-- Rows stay edges. -/
theorem AddOutcome.rows (h : AddOutcome mysql name parent_id F T F' T')
    (hrows : ∀ p c, ⟨p, c⟩ ∈ T.relationships → F.Edge p c) :
    ∀ p c, ⟨p, c⟩ ∈ T'.relationships → F'.Edge p c := by
  intro p c hr
  cases h with
  | unchanged => exact hrows p c hr
  | leaked hnew =>
      have he := hrows p c hr
      exact Forest.edge_insert.mpr ⟨fun heq => hnew (heq ▸ he.1), he⟩
  | @added new_id rows hnew _ _ _ hp =>
      rw [Forest.edge_link hp, Forest.edge_insert]
      refine (mem_relationships_added.mp hr).imp (fun hold => ?_) fun hrow => hrow.2
      have he := hrows p c hold
      exact ⟨fun heq => hnew (heq ▸ he.1), he⟩

/-- The rows after a removal. -/
theorem mem_relationships_removed {p id q c : Int} :
    ⟨q, c⟩ ∈ ([Write.deleteRelationships p, Write.deleteObject id].foldl Applies.apply
        T).relationships
      ↔ ⟨q, c⟩ ∈ T.relationships ∧ q ≠ p ∧ q ≠ id ∧ c ≠ id := by
  show ⟨q, c⟩ ∈ ((T.apply (.deleteRelationships p)).apply (.deleteObject id)).relationships ↔ _
  rw [Tables.mem_relationships_deleteObject, Tables.mem_relationships_deleteRelationships]
  tauto

theorem RemoveOutcome.rows (h : RemoveOutcome id s F T F' T')
    (hrows : ∀ p c, ⟨p, c⟩ ∈ T.relationships → F.Edge p c) :
    ∀ p c, ⟨p, c⟩ ∈ T'.relationships → F'.Edge p c := by
  intro q c hr
  cases h with
  | unchanged => exact hrows q c hr
  | removed =>
      obtain ⟨hold, -, hq, hc⟩ := mem_relationships_removed.mp hr
      rw [Forest.edge_erase, Forest.edge_unlink]
      exact ⟨hq, hrows q c hold, fun heq => hc heq.2⟩

/-- **One request.** -/
theorem Mirror.serve {req : Request} {resp : Response} (h : Mirror s F addr rank bound)
    (hreq : req.Healthy) (hserve : Serves mysql req s resp s') :
    ∃ F' addr' rank' bound', Mirror s' F' addr' rank' bound' := by
  rcases serves_cases hserve with
    ⟨name, parent_id, env, r, rfl, -, hexit⟩ | ⟨id, env, rfl, -, hexit⟩ | ⟨-, heq⟩
  · obtain ⟨F', addr', rank', bound', hholds, hpend, hout⟩ := hexit.outcome hreq h
    exact ⟨F', addr', rank', bound', hholds, hpend, hout.rows h.rows⟩
  · obtain ⟨F', hholds, hpend, hout⟩ := hexit.outcome hreq h
    exact ⟨F', addr, rank, bound, hholds, hpend, hout.rows h.rows⟩
  · rw [heq]
    exact ⟨F, addr, rank, bound, h⟩

/-- **Every state of a run with a database that never fails.** -/
theorem Mirror.of_run {steps : List (Step State Request Response)}
    (hrun : Run (Serves mysql) State.initial steps s)
    (hhealthy : ∀ st ∈ steps, st.action.Healthy) :
    ∃ F addr rank bound, Mirror s F addr rank bound := by
  refine (hrun.guarded (G := fun req _ => req.Healthy) hhealthy).invariant
    (I := fun s => ∃ F addr rank bound, Mirror s F addr rank bound) ?_ ?_
  · exact ⟨_, _, _, _, Sound.initial, rfl, fun _ _ h => (List.not_mem_nil h).elim⟩
  · intro s req resp s' hs hstep
    obtain ⟨F, addr, rank, bound, h⟩ := hs
    exact h.serve hstep.2 hstep.1

end Runs

/-! ## §4. Removing a leaf. -/

/-- `removeNode id` removed the node of `id` and nothing else: from the map,
from every child list, from both tables; and all of it is committed. -/
structure RemovesExactly (id : Int) (s s' : State) : Prop where
  erased : s'.mem.find id = none
  entries : ∀ k, k ≠ id → s'.mem.find k = s.mem.find k
  lists : ∀ k a, k ≠ id → s.mem.find k = some (some a) →
    s'.mem.heap a = { s.mem.heap a with
      children := (s.mem.heap a).children.filter fun child => s.mem.find id ≠ some child }
  objects : s'.db.committed.objects = s.db.committed.objects.filter fun o => o.id ≠ id
  relationships : s'.db.committed.relationships
    = s.db.committed.relationships.filter fun r => r.child_id ≠ id
  pending : s'.db.session.pending = []

section Remove

variable {mysql : MySQL} {env : Env} {s s' : State} {F : Forest Int String}
  {addr : Int → Addr} {rank : Int → ℕ} {bound : ℕ} {id p : Int} {node : Addr}

/-- The memory after the removal of a leaf. -/
theorem Mirror.lists_removed (h : Mirror s F addr rank bound)
    (hholds : Holds s' ((F.unlink p id).erase id) addr rank bound) (hleaf : Leaf s id node)
    (hrow : ⟨p, id⟩ ∈ s.db.committed.relationships) {k : Int} {a : Addr} (hk : k ≠ id)
    (hfind : s.mem.find k = some (some a)) :
    s'.mem.heap a = { s.mem.heap a with
      children := (s.mem.heap a).children.filter fun child => s.mem.find id ≠ some child } := by
  have hrep := h.holds.represents
  obtain ⟨hkF, rfl⟩ := hrep.find_eq_some.mp hfind
  have hid : id ∈ F.keys := (hrep.find_eq_some.mp hleaf.find).1
  have hkF' : k ∈ ((F.unlink p id).erase id).keys := Forest.mem_keys_erase.mpr ⟨hk, hkF⟩
  rw [hholds.represents.node k hkF', hrep.node k hkF, hrep.find_of_mem hid]
  -- the pointers to `id` are the pointers that go
  have hmap : ((F.kids k).map fun c => (some (addr c) : WeakPtr)).filter
      (fun child => decide (some (some (addr id)) ≠ some child))
      = ((F.kids k).filter fun c => c ≠ id).map fun c => some (addr c) := by
    rw [List.filter_map]
    congr 1
    refine List.filter_congr fun c hc => ?_
    have hcF : c ∈ F.keys := hrep.closed ⟨hkF, hc⟩
    by_cases hci : c = id
    · simp [hci]
    · have hne : addr id ≠ addr c := fun heq => hci (hrep.inj id hid c hcF heq).symm
      simp [hci, hne]
  have hkids : (F.unlink p id).kids k = (F.kids k).filter fun c => c ≠ id := by
    by_cases hkp : k = p
    · subst hkp
      exact Forest.kids_unlink_self
    · rw [Forest.kids_unlink_of_ne hkp, eq_comm, List.filter_eq_self]
      intro c hc
      rw [decide_eq_true_eq]
      intro hci
      subst hci
      exact hkp (h.holds.agrees.committed p c hrow k ⟨hkF, hc⟩)
  show ObjectNode.mk _ _ (((F.unlink p id).kids k).map fun c => some (addr c)) = _
  rw [hkids, ← hmap]
  rfl

/-- An only child goes, and only it. -/
theorem Mirror.removesExactly (h : Mirror s F addr rank bound)
    (hholds : Holds s' ((F.unlink p id).erase id) addr rank bound)
    (hpend : s'.db.session.pending = [])
    (hT : s'.db.committed
      = [Write.deleteRelationships p, Write.deleteObject id].foldl Applies.apply s.db.committed)
    (hleaf : Leaf s id node) (hrow : ⟨p, id⟩ ∈ s.db.committed.relationships)
    (honly : ∀ c, ⟨p, c⟩ ∈ s.db.committed.relationships → c = id) :
    RemovesExactly id s s' where
  erased := by
    rw [hholds.represents.find_of_notMem]
    simp
  entries k hk := by
    rw [hholds.represents.find, h.holds.represents.find]
    by_cases hkF : k ∈ F.keys <;> simp [hk, hkF]
  lists _ _ hk hfind := h.lists_removed hholds hleaf hrow hk hfind
  objects := by
    rw [hT]
    rfl
  relationships := by
    rw [hT]
    show ((s.db.committed.relationships.filter fun r => r.parent_id ≠ p).filter
      fun r => r.parent_id ≠ id ∧ r.child_id ≠ id) = _
    rw [List.filter_filter]
    refine List.filter_congr fun r hr => ?_
    obtain ⟨q, c⟩ := r
    -- a leaf is nobody's parent, and its parent has no other row
    have hqid : q ≠ id := fun heq => h.leaf_no_row hleaf (heq ▸ hr)
    by_cases hc : c = id
    · simp [hc]
    · have hqp : q ≠ p := fun heq => hc (honly c (heq ▸ hr))
      simp [hqid, hc, hqp]
  pending := hpend

/-- **A leaf is removed, and only it, exactly when it has a parent row and its
parent has no other.** -/
theorem removeNode_removes_iff {steps : List (Step State Request Response)}
    (hrun : Run (Serves mysql) State.initial steps s)
    (hhealthy : ∀ st ∈ steps, st.action.Healthy) (henv : env.Healthy)
    (hleaf : Leaf s id node) :
    ∃ s', removeNode mysql id env s = .ok s'
      ∧ (RemovesExactly id s s' ↔
          ∃ p, ⟨p, id⟩ ∈ s.db.committed.relationships
            ∧ ∀ c, ⟨p, c⟩ ∈ s.db.committed.relationships → c = id) := by
  obtain ⟨F, addr, rank, bound, h⟩ := Mirror.of_run hrun hhealthy
  rcases removeNode_spec mysql id env s with ⟨s', hok, hexit⟩ | ⟨-, k, hnull⟩
  case inr => exact absurd hnull h.holds.represents.find_ne_null
  refine ⟨s', hok, ?_⟩
  obtain ⟨F', hholds, hpend, hout⟩ := hexit.outcome henv h
  obtain ⟨hid, -⟩ := h.holds.represents.find_eq_some.mp hleaf.find
  generalize hT : s'.db.committed = T' at hout
  cases hout with
  | unchanged hno =>
      constructor
      · intro hexact
        have := hexact.erased
        rw [hholds.represents.find_of_mem hid] at this
        cases this
      · intro hrow
        obtain ⟨p, hp, -⟩ := hrow
        exact absurd hp (hno node hleaf p)
  | @removed node' p hleaf' hrow =>
      have hchild : ∀ {q}, ⟨q, id⟩ ∈ s.db.committed.relationships → q = p := fun hq =>
        h.ledger.one_parent _ _ _ hq hrow
      constructor
      · intro hexact
        refine ⟨p, hrow, fun c hc => ?_⟩
        by_contra hne
        -- the row of a sibling is gone, although it had to stay
        have hstay : (⟨p, c⟩ : RelationshipRow) ∈ s'.db.committed.relationships := by
          rw [hexact.relationships]
          exact List.mem_filter.mpr ⟨hc, by simpa using hne⟩
        rw [hT] at hstay
        exact (mem_relationships_removed.mp hstay).2.1 rfl
      · intro honly
        obtain ⟨q, hq, honly⟩ := honly
        obtain rfl := hchild hq
        exact h.removesExactly hholds hpend hT hleaf hrow honly

end Remove

theorem Env.allocating_healthy (ids : List Int) : (Env.allocating ids).Healthy :=
  fun _ h => (Bool.false_ne_true h).elim

theorem Request.adding_healthy (parent_id id : Int) : (Request.adding parent_id id).Healthy :=
  Env.allocating_healthy _

/-- An only child is removed, and only it. -/
theorem removeNode_removes_only_child :
    ∃ s', removeNode readsA 2 (.allocating []) State.two = .ok s'
      ∧ RemovesExactly 2 State.two s' := by
  have hrun := (Run.nil.snoc serves_one).snoc serves_two
  have hleaf : Leaf State.two 2 2 := ⟨rfl, rfl⟩
  obtain ⟨s', hok, hiff⟩ := removeNode_removes_iff hrun
    (List.forall_mem_cons.mpr ⟨Request.adding_healthy _ _,
      List.forall_mem_singleton.mpr (Request.adding_healthy _ _)⟩)
    (Env.allocating_healthy []) hleaf
  have hrows : State.two.db.committed.relationships = [⟨1, 2⟩] := rfl
  rw [hrows] at hiff
  refine ⟨s', hok, hiff.mpr ⟨1, List.mem_singleton_self _, fun c hc => ?_⟩⟩
  injection List.mem_singleton.mp hc

/-- **A top-level leaf stays.** -/
theorem removeNode_keeps_top_level :
    ¬ ∀ (mysql : MySQL) (env : Env) (s : State) (id : Int) (node : Addr)
        (steps : List (Step State Request Response)),
      Run (Serves mysql) State.initial steps s → (∀ st ∈ steps, st.action.Healthy) →
      env.Healthy → id ≠ -1 → (∃ st ∈ steps, st.result = .added id) → Leaf s id node →
      ∃ s', removeNode mysql id env s = .ok s' ∧ RemovesExactly id s s' := by
  intro hevery
  have hleaf : Leaf State.one 1 1 := ⟨rfl, rfl⟩
  obtain ⟨s', hok, hexact⟩ := hevery readsA (.allocating []) State.one 1 1 _
    (Run.nil.snoc serves_one) (List.forall_mem_singleton.mpr (Request.adding_healthy _ _))
    (Env.allocating_healthy []) (by decide) ⟨_, List.mem_singleton_self _, rfl⟩ hleaf
  have hs' : s' = State.one.after readsA (.removing 1) := (Except.ok.inj hok).symm
  subst hs'
  have hstays : (State.one.after readsA (.removing 1)).mem.find 1 = some (some 1) := rfl
  have hgone := hexact.erased
  rw [hstays] at hgone
  cases hgone

end ApiSyncer
