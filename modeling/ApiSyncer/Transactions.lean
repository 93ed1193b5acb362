/-
  ApiSyncer.Transactions
  ──────────────────────
  **HOW A REQUEST LEAVES THE SESSION WHEN THE CONNECTION WORKS.**

  About half of the exits of the two methods leave autocommit off.  With a
  working connection that is harmless: every exit has either rolled back all
  writes of its request or committed them, so the next request starts with
  nothing pending in either mode.

      AddExit.ends / RemoveExit.ends   each exit, from either mode
      nothing_pending                  every request of every run
-/
import ApiSyncer.Ledger

namespace ApiSyncer

open ApiSyncer.Lib

/-! ## §1. A working connection. -/

/-- Session commands and queries go through; an INSERT or a DELETE may be
rejected. -/
def Env.Working (env : Env) : Prop :=
  ∀ call, env.fails call = true → call = .insertObject ∨ call = .insertRelationship
    ∨ call = .deleteRelationships ∨ call = .deleteObject

/-- The connection works during the request. -/
def Request.Working : Request → Prop
  | .addNode _ _ env => env.Working
  | .removeNode _ env => env.Working
  | .tree _ => True
  | .validateTree => True

section Working

variable {mysql : MySQL} {env : Env} {db : Db}

/-- A call other than the four does not fail. -/
theorem Env.Working.succeeds (h : env.Working) {call : Call}
    (hcall : call ≠ .insertObject ∧ call ≠ .insertRelationship
      ∧ call ≠ .deleteRelationships ∧ call ≠ .deleteObject) : env.fails call = false := by
  cases hf : env.fails call with
  | false => rfl
  | true =>
      rcases h call hf with rfl | rfl | rfl | rfl
      · exact absurd rfl hcall.1
      · exact absurd rfl hcall.2.1
      · exact absurd rfl hcall.2.2.1
      · exact absurd rfl hcall.2.2.2

theorem Env.Working.lastInsertId (h : env.Working) : env.fails .lastInsertId = false :=
  h.succeeds (by decide)

theorem Env.Working.selectParent (h : env.Working) : env.fails .selectParent = false :=
  h.succeeds (by decide)

/-! ## §2. Every exit ends its block. -/

variable {s s' : State} {name : String} {parent_id r id new_id : Int} {rows : List ObjectRow}

/-- The block of a request starts once autocommit is off. -/
theorem inBlock_off (hwork : env.Working) (hpend : s.db.session.pending = []) :
    Session.InBlock s.db.session
      (attempt mysql env (.setAutocommit false) s.db).session [] := by
  rw [attempt_autocommitOff (hwork.succeeds (by decide))]
  exact Session.InBlock.start hpend

theorem Inserted.inBlock (hi : Inserted mysql name env s new_id rows db)
    (hwork : env.Working) (hpend : s.db.session.pending = []) :
    Session.InBlock s.db.session db.session [.insertObjects rows] := by
  rw [hi.effect.session]
  exact (inBlock_off hwork hpend).write _

/-- The writes of an `addNode` that succeeds. -/
def addedWrites (parent_id id : Int) (rows : List ObjectRow) : List Write :=
  .insertObjects rows :: if parent_id = -1 then [] else [.insertRelationship ⟨parent_id, id⟩]

theorem objects_added {T : Tables} :
    ((addedWrites parent_id id rows).foldl Applies.apply T).objects = T.objects ++ rows := by
  unfold addedWrites
  by_cases hpar : parent_id = -1
  · rw [if_pos hpar]
    rfl
  · rw [if_neg hpar]
    rfl

theorem mem_relationships_added {T : Tables} {p c : Int} :
    ⟨p, c⟩ ∈ ((addedWrites parent_id id rows).foldl Applies.apply T).relationships
      ↔ ⟨p, c⟩ ∈ T.relationships ∨ parent_id ≠ -1 ∧ p = parent_id ∧ c = id := by
  unfold addedWrites
  by_cases hpar : parent_id = -1
  · rw [if_pos hpar]
    show ⟨p, c⟩ ∈ T.relationships ↔ _
    simp [hpar]
  · rw [if_neg hpar]
    show ⟨p, c⟩ ∈ T.relationships ++ [⟨parent_id, id⟩] ↔ _
    simp [hpar]

/-- **Every exit of `addNode`**: all its writes are rolled back where it
returns -1, and committed where it returns an id. -/
theorem AddExit.ends (hexit : AddExit mysql name parent_id env s r s')
    (hwork : env.Working) (hpend : s.db.session.pending = []) :
    ∃ ws undone, Session.Ends s.db.session s'.db.session ws undone
      ∧ (r = -1 → undone = true)
      ∧ (r ≠ -1 → undone = false ∧ ∃ rows db, ws = addedWrites parent_id r rows
          ∧ Inserted mysql name env s r rows db) := by
  have hback : env.fails .rollback = false := hwork.succeeds (by decide)
  have hon : env.fails .autocommitOn = false := hwork.succeeds (by decide)
  cases hexit with
  | insertRefused =>
      refine ⟨[], true, ?_, fun _ => rfl, fun hr => absurd rfl hr⟩
      rw [attempt_rollback hback]
      exact (inBlock_off hwork hpend).rollback
  | idLost _ hlost =>
      -- the one exit that ends nothing needs a failing query
      rw [hwork.lastInsertId] at hlost
      cases hlost
  | @relationshipRefused new_id rows db hi =>
      refine ⟨[.insertObjects rows], true, ?_, fun _ => rfl, fun hr => absurd rfl hr⟩
      rw [attempt_rollback hback]
      exact (hi.inBlock hwork hpend).rollback
  | @parentUnknown new_id rows db hi =>
      refine ⟨[.insertObjects rows, .insertRelationship ⟨parent_id, new_id⟩], true, ?_,
        fun _ => rfl, fun hr => absurd rfl hr⟩
      rw [attempt_rollback hback]
      exact ((hi.inBlock hwork hpend).write _).rollback
  | @linked new_id rows db a hi _ hpar =>
      refine ⟨[.insertObjects rows, .insertRelationship ⟨parent_id, r⟩], false, ?_,
        fun hr => absurd hr hi.new_id_ne, fun _ => ⟨rfl, rows, db, ?_, hi⟩⟩
      · rw [attempt_autocommitOn hon]
        exact ((hi.inBlock hwork hpend).write _).autocommitOn
      · unfold addedWrites
        rw [if_neg hpar]
  | @rooted new_id rows db a hi _ hpar =>
      refine ⟨[.insertObjects rows], false, ?_, fun hr => absurd hr hi.new_id_ne,
        fun _ => ⟨rfl, rows, db, ?_, hi⟩⟩
      · rw [attempt_autocommitOn hon]
        exact (hi.inBlock hwork hpend).autocommitOn
      · unfold addedWrites
        rw [if_pos hpar]

/-- The exit of `removeNode` that erases the node commits both DELETEs. -/
theorem ends_removed {p : Int} (hwork : env.Working) (hpend : s.db.session.pending = []) :
    Session.Ends s.db.session
      (attempt mysql env (.setAutocommit true) (attempt mysql env .commit
        (((attempt mysql env (.setAutocommit false) s.db).deleted p).deletedObject id))).session
      [.deleteRelationships p, .deleteObject id] false := by
  rw [attempt_autocommitOn (hwork.succeeds (by decide)),
    attempt_commit (hwork.succeeds (by decide))]
  exact (((inBlock_off hwork hpend).write _).write _).commit.autocommitOn

/-- **Every exit of `removeNode`**: all its writes are rolled back or committed,
and committed when it erases the node. -/
theorem RemoveExit.ends (hexit : RemoveExit mysql id env s s') (hwork : env.Working)
    (hpend : s.db.session.pending = []) :
    ∃ ws undone, Session.Ends s.db.session s'.db.session ws undone
      ∧ (s.mem.find id ≠ none → s'.mem.find id = none → undone = false
          ∧ ∃ p, ws = [.deleteRelationships p, .deleteObject id]) := by
  have hback : env.fails .rollback = false := hwork.succeeds (by decide)
  have hon : env.fails .autocommitOn = false := hwork.succeeds (by decide)
  have hoff : Session.InBlock s.db.session
      (attempt mysql env (.setAutocommit false) s.db).session [] := inBlock_off hwork hpend
  cases hexit with
  -- these two exits come before the first statement
  | notFound => exact ⟨[], false, Session.Ends.refl hpend, fun hne heq => absurd heq hne⟩
  | hasChildren => exact ⟨[], false, Session.Ends.refl hpend, fun hne heq => absurd heq hne⟩
  -- these two leave autocommit off and have written nothing
  | queryFailed => exact ⟨[], false, hoff.ends, fun hne heq => absurd heq hne⟩
  | noParent => exact ⟨[], false, hoff.ends, fun hne heq => absurd heq hne⟩
  | parentMissing =>
      refine ⟨[], true, ?_, fun hne heq => absurd heq hne⟩
      rw [attempt_autocommitOn hon, attempt_rollback hback]
      exact hoff.rollback.autocommitOn
  | relationshipsKept =>
      refine ⟨[], true, ?_, fun hne heq => absurd heq hne⟩
      rw [attempt_rollback hback]
      exact hoff.rollback
  | @objectKept node parent p =>
      refine ⟨[.deleteRelationships p], true, ?_, fun hne heq => absurd heq hne⟩
      rw [attempt_rollback hback]
      exact (hoff.write _).rollback
  | @removed node parent p =>
      exact ⟨[.deleteRelationships p, .deleteObject id], false, ends_removed hwork hpend,
        fun _ _ => ⟨rfl, p, rfl⟩⟩

end Working

/-! ## §3. Every request of every run. -/

variable {mysql : MySQL} {s s' : State}

/-- A request whose caller was told that it worked: `addNode` returned an id, or
`removeNode` has erased its node. -/
inductive Succeeded : Request → State → Response → State → Prop where
  | added {name : String} {parent_id id : Int} {env : Env} {s s' : State} :
      id ≠ -1 → Succeeded (.addNode name parent_id env) s (.added id) s'
  | removed {id : Int} {env : Env} {s s' : State} :
      s.mem.find id ≠ none → s'.mem.find id = none →
      Succeeded (.removeNode id env) s .removed s'

/-- What the request was to do is in the tables `T`. -/
def Recorded (T : Tables) : Request → Response → Prop
  | .addNode _ parent_id _, .added id => (∃ o ∈ T.objects, o.id = id)
      ∧ (parent_id ≠ -1 → ⟨parent_id, id⟩ ∈ T.relationships)
  | .removeNode id _, _ => (∀ o ∈ T.objects, o.id ≠ id)
      ∧ ∀ r ∈ T.relationships, r.parent_id ≠ id ∧ r.child_id ≠ id
  | _, _ => True

theorem recorded_added {T : Tables} {name : String} {parent_id id : Int} {env : Env}
    {rows : List ObjectRow} (hid : ∃ o ∈ rows, o.id = id) :
    Recorded ((addedWrites parent_id id rows).foldl Applies.apply T)
      (.addNode name parent_id env) (.added id) := by
  obtain ⟨o, ho, hoid⟩ := hid
  refine ⟨⟨o, ?_, hoid⟩, fun hne => mem_relationships_added.mpr (Or.inr ⟨hne, rfl, rfl⟩)⟩
  rw [objects_added]
  exact List.mem_append_right _ ho

theorem recorded_removed {T : Tables} {p id : Int} {env : Env} {resp : Response} :
    Recorded ([Write.deleteRelationships p, Write.deleteObject id].foldl Applies.apply T)
      (.removeNode id env) resp :=
  ⟨fun _ ho => (Tables.mem_objects_deleteObject.mp ho).2,
    fun _ hr => (Tables.mem_relationships_deleteObject.mp hr).2⟩

/-- **One request**: from nothing pending to nothing pending. -/
theorem serves_ends {req : Request} {resp : Response} (hserve : Serves mysql req s resp s')
    (hwork : req.Working) (hpend : s.db.session.pending = []) :
    ∃ ws undone, Session.Ends s.db.session s'.db.session ws undone
      ∧ (Succeeded req s resp s' → undone = false ∧ Recorded s'.db.committed req resp) := by
  rcases serves_cases hserve with
    ⟨name, parent_id, env, r, rfl, rfl, hexit⟩ | ⟨id, env, rfl, rfl, hexit⟩ | ⟨hreads, heq⟩
  · obtain ⟨ws, undone, hends, -, hadded⟩ := hexit.ends hwork hpend
    refine ⟨ws, undone, hends, fun hsucc => ?_⟩
    cases hsucc with
    | added hne =>
        obtain ⟨rfl, rows, db, rfl, hi⟩ := hadded hne
        refine ⟨rfl, ?_⟩
        have hcommitted : s'.db.committed = _ := hends.committed
        rw [hcommitted]
        exact recorded_added (List.mem_map.mp hi.new_id_mem)
  · obtain ⟨ws, undone, hends, hremoved⟩ := hexit.ends hwork hpend
    refine ⟨ws, undone, hends, fun hsucc => ?_⟩
    cases hsucc with
    | removed hfound hgone =>
        obtain ⟨rfl, p, rfl⟩ := hremoved hfound hgone
        refine ⟨rfl, ?_⟩
        have hcommitted : s'.db.committed = _ := hends.committed
        rw [hcommitted]
        exact recorded_removed
  · rw [heq]
    refine ⟨[], false, Session.Ends.refl hpend, fun hsucc => ⟨rfl, ?_⟩⟩
    cases hsucc with
    | added => cases hreads
    | removed => cases hreads

/-- **Transaction boundary**: after a startup, at every boundary between
requests the session holds no uncommitted write; a ROLLBACK discards the writes
of its own request and no others; and what a successful request wrote is
committed when it ends. -/
theorem nothing_pending {env : Startup} {db : Db} {s₀ : State}
    {steps : List (Step State Request Response)}
    (hstart : startup env db = .ok (s₀, true)) (hrun : Run (Serves mysql) s₀ steps s)
    (hwork : ∀ st ∈ steps, st.action.Working) :
    s.db.session.pending = [] ∧ ∀ st ∈ steps,
      st.before.db.session.pending = []
      ∧ ∃ ws undone, Session.Ends st.before.db.session st.after.db.session ws undone
        ∧ (Succeeded st.action st.before st.result st.after →
            undone = false ∧ Recorded st.after.db.committed st.action st.result) := by
  have h₀ : s₀.db.session.pending = [] := by
    obtain ⟨m, -, rfl⟩ := startup_eq_ok hstart
    rfl
  refine hrun.steps_of_guard (I := fun s => s.db.session.pending = [])
    (G := fun req _ => req.Working) h₀ ?_ hwork
  intro s req resp s' hpend hreq hserve
  obtain ⟨ws, undone, hends, hsucc⟩ := serves_ends hserve hreq hpend
  exact ⟨hends.pending, hpend, ws, undone, hends, hsucc⟩

/-- `removeNode` on a top-level node leaves autocommit off, with nothing
pending. -/
theorem nothing_pending_autocommit_off :
    ((State.initial.after readsA (.adding (-1) 1)).after readsA
        (.removing 1)).db.session.autocommit = false
      ∧ ((State.initial.after readsA (.adding (-1) 1)).after readsA
        (.removing 1)).db.session.pending = [] := by
  have hstart : startup .whole Db.empty = .ok (State.initial, true) := rfl
  have hadd : Serves readsA (.adding (-1) 1) State.initial (.added 1)
      (State.initial.after readsA (.adding (-1) 1)) := rfl
  have hremove : Serves readsA (.removing 1) (State.initial.after readsA (.adding (-1) 1))
      .removed ((State.initial.after readsA (.adding (-1) 1)).after readsA (.removing 1)) := rfl
  refine ⟨rfl, (nothing_pending hstart ((Run.nil.snoc hadd).snoc hremove) ?_).1⟩
  simp only [List.forall_mem_append, List.forall_mem_singleton, List.nil_append]
  exact ⟨fun _ h => (Bool.false_ne_true h).elim, fun _ h => (Bool.false_ne_true h).elim⟩

end ApiSyncer
