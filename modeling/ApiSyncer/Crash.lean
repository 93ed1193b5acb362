/-
  ApiSyncer.Crash
  ───────────────
  **A PROCESS THAT DIES IN THE MIDDLE OF A REQUEST.**

  The memory is lost, the server discards what was not committed, and the next
  process loads what was.  `Request.states` lists the states of the server that a
  request goes through; a crash leaves one of them.

      Request.mem_states     the states, as those of a method cut off
      Sound.happens          the process that comes up is sound
      crash_consistent       its pointers and the tables are as they should be
      crash_atomic           a request has happened, or it has not
      acknowledged_durable   when a row whose id was returned stays
      acknowledged_shown     such a row is shown after a complete load
-/
import ApiSyncer.Lib.Descent
import ApiSyncer.NamedIds
import ApiSyncer.Shown

namespace ApiSyncer

open ApiSyncer.Lib

/-! ## §1. The states that a request goes through. -/

/-- The place of a call in the methods: `addNode` and `removeNode` make their calls
in this order, leaving some out. -/
def Call.rank : Call → Nat
  | .autocommitOff => 0
  | .insertObject => 1
  | .lastInsertId => 2
  | .insertRelationship => 3
  | .selectParent => 4
  | .deleteRelationships => 5
  | .deleteObject => 6
  | .commit => 7
  | .rollback => 8
  | .autocommitOn => 9

/-- No call from the rank `k` on reaches the server. -/
def Env.dying (k : Nat) (env : Env) : Env :=
  { env with fails := fun call => env.fails call || decide (k ≤ call.rank) }

/-- The process dies before the call of rank `k`. -/
def Request.dying (k : Nat) : Request → Request
  | .addNode name parent_id env => .addNode name parent_id (env.dying k)
  | .removeNode id env => .removeNode id (env.dying k)
  | .tree fuel => .tree fuel
  | .validateTree => .validateTree

/-- The states of the server that a request goes through: before its first call,
after it, and so on.  A call that does not reach the server changes nothing there,
so the method itself, cut off at each rank, leaves them. -/
def Request.states (mysql : MySQL) (s : State) (req : Request) : List Db :=
  s.db :: (List.range' 1 10).filterMap fun k =>
    match serve mysql (req.dying k) s with
    | .ok (_, s') => some s'.db
    | .error _ => none

section States

variable {mysql : MySQL} {env : Env} {s s' : State} {db : Db} {req : Request} {k : Nat}

theorem Request.mem_states :
    db ∈ req.states mysql s ↔ db = s.db
      ∨ ∃ k resp s', 1 ≤ k ∧ k ≤ 10 ∧ Serves mysql (req.dying k) s resp s' ∧ s'.db = db := by
  unfold Request.states
  rw [List.mem_cons, List.mem_filterMap]
  refine or_congr_right ⟨fun h => ?_, fun h => ?_⟩
  · obtain ⟨k, hk, heq⟩ := h
    obtain ⟨hpos, hle⟩ := List.mem_range'_1.mp hk
    cases hserve : serve mysql (req.dying k) s with
    | error e =>
        rw [hserve] at heq
        cases heq
    | ok r =>
        rw [hserve] at heq
        exact ⟨k, r.1, r.2, hpos, by omega, hserve, Option.some.inj heq⟩
  · obtain ⟨k, resp, s', hpos, hle, hserve, rfl⟩ := h
    refine ⟨k, List.mem_range'_1.mpr ⟨hpos, by omega⟩, ?_⟩
    rw [show serve mysql (req.dying k) s = .ok (resp, s') from hserve]

/-- **The rule for the states of a request**: what requests like it bring about. -/
theorem Request.states_induction {P : Db → Prop} (hdb : db ∈ req.states mysql s) (h : P s.db)
    (hserve : ∀ k resp s', Serves mysql (req.dying k) s resp s' → P s'.db) : P db := by
  rcases Request.mem_states.mp hdb with rfl | ⟨k, resp, s', -, -, hs, rfl⟩
  · exact h
  · exact hserve k resp s' hs

/-- Behind the last rank the process has not died. -/
theorem Env.dying_last (env : Env) : env.dying 10 = env := by
  have hfails : (fun call => env.fails call || decide (10 ≤ call.rank)) = env.fails := by
    funext call
    cases call <;> simp [Call.rank]
  unfold Env.dying
  rw [hfails]

theorem Request.dying_last (req : Request) : req.dying 10 = req := by
  cases req <;> simp [Request.dying, Env.dying_last]

/-- A control statement before the end. -/
theorem attempt_dying {stmt : Statement} (hk : stmt.call.rank < k) :
    attempt mysql (env.dying k) stmt db = attempt mysql env stmt db := by
  have hfails : (env.dying k).fails stmt.call = env.fails stmt.call := by
    show (env.fails stmt.call || decide (k ≤ stmt.call.rank)) = _
    rw [decide_eq_false (Nat.not_le_of_lt hk), Bool.or_false]
  have hrun : db.run mysql (env.dying k) stmt = db.run mysql env stmt := by
    cases stmt <;> rfl
  unfold attempt executeUpdate
  rw [hfails, hrun]

end States

/-! ## §2. What a crash leaves. -/

section Crash

variable {mysql : MySQL} {s s' : State} {db : Db}

/-- **Every state that a request goes through** is one of a sound program. -/
theorem Sound.states {req : Request} (h : Sound s) (hdb : db ∈ req.states mysql s) :
    ∃ m, Sound ⟨db, m⟩ := by
  refine @Request.states_induction mysql s db req (fun db => ∃ m, Sound ⟨db, m⟩) hdb ⟨s.mem, h⟩
    fun k resp s' hserve => ⟨s'.mem, ?_⟩
  have hact : Acts mysql (.request (req.dying k)) s (some resp) s' := ⟨_, rfl, hserve⟩
  exact h.step hact

/-- What can happen: an action, or a crash in the middle of a request and the
restart after it. -/
inductive Incident where
  | action (a : Action)
  | crash (req : Request) (env : Startup)

/-- The step relation of a program that may crash. -/
def Happens (mysql : MySQL) : Incident → State → Option Response → State → Prop
  | .action a, s, resp, s' => Acts mysql a s resp s'
  | .crash req env, s, resp, s' => resp = none ∧ ∃ db ∈ req.states mysql s,
      startup env db = .ok (s', true)

/-- **A program that crashes anywhere stays sound.** -/
theorem Sound.happens {a : Incident} {r : Option Response} (h : Sound s)
    (hact : Happens mysql a s r s') : Sound s' := by
  cases a with
  | action a => exact h.step hact
  | crash req env =>
      obtain ⟨-, db, hdb, hstart⟩ := hact
      obtain ⟨m, hm⟩ := h.states hdb
      exact hm.restart hstart

theorem Sound.of_incidents {steps : List (Step State Incident (Option Response))}
    (h : Run (Happens mysql) State.initial steps s) : Sound s :=
  h.invariant ⟨_, _, _, _, Sound.initial⟩ fun _ _ _ _ hs hact => hs.happens hact

/-- **No crash tears the structures apart.**  In every state every listed node is
live and listed once; and in the committed tables ids are unique, rows name
objects that exist, no object has two parents, and the only cycles are rows of an
object under itself. -/
theorem crash_consistent {steps : List (Step State Incident (Option Response))}
    (hrun : Run (Happens mysql) State.initial steps s) :
    (∀ child ∈ s.mem.childPointers, s.mem.expired child = false)
      ∧ s.mem.childPointers.Nodup ∧ validateTree s.mem = true
      ∧ s.db.committed.ids.Nodup ∧ s.db.committed.ForeignKeys
      ∧ (∀ p q c, ⟨p, c⟩ ∈ s.db.committed.relationships → ⟨q, c⟩ ∈ s.db.committed.relationships →
        p = q)
      ∧ ∀ c, Relation.TransGen (fun p c => ⟨p, c⟩ ∈ s.db.committed.relationships) c c →
        ⟨c, c⟩ ∈ s.db.committed.relationships := by
  obtain ⟨F, addr, rank, bound, h⟩ := Sound.of_incidents hrun
  have hledger := h.ledger.committed
  refine ⟨fun child hc => h.represents.not_expired hc, h.represents.nodup_childPointers h.wellFormed,
    h.represents.validateTree_eq_true, hledger.ids_nodup, hledger.foreign_keys, hledger.one_parent,
    fun c hcycle => ?_⟩
  exact ranked_cycle hledger.ranked hcycle

/-- The server in the middle of an `addNode`, behind the first INSERT. -/
def Db.halfway : Db := (State.initial.after readsA ((Request.adding (-1) 1).dying 2)).db

theorem halfway_mem : Db.halfway ∈ (Request.adding (-1) 1).states readsA State.initial :=
  Request.mem_states.mpr (Or.inr ⟨2, _, _, by decide, by decide, rfl, rfl⟩)

/-- The process dies there. -/
theorem crash_consistent_halfway : ∃ s,
    Happens readsA (.crash (.adding (-1) 1) .whole) State.initial none s
      ∧ validateTree s.mem = true ∧ s.db.committed.ids.Nodup := by
  have hcrash : Happens readsA (.crash (.adding (-1) 1) .whole) State.initial none
      (State.restarted ⟨Db.halfway, State.initial.mem⟩) := ⟨rfl, Db.halfway, halfway_mem, rfl⟩
  obtain ⟨-, -, hgood, hnodup, -⟩ := crash_consistent (Run.nil.snoc hcrash)
  exact ⟨_, hcrash, hgood, hnodup⟩

end Crash

/-! ## §3. A request has happened, or it has not. -/

/-- Autocommit is off once the request has started. -/
def Request.Isolated : Request → State → Prop
  | .addNode _ _ env, s => env.fails .autocommitOff = false ∨ s.db.session.autocommit = false
  | .removeNode _ env, s => env.fails .autocommitOff = false ∨ s.db.session.autocommit = false
  | .tree _, _ => True
  | .validateTree, _ => True

section Atomic

variable {mysql : MySQL} {env : Env} {s s' : State} {db : Db} {name : String}
  {parent_id p id r : Int} {node parent : Addr}

theorem serves_addNode (hok : addNode mysql name parent_id env s = .ok (r, s')) :
    Serves mysql (.addNode name parent_id env) s (.added r) s' := by
  unfold Serves
  simp only [serve, hok]
  rfl

theorem serves_removeNode (hok : removeNode mysql id env s = .ok s') :
    Serves mysql (.removeNode id env) s .removed s' := by
  unfold Serves
  simp only [serve, hok]
  rfl

/-- A ROLLBACK commits nothing. -/
theorem committed_rollback (mysql : MySQL) (env : Env) (db : Db) :
    (attempt mysql env .rollback db).committed = db.committed := by
  cases hf : env.fails .rollback with
  | true => exact congrArg Db.committed (attempt_fails hf)
  | false =>
      rw [attempt_rollback hf]
      rfl

/-- A COMMIT leaves nothing for autocommit to commit. -/
theorem committed_commit (hf : env.fails .commit = false) :
    (attempt mysql env (.setAutocommit true) (attempt mysql env .commit db)).committed
      = db.view := by
  rw [attempt_commit hf]
  cases hon : env.fails .autocommitOn with
  | true => exact congrArg Db.committed (attempt_fails hon)
  | false =>
      rw [attempt_autocommitOn hon]
      rfl

/-- With autocommit off the first DELETE waits. -/
theorem committed_deleted
    (hauto : (attempt mysql env (.setAutocommit false) s.db).session.autocommit = false) :
    ((attempt mysql env (.setAutocommit false) s.db).deleted p).committed = s.db.committed :=
  (Session.committed_write_of_off hauto _).trans (committed_autocommitOff mysql env s.db)

/-- With autocommit off the second DELETE waits. -/
theorem committed_deletedObject
    (hauto : (attempt mysql env (.setAutocommit false) s.db).session.autocommit = false) :
    (((attempt mysql env (.setAutocommit false) s.db).deleted p).deletedObject id).committed
      = s.db.committed := by
  have hauto' : ((attempt mysql env (.setAutocommit false) s.db).deleted p).session.autocommit
      = false := (Session.autocommit_write _ _).trans hauto
  exact (Session.committed_write_of_off hauto' _).trans (committed_deleted hauto)

/-- **Until autocommit is turned on again an `addNode` has committed nothing.** -/
theorem AddExit.nothing_committed (h : AddExit mysql name parent_id env s r s')
    (hauto : (attempt mysql env (.setAutocommit false) s.db).session.autocommit = false)
    (hon : env.fails .autocommitOn = true) : s'.db.committed = s.db.committed := by
  have hoff := committed_autocommitOff mysql env s.db
  have hinserted : ∀ {new_id rows db}, Inserted mysql name env s new_id rows db →
      db.committed = s.db.committed := fun hi => (hi.committed_of_off hauto).1.trans hoff
  have hrelated : ∀ {new_id rows db}, Inserted mysql name env s new_id rows db →
      (db.session.write (.insertRelationship ⟨parent_id, new_id⟩)).committed
        = s.db.committed := fun hi =>
    (Session.committed_write_of_off (hi.committed_of_off hauto).2 _).trans (hinserted hi)
  cases h with
  | insertRefused => exact (committed_rollback mysql env _).trans hoff
  | idLost hi => exact hinserted hi
  | relationshipRefused hi => exact (committed_rollback mysql env _).trans (hinserted hi)
  | parentUnknown hi => exact (committed_rollback mysql env _).trans (hrelated hi)
  | linked hi => exact (congrArg Db.committed (attempt_fails hon)).trans (hrelated hi)
  | rooted hi => exact (congrArg Db.committed (attempt_fails hon)).trans (hinserted hi)

/-- Before the unlinking a `removeNode` has committed nothing, either. -/
theorem KeptExit.nothing_committed (h : KeptExit mysql id env s s')
    (hon : env.fails .autocommitOn = true) : s'.db.committed = s.db.committed := by
  have hoff := committed_autocommitOff mysql env s.db
  cases h with
  | untouched => rfl
  | autocommitOff => exact hoff
  | rolledBack =>
      have hback := (committed_rollback mysql env
        (attempt mysql env (.setAutocommit false) s.db)).trans hoff
      exact (congrArg Db.committed (attempt_fails hon)).trans hback

/-- What a `removeNode` commits in the end. -/
theorem DetachExit.committed_removed (h : DetachExit mysql id env s p node parent s')
    (hf : env.fails .deleteRelationships = false) (hf₂ : env.fails .deleteObject = false)
    (hcommit : env.fails .commit = false) :
    s'.db.committed
      = (((attempt mysql env (.setAutocommit false) s.db).deleted p).deletedObject id).view := by
  cases h with
  | relationshipsKept hfail =>
      rw [hf] at hfail
      cases hfail
  | objectKept _ hfail =>
      rw [hf₂] at hfail
      cases hfail
  | removed => exact committed_commit hcommit

/-- From the unlinking on a `removeNode` has committed nothing, or both DELETEs. -/
theorem DetachExit.committed_cases (h : DetachExit mysql id env s p node parent s')
    (hauto : (attempt mysql env (.setAutocommit false) s.db).session.autocommit = false)
    (hon : env.fails .autocommitOn = true) :
    s'.db.committed = s.db.committed
      ∨ env.fails .deleteRelationships = false ∧ env.fails .deleteObject = false
        ∧ env.fails .commit = false := by
  cases h with
  | relationshipsKept =>
      exact Or.inl ((committed_rollback mysql env _).trans (committed_autocommitOff mysql env s.db))
  | objectKept => exact Or.inl ((committed_rollback mysql env _).trans (committed_deleted hauto))
  | removed hf hf₂ =>
      cases hcommit : env.fails .commit with
      | false => exact Or.inr ⟨hf, hf₂, rfl⟩
      | true =>
          refine Or.inl ((congrArg Db.committed (attempt_fails hon)).trans ?_)
          exact (congrArg Db.committed (attempt_fails hcommit)).trans (committed_deletedObject hauto)

/-- **A crash leaves the tables as they were before the request, or as the whole
request leaves them**, in any state and whatever fails, if the writes were not
committed one by one. -/
theorem crash_atomic {req : Request} (hoff : req.Isolated s) (hdb : db ∈ req.states mysql s) :
    db.committed = s.db.committed
      ∨ ∃ resp s', Serves mysql req s resp s' ∧ db.committed = s'.db.committed := by
  rcases Request.mem_states.mp hdb with rfl | ⟨k, resp, s', hpos, hle, hserve, rfl⟩
  · exact Or.inl rfl
  by_cases hk : k = 10
  · rw [hk, Request.dying_last] at hserve
    exact Or.inr ⟨resp, s', hserve, rfl⟩
  -- it dies with autocommit off
  have hon : ∀ env : Env, (env.dying k).fails .autocommitOn = true := by
    intro env
    show (env.fails .autocommitOn || decide (k ≤ 9)) = true
    rw [decide_eq_true (by omega), Bool.or_true]
  have hstart : ∀ env : Env, attempt mysql (env.dying k) (.setAutocommit false) s.db
      = attempt mysql env (.setAutocommit false) s.db := fun env => attempt_dying hpos
  have hauto : ∀ env : Env, (env.fails .autocommitOff = false ∨ s.db.session.autocommit = false) →
      (attempt mysql (env.dying k) (.setAutocommit false) s.db).session.autocommit = false := by
    intro env hoff
    rw [hstart, autocommit_autocommitOff, Bool.and_eq_false_iff]
    exact hoff
  cases req with
  | addNode name parent_id env =>
      obtain ⟨r, -, hexit⟩ := Serves.addExit hserve
      exact Or.inl (hexit.nothing_committed (hauto env hoff) (hon env))
  | removeNode id env =>
      obtain ⟨-, hok⟩ := Serves.removeNode_eq hserve
      rcases removeNode_split mysql id (env.dying k) s with ⟨s₁, hok₁, -, hsplit⟩ | ⟨herr, -⟩
      · obtain rfl := Except.ok.inj (hok.symm.trans hok₁)
        rcases hsplit with ⟨-, hkept⟩ | ⟨p, node, parent, hdet, hexit⟩
        · exact Or.inl (hkept.nothing_committed (hon env))
        · rcases hexit.committed_cases (hauto env hoff) (hon env) with hsame | ⟨hf, hf₂, hcommit⟩
          · exact Or.inl hsame
          · -- nothing fails that the whole request needs
            have halive : ∀ {call}, (env.dying k).fails call = false → env.fails call = false :=
              fun h => (Bool.or_eq_false_iff.mp h).1
            have hdet' : Detaches id env s p node parent :=
              ⟨hdet.leaf, halive hdet.selects, hdet.delivered, hdet.find⟩
            obtain ⟨s₂, hok₂, hexit₂⟩ := hdet'.exit mysql
            refine Or.inr ⟨_, s₂, serves_removeNode hok₂, ?_⟩
            rw [hexit.committed_removed hf hf₂ hcommit, hstart,
              hexit₂.committed_removed (halive hf) (halive hf₂) (halive hcommit)]
      · rw [hok] at herr
        cases herr
  | tree fuel => exact Or.inl (congrArg (fun s : State => s.db.committed) (hserve.reads_eq rfl))
  | validateTree => exact Or.inl (congrArg (fun s : State => s.db.committed) (hserve.reads_eq rfl))

/-- Behind the first INSERT. -/
theorem crash_atomic_halfway : Db.halfway.committed = State.initial.db.committed
    ∨ ∃ resp s', Serves readsA (.adding (-1) 1) State.initial resp s'
      ∧ Db.halfway.committed = s'.db.committed :=
  crash_atomic (Or.inl rfl) halfway_mem

end Atomic

/-! ## §4. What is committed stays. -/

section Exits

variable {mysql : MySQL} {env : Env} {s s' : State} {name : String} {parent_id id r : Int}
  {P : Tables → Prop}

/-- **The rule for `addNode`**: what both INSERTs preserve. -/
theorem AddExit.both (hexit : AddExit mysql name parent_id env s r s')
    (h : Session.Both P s.db.session)
    (hobject : ∀ new_id rows db, Inserted mysql name env s new_id rows db → P s.db.view →
      P (s.db.view.apply (.insertObjects rows)))
    (hrelationship : ∀ new_id rows db, Inserted mysql name env s new_id rows db → P db.view →
      P (db.view.apply (.insertRelationship ⟨parent_id, new_id⟩))) :
    Session.Both P s'.db.session := by
  have hinserted : ∀ {new_id rows db}, Inserted mysql name env s new_id rows db →
      Session.Both P db.session := by
    intro new_id rows db hi
    have hview : (attempt mysql env (.setAutocommit false) s.db).session.view = s.db.view :=
      view_autocommitOff mysql env s.db
    rw [hi.effect.session]
    refine Session.Both.write (both_attempt rfl h) ?_
    rw [hview]
    exact hobject _ _ _ hi
  have hrelated : ∀ {new_id rows db}, Inserted mysql name env s new_id rows db →
      Session.Both P (db.session.write (.insertRelationship ⟨parent_id, new_id⟩)) := fun hi =>
    (hinserted hi).write (hrelationship _ _ _ hi)
  -- each exit ends with a control statement, or with none
  cases hexit with
  | insertRefused => exact both_attempt rfl (both_attempt rfl h)
  | idLost hi => exact hinserted hi
  | relationshipRefused hi => exact both_attempt rfl (hinserted hi)
  | parentUnknown hi => exact both_attempt rfl (hrelated hi)
  | linked hi => exact both_attempt rfl (hrelated hi)
  | rooted hi => exact both_attempt rfl (hinserted hi)

/-- **The rule for `removeNode`**: what both DELETEs preserve. -/
theorem RemoveExit.both (hexit : RemoveExit mysql id env s s')
    (h : Session.Both P s.db.session)
    (hrelationships : ∀ p, P s.db.view → P (s.db.view.apply (.deleteRelationships p)))
    (hobject : ∀ p, P (s.db.view.apply (.deleteRelationships p)) →
      P ((s.db.view.apply (.deleteRelationships p)).apply (.deleteObject id))) :
    Session.Both P s'.db.session := by
  have hview : (attempt mysql env (.setAutocommit false) s.db).session.view = s.db.view :=
    view_autocommitOff mysql env s.db
  have hoff : Session.Both P (attempt mysql env (.setAutocommit false) s.db).session :=
    both_attempt rfl h
  have hdeleted : ∀ p, Session.Both P
      ((attempt mysql env (.setAutocommit false) s.db).deleted p).session := by
    intro p
    refine Session.Both.write hoff ?_
    rw [hview]
    exact hrelationships p
  have hdeletedObject : ∀ p, Session.Both P
      (((attempt mysql env (.setAutocommit false) s.db).deleted p).deletedObject id).session := by
    intro p
    refine Session.Both.write (hdeleted p) ?_
    have hdel : ((attempt mysql env (.setAutocommit false) s.db).deleted p).session.view
        = s.db.view.apply (.deleteRelationships p) := by
      show (Session.write _ _).view = _
      rw [Session.view_write, hview]
      rfl
    rw [hdel]
    exact hobject p
  cases hexit with
  | notFound => exact h
  | hasChildren => exact h
  | queryFailed => exact hoff
  | noParent => exact hoff
  | parentMissing => exact both_attempt rfl (both_attempt rfl hoff)
  | relationshipsKept => exact both_attempt rfl hoff
  | objectKept => exact both_attempt rfl (hdeleted _)
  | removed => exact both_attempt rfl (both_attempt rfl (hdeletedObject _))

end Exits

section Durable

variable {mysql : MySQL} {s₀ s₁ s s' : State} {name : String} {parent_id c : Int} {env : Env}
  {o : ObjectRow} {db : Db} {before steps : List (Step State Incident (Option Response))}

/-- The row is committed, and the session reads it. -/
def Secured (o : ObjectRow) (db : Db) : Prop := Session.Both (fun T => o ∈ T.objects) db.session

/-- Nobody asks for the removal of the node. -/
def Request.Spares (c : Int) : Request → Prop
  | .removeNode id _ => id ≠ c
  | _ => True

def Incident.Spares (c : Int) : Incident → Prop
  | .action (.request req) => req.Spares c
  | .action (.restart _) => True
  | .crash req _ => req.Spares c

/-- A process that dies asks for no other removal. -/
theorem Request.Spares.dying {req : Request} (h : req.Spares c) (k : Nat) :
    (req.dying k).Spares c := by
  cases req <;> exact h

/-- A request that spares it. -/
theorem Secured.serves {req : Request} {resp : Response} (h : Secured o s.db)
    (hreq : req.Spares o.id) (hserve : Serves mysql req s resp s') : Secured o s'.db := by
  rcases serves_cases hserve with ⟨_, _, _, _, -, -, hexit⟩ | ⟨id, _, rfl, -, hexit⟩ | ⟨-, rfl⟩
  · exact hexit.both h (fun _ _ _ _ ho => List.mem_append_left _ ho) fun _ _ _ _ ho => ho
  · exact hexit.both h (fun p ho => ho)
      fun p ho => Tables.mem_objects_deleteObject.mpr ⟨ho, fun heq => hreq heq.symm⟩
  · exact h

/-- Every state of a request that spares it. -/
theorem Secured.states {req : Request} (h : Secured o s.db) (hreq : req.Spares o.id)
    (hdb : db ∈ req.states mysql s) : Secured o db :=
  Request.states_induction hdb h fun k _ _ hserve => h.serves (hreq.dying k) hserve

/-- A new session reads what is committed. -/
theorem Secured.startup {env : Startup} {b : Bool} (h : Secured o db)
    (hstart : startup env db = .ok (s', b)) : Secured o s'.db := by
  obtain ⟨m, -, rfl⟩ := startup_eq_ok hstart
  exact Session.Both.reopened h

/-- **Whatever happens, crashes included.** -/
theorem Secured.happens {a : Incident} {r : Option Response} (h : Secured o s.db)
    (ha : a.Spares o.id) (hact : Happens mysql a s r s') : Secured o s'.db := by
  cases a with
  | action a =>
      cases a with
      | request req =>
          obtain ⟨resp, -, hserve⟩ := hact
          exact h.serves ha hserve
      | restart env => exact h.startup hact.2
  | crash req env =>
      obtain ⟨-, db, hdb, hstart⟩ := hact
      exact (h.states ha hdb).startup hstart

/-- The writes of a successful `addNode` are committed: autocommit is turned on
again, or was on all the time. -/
def Commits (env : Env) (s : State) : Prop :=
  env.fails .autocommitOn = false
    ∨ env.fails .autocommitOff = true ∧ s.db.session.autocommit = true

/-- What the session reads is committed by the end of the request. -/
theorem Commits.both {P : Tables → Prop} (h : Commits env s) (hview : P db.view)
    (hmode : db.session.autocommit
      = (attempt mysql env (.setAutocommit false) s.db).session.autocommit) :
    Session.Both P (attempt mysql env (.setAutocommit true) db).session := by
  rcases h with hon | ⟨hoff, hauto⟩
  · rw [attempt_autocommitOn hon]
    exact ⟨hview, hview⟩
  · -- nothing has ever waited
    have hmode' : db.session.autocommit = true := by
      rw [hmode, autocommit_autocommitOff, hoff, hauto]
      rfl
    have hcommitted : P db.committed := by
      rw [Db.committed_eq_view hmode']
      exact hview
    exact both_attempt rfl ⟨hcommitted, hview⟩

/-- The row of a node whose id has been returned. -/
theorem secured_of_added (hserve : Serves mysql (.addNode name parent_id env) s₀ (.added c) s₁)
    (hc : c ≠ -1) (hcommits : Commits env s₀) :
    ∃ o names, mysql.valuesOf (insertObjectQuery name) = some names ∧ names.head? = some o.name
      ∧ o.id = c ∧ Secured o s₁.db := by
  obtain ⟨rows, db, db', hi, hdb, hobjects, -, hmode⟩ := hserve.added_exit.exists_inserted hc
  obtain ⟨row, rest, rfl, hid⟩ := hi.effect.head
  have hview : row ∈ db'.view.objects := by
    rw [hobjects, hi.view_eq]
    exact List.mem_append_right _ List.mem_cons_self
  refine ⟨row, _, hi.effect.names_eq, rfl, hid, ?_⟩
  unfold Secured
  rw [hdb]
  refine hcommits.both hview ?_
  rw [hmode, hi.effect.session, Session.autocommit_write]

/-- As long as autocommit stays off the row is not committed: the id is new. -/
theorem Sound.not_committed (h : Sound s₀)
    (hserve : Serves mysql (.addNode name parent_id env) s₀ (.added c) s₁) (hc : c ≠ -1)
    (hcommits : ¬ Commits env s₀) : c ∉ s₁.db.committed.ids := by
  obtain ⟨F, addr, rank, bound, h⟩ := h
  unfold Commits at hcommits
  rw [not_or, Bool.not_eq_false] at hcommits
  obtain ⟨hon, hmode⟩ := hcommits
  have hauto : (attempt mysql env (.setAutocommit false) s₀.db).session.autocommit = false := by
    rw [autocommit_autocommitOff]
    exact Bool.eq_false_iff.mpr fun htrue => hmode ((Bool.and_eq_true _ _).mp htrue)
  -- what was committed before the request still is all there is
  rw [hserve.added_exit.nothing_committed hauto hon]
  obtain ⟨rows, db, db', hi, -⟩ := hserve.added_exit.exists_inserted hc
  exact fun hmem => (hi.fresh hi.new_id_mem).2.2 (h.ledger.committed.allocated c hmem)

/-- **What was acknowledged is durable, exactly if its writes are committed.**
`addNode` has returned an id.  Then the row is committed after whatever requests,
failing calls, restarts and crashes follow, as long as nobody asks for the
removal of the node, if and only if autocommit is turned on again, or was on all
the time. -/
theorem acknowledged_durable (hbefore : Run (Happens mysql) State.initial before s₀)
    (hserve : Serves mysql (.addNode name parent_id env) s₀ (.added c) s₁) (hc : c ≠ -1) :
    (∀ steps s, Run (Happens mysql) s₁ steps s → (∀ st ∈ steps, st.action.Spares c) →
        ∃ o names, mysql.valuesOf (insertObjectQuery name) = some names
          ∧ names.head? = some o.name ∧ o.id = c ∧ o ∈ s.db.committed.objects)
      ↔ Commits env s₀ := by
  constructor
  · intro hdurable
    by_contra hcommits
    obtain ⟨o, -, -, -, rfl, ho⟩ := hdurable [] s₁ .nil fun _ hst => absurd hst List.not_mem_nil
    have hnot := (Sound.of_incidents hbefore).not_committed hserve hc hcommits
    exact hnot (List.mem_map_of_mem ho)
  · intro hcommits steps s hrun hsteps
    obtain ⟨o, names, hnames, hhead, rfl, hsecured⟩ := secured_of_added hserve hc hcommits
    have hguarded := hrun.guarded (G := fun a _ => a.Spares o.id) hsteps
    have hlast : Secured o s.db := hguarded.invariant (I := fun s => Secured o s.db) hsecured
      fun _ _ _ _ h hstep => h.happens hstep.2 hstep.1
    exact ⟨o, names, hnames, hhead, rfl, hlast.committed⟩

/-- An object is added, and the process dies when the next request comes. -/
theorem acknowledged_durable_crash : 1 ∈ State.one.restarted.db.committed.ids := by
  have hadd : Serves readsA (.adding (-1) 1) State.initial (.added 1) State.one := rfl
  have hcrash : Happens readsA (.crash (.adding 1 2) .whole) State.one none State.one.restarted :=
    ⟨rfl, State.one.db, List.mem_cons_self, rfl⟩
  obtain ⟨o, -, -, -, hid, ho⟩ := (acknowledged_durable .nil hadd (by decide)).mpr (Or.inl rfl) _ _
    (Run.nil.snoc hcrash) fun st hst => by
      rw [List.mem_singleton.mp hst]
      trivial
  exact hid ▸ List.mem_map_of_mem ho

end Durable

/-! ## §5. What is committed is shown again. -/

section Descends

variable {mysql : MySQL} {env : Env} {s s' : State} {T : Tables} {c p id new_id : Int}
  {allocated : List Int} {rank : Int → ℕ} {bound : ℕ} {db : Db}

namespace Tables.Descends

theorem insertObjects (h : T.Descends c) (rows : List ObjectRow) :
    (T.apply (.insertObjects rows)).Descends c := by
  obtain ⟨r, hr, hno, hpath⟩ := h
  refine ⟨r, ?_, hno, hpath⟩
  rw [Tables.ids_insertObjects]
  exact List.mem_append_left _ hr

/-- The row of a node that is new does not matter to the others. -/
theorem insertRelationship (h : T.Descends c) (hcn : c ≠ new_id)
    (hleaf : ∀ x, ⟨new_id, x⟩ ∉ T.relationships) :
    (T.apply (.insertRelationship ⟨p, new_id⟩)).Descends c := by
  refine @Lib.Descends.grow Int _ _ _ _ p c new_id h (fun _ hx => hx) hcn hleaf fun q x => ?_
  show _ ∈ T.relationships ++ [⟨p, new_id⟩] ↔ _
  rw [List.mem_append, List.mem_singleton, RelationshipRow.mk.injEq]

/-- Rows that are deleted do not hide what is left. -/
theorem of_subset {T' : Tables} (h : T.Descends c) (hledger : Ledger allocated rank T)
    (hsub : ∀ r ∈ T'.relationships, r ∈ T.relationships) (hkeys : T'.ForeignKeys)
    (hc : c ∈ T'.ids) : T'.Descends c :=
  Lib.Descends.shrink h (fun p q x hp hq => hledger.one_parent p q x hp hq)
    (fun _ _ hr => hsub _ hr) (fun _ _ hr => (hkeys _ hr).1) hc

end Tables.Descends

/-- **What the memory shows descends in the tables**, if it is an object there. -/
theorem Holds.descends {F : Forest Int String} {addr : Int → Addr} {k : Int}
    (h : Holds s F addr rank bound) (hreach : F.Reach superRootKey k)
    (hk : k ∈ s.db.view.ids) : s.db.view.Descends k := by
  induction hreach with
  | refl => exact absurd rfl (h.allocation.ne_superRootKey (h.ledger.view.allocated _ hk))
  | @tail b k _ he ih =>
      by_cases hrow : ∃ q, ⟨q, k⟩ ∈ s.db.view.relationships
      · -- the row names the one that lists it
        obtain ⟨q, hq⟩ := hrow
        obtain rfl := h.agrees.view q k hq b he
        exact (ih (h.ledger.view.parent_mem_ids hq)).tail hq
      · exact .root hk fun q hq => hrow ⟨q, hq⟩

/-- A new id is in no row yet. -/
theorem Inserted.no_row {name : String} {rows : List ObjectRow} {F : Forest Int String}
    {addr : Int → Addr} (hi : Inserted mysql name env s new_id rows db)
    (h : Holds s F addr rank bound) :
    (∀ x, ⟨new_id, x⟩ ∉ db.view.relationships) ∧ ∀ x, ⟨x, new_id⟩ ∉ db.view.relationships := by
  have hfresh := (hi.fresh hi.new_id_mem).2.2
  have hrows : db.view.relationships = s.db.view.relationships := by
    rw [hi.view_eq]
    rfl
  rw [hrows]
  exact ⟨fun x hx => hfresh (h.ledger.view.allocated _ (h.ledger.view.parent_mem_ids hx)),
    fun x hx => hfresh (h.ledger.view.allocated _ (h.ledger.view.child_mem_ids hx))⟩

/-- **A request that spares the node.** -/
theorem Sound.descends_serves {req : Request} {resp : Response} (h : Sound s)
    (hboth : Session.Both (fun T => T.Descends c) s.db.session) (hreq : req.Spares c)
    (hserve : Serves mysql req s resp s') :
    Session.Both (fun T => T.Descends c) s'.db.session := by
  obtain ⟨F, addr, rank, bound, h⟩ := h
  have hledger := h.ledger.view
  have hc : c ∈ s.db.view.ids := hboth.view.mem_ids hledger.foreign_keys
  rcases serves_cases hserve with ⟨_, _, _, _, -, -, hexit⟩ | ⟨id, _, rfl, -, hexit⟩ | ⟨-, rfl⟩
  · refine hexit.both hboth ?_ ?_
    · exact fun _ rows _ _ hT => hT.insertObjects rows
    · intro new_id rows db hi hT
      refine hT.insertRelationship ?_ (hi.no_row h).1
      rintro rfl
      exact (hi.fresh hi.new_id_mem).2.2 (hledger.allocated _ hc)
  · have hdeleted := fun p => hledger.deleteRelationships p
    refine hexit.both hboth ?_ ?_
    · intro p hT
      refine hT.of_subset hledger (fun r hr => ?_) (hdeleted p).foreign_keys hc
      exact (Tables.mem_relationships_deleteRelationships.mp hr).1
    · intro p hT
      refine hT.of_subset (hdeleted p) (fun r hr => ?_)
        ((hdeleted p).deleteObject id).foreign_keys ?_
      · exact (Tables.mem_relationships_deleteObject.mp hr).1
      · exact Tables.mem_ids_deleteObject.mpr
          ⟨hT.mem_ids (hdeleted p).foreign_keys, fun heq => hreq heq.symm⟩
  · exact hboth

/-- Every state of a request that spares the node. -/
theorem Sound.descends_states {req : Request} (h : Sound s)
    (hboth : Session.Both (fun T => T.Descends c) s.db.session) (hreq : req.Spares c)
    (hdb : db ∈ req.states mysql s) : Session.Both (fun T => T.Descends c) db.session :=
  @Request.states_induction mysql s db req (fun db => Session.Both (fun T => T.Descends c) db.session)
    hdb hboth fun k _ _ hserve => h.descends_serves hboth (hreq.dying k) hserve

/-- **Whatever happens, crashes included.** -/
theorem Sound.descends_happens {a : Incident} {r : Option Response} (h : Sound s)
    (hboth : Session.Both (fun T => T.Descends c) s.db.session) (ha : a.Spares c)
    (hact : Happens mysql a s r s') :
    Session.Both (fun T => T.Descends c) s'.db.session := by
  cases a with
  | action a =>
      cases a with
      | request req =>
          obtain ⟨resp, -, hserve⟩ := hact
          exact h.descends_serves hboth ha hserve
      | restart env =>
          obtain ⟨m, -, rfl⟩ := startup_eq_ok hact.2
          exact hboth.reopened
  | crash req env =>
      obtain ⟨-, db, hdb, hstart⟩ := hact
      obtain ⟨m, -, rfl⟩ := startup_eq_ok hstart
      exact (h.descends_states hboth ha hdb).reopened

/-- **The node that an `addNode` returns, under a parent that is shown.** -/
theorem SoundlyShows.descends_added {t : Json} {name : String} (h : SoundlyShows s t)
    (hp : p ∈ t.keys) (hserve : Serves mysql (.addNode name p env) s (.added c) s') (hc : c ≠ -1)
    (hcommits : Commits env s) : Session.Both (fun T => T.Descends c) s'.db.session := by
  obtain ⟨⟨F, addr, rank, bound, h⟩, ht⟩ := h
  obtain ⟨n, hn⟩ := h.shows_iff.mp ht
  obtain ⟨⟨k, l⟩, hentry, rfl⟩ := List.mem_map.mp hp
  have hreach := ((Forest.mem_entries_unfold h.wellFormed.closed h.rooted.mem_keys hn k l).mp hentry).1
  have hkF := hreach.mem_keys h.wellFormed.closed h.rooted.mem_keys
  cases hserve.added_exit with
  | insertRefused => exact absurd rfl hc
  | idLost => exact absurd rfl hc
  | relationshipRefused => exact absurd rfl hc
  | parentUnknown => exact absurd rfl hc
  | @linked new_id rows db a hi _ hne _ hadm =>
      obtain ⟨hleaf, -⟩ := hi.no_row h
      have hkc : k ≠ c := fun heq => h.new_id_notMem hi (heq ▸ hkF)
      -- the parent is an old object, and descends
      have hids : k ∈ s.db.view.ids := by
        have hk : k ∈ db.view.ids := (of_decide_eq_true hadm).2.1
        rw [hi.view_eq, Tables.ids_insertObjects] at hk
        rcases List.mem_append.mp hk with hold | hnew
        · exact hold
        · rcases h.keys k hkF with hroot | hal
          · rw [hroot, superRootKey_eq] at hne
            exact absurd rfl hne
          · exact absurd hal (hi.fresh hnew).2.2
      have hview : db.view.Descends k := by
        rw [hi.view_eq]
        exact (h.descends hreach hids).insertObjects rows
      have hrow : (db.view.apply (.insertRelationship ⟨k, c⟩)).Descends c := by
        refine (hview.insertRelationship hkc hleaf).tail ?_
        exact List.mem_append_right _ List.mem_cons_self
      refine hcommits.both ?_ ?_
      · unfold Db.view
        rw [Session.view_write]
        exact hrow
      · rw [Session.autocommit_write, hi.effect.session, Session.autocommit_write]
  | @rooted new_id rows db a hi =>
      have hroot : db.view.Descends c := by
        refine .root ?_ (hi.no_row h).2
        rw [hi.view_eq, Tables.ids_insertObjects]
        exact List.mem_append_right _ hi.new_id_mem
      refine hcommits.both hroot ?_
      rw [hi.effect.session, Session.autocommit_write]

end Descends

/-- Both tables are fetched to the end. -/
structure Startup.Complete (env : Startup) : Prop where
  connected : env.connect = .connected
  objects : ∃ order, env.objects = .resultSet order none
  relationships : ∃ order, env.relationships = .resultSet order none

theorem Startup.Complete.succeeds {env : Startup} (h : env.Complete) (T : Tables) :
    env.Succeeds T := by
  obtain ⟨hconnected, ⟨order, hobjects⟩, ⟨order', hrelationships⟩⟩ := h
  exact ⟨hconnected, ⟨order, none, hobjects, rfl⟩, ⟨order', none, hrelationships, rfl⟩⟩

/-- A restart, after a crash or not, that loads everything. -/
def Incident.Reloads : Incident → Prop
  | .action (.restart env) => env.Complete
  | .action (.request _) => False
  | .crash _ env => env.Complete

section Reload

variable {mysql : MySQL} {s₀ s₁ s s' : State} {t₀ : Json} {name : String} {p c : Int} {env : Env}
  {o : ObjectRow} {db : Db} {m : Memory} {before steps : List (Step State Incident (Option Response))}

/-- **A complete load shows every object that descends.** -/
theorem Sound.shows_reloaded {env : Startup} {b : Bool} (h : Sound ⟨db, m⟩) (henv : env.Complete)
    (ho : o ∈ db.committed.objects) (hdescends : db.committed.Descends o.id)
    (hstart : startup env db = .ok (s', b)) : ∃ t, Shows s'.mem t ∧ (o.id, o.name) ∈ t.entries := by
  obtain ⟨F, addr, rank, bound, h⟩ := h
  have hT := h.ledger.committed.loadable h.allocation
  have hkeys := h.ledger.committed.foreign_keys
  obtain ⟨m', G, addr', hok, hrep, hroot, hG⟩ := construct_complete hT (henv.succeeds db.committed)
  obtain ⟨m'', hok', rfl⟩ := startup_eq_ok hstart
  obtain ⟨rfl, -⟩ := Prod.mk.inj (Except.ok.inj (hok.symm.trans hok'))
  have hpart := hG.part hT h.ledger.committed.relationships_nodup
  have hreload : Holds ⟨db.reconnected, m'⟩ G addr' rank bound := h.reload hrep hroot hpart
  obtain ⟨t, ht⟩ := hreload.unfolds
  refine ⟨t, hreload.shows_iff.mpr ⟨_, ht⟩, ?_⟩
  rw [Forest.mem_entries_unfold hreload.wellFormed.closed hroot.mem_keys ht]
  refine ⟨(hG.reach_iff hT).mpr (Or.inr ?_), (hG.label o ho).symm⟩
  obtain ⟨r, hr, hno, hpath⟩ := hdescends
  refine ⟨r, hr, hkeys.not_parented_iff.mpr hno, ?_⟩
  exact Relation.ReflTransGen.mono (fun p c hrow => ⟨hrow, hkeys _ hrow⟩) r o.id hpath

/-- **What was acknowledged is shown again.**  A node is added under a parent that
is shown, its id is returned and its writes are committed.  Then whatever
requests, failing calls, restarts and crashes follow, as long as nobody asks for
its removal, every restart that loads both tables shows it. -/
theorem acknowledged_shown {a : Incident} {r : Option Response}
    (hbefore : Run (Happens mysql) State.initial before s₀) (ht₀ : Shows s₀.mem t₀)
    (hp : p ∈ t₀.keys) (hserve : Serves mysql (.addNode name p env) s₀ (.added c) s₁)
    (hc : c ≠ -1) (hcommits : Commits env s₀) (hrun : Run (Happens mysql) s₁ steps s)
    (hsteps : ∀ st ∈ steps, st.action.Spares c) (hlast : Happens mysql a s r s')
    (ha : a.Spares c) (hreloads : a.Reloads) :
    ∃ t label names, Shows s'.mem t ∧ (c, label) ∈ t.entries
      ∧ mysql.valuesOf (insertObjectQuery name) = some names ∧ names.head? = some label := by
  have hsound₀ := Sound.of_incidents hbefore
  obtain ⟨o, names, hnames, hhead, rfl, hsecured⟩ := secured_of_added hserve hc hcommits
  have hdescends := SoundlyShows.descends_added ⟨hsound₀, ht₀⟩ hp hserve hc hcommits
  have hsound₁ : Sound s₁ := by
    have hact : Acts mysql (.request (.addNode name p env)) s₀ (some (.added o.id)) s₁ :=
      ⟨_, rfl, hserve⟩
    exact hsound₀.step hact
  -- all three facts are carried to the last state
  have hguarded := hrun.guarded (G := fun a _ => a.Spares o.id) hsteps
  have hinv := hguarded.invariant
    (I := fun s => Sound s ∧ Secured o s.db
      ∧ Session.Both (fun T => T.Descends o.id) s.db.session) ⟨hsound₁, hsecured, hdescends⟩ ?_
  · obtain ⟨hsound, hsecured, hdescends⟩ := hinv
    have hshown : ∃ db env m, Sound ⟨db, m⟩ ∧ Secured o db
        ∧ Session.Both (fun T => T.Descends o.id) db.session ∧ env.Complete
        ∧ startup env db = .ok (s', true) := by
      cases a with
      | action a =>
          cases a with
          | request req => exact absurd hreloads id
          | restart env => exact ⟨s.db, env, s.mem, hsound, hsecured, hdescends, hreloads, hlast.2⟩
      | crash req env =>
          obtain ⟨-, db, hdb, hstart⟩ := hlast
          obtain ⟨m, hm⟩ := hsound.states hdb
          exact ⟨db, env, m, hm, hsecured.states ha hdb, hsound.descends_states hdescends ha hdb,
            hreloads, hstart⟩
    obtain ⟨db, env, m, hm, hsecured, hdescends, henv, hstart⟩ := hshown
    obtain ⟨t, ht, hentry⟩ :=
      hm.shows_reloaded henv hsecured.committed hdescends.committed hstart
    exact ⟨t, o.name, names, ht, hentry, hnames, hhead⟩
  · rintro s a r s' ⟨hsound, hsecured, hdescends⟩ ⟨hact, ha⟩
    exact ⟨hsound.happens hact, hsecured.happens ha hact, hsound.descends_happens hdescends ha hact⟩

end Reload

end ApiSyncer
