/-
  ApiSyncer.Durability
  ────────────────────
  **WHICH ROWS BECOME DURABLE WHEN CALLS FAIL.**

  A committed row should have been inserted by an `addNode` that returned its
  id.  The exit of `addNode` after a lost LAST_INSERT_ID answer breaks this: it
  issues no ROLLBACK, so the row waits for the next request that commits.  The
  other exits keep to it as long as the ROLLBACK they rely on takes effect.

      Accounted              the property, over the history
      Request.Undoable       the condition on a request
      committed_accounted    runs whose requests all meet it
-/
import ApiSyncer.Ledger

namespace ApiSyncer

open ApiSyncer.Lib

/-! ## §1. The property. -/

/-- The step made the write `w`. -/
def wrote (st : Step State Request Response) (w : Write) : Prop :=
  Session.Wrote st.before.db.session st.after.db.session w

/-- Each row of `T` that is not one of `T₀` was inserted by an `addNode` of the
history that returned the row's id, a value other than -1. -/
structure Accounted (T₀ : Tables) (steps : List (Step State Request Response))
    (T : Tables) : Prop where
  objects : ∀ o ∈ T.objects, o ∈ T₀.objects ∨ ∃ st ∈ steps,
    (∃ rows, o ∈ rows ∧ wrote st (.insertObjects rows))
      ∧ st.result = .added o.id ∧ o.id ≠ -1
  relationships : ∀ r ∈ T.relationships, r ∈ T₀.relationships ∨ ∃ st ∈ steps,
    wrote st (.insertRelationship r) ∧ st.result = .added r.child_id ∧ r.child_id ≠ -1

/-- Every id in the tables was handed out. -/
structure Known (allocated : List Int) (T : Tables) : Prop where
  ids : ∀ i ∈ T.ids, i ∈ allocated
  children : ∀ r ∈ T.relationships, r.child_id ∈ allocated

namespace Accounted

variable {T₀ T : Tables} {steps : List (Step State Request Response)}

theorem refl (T : Tables) : Accounted T [] T := ⟨fun _ h => Or.inl h, fun _ h => Or.inl h⟩

/-- A longer history accounts for more. -/
theorem append (h : Accounted T₀ steps T) (st : Step State Request Response) :
    Accounted T₀ (steps ++ [st]) T where
  objects o ho := (h.objects o ho).imp_right fun hst => by
    obtain ⟨st', hmem, hrest⟩ := hst
    exact ⟨st', List.mem_append_left _ hmem, hrest⟩
  relationships r hr := (h.relationships r hr).imp_right fun hst => by
    obtain ⟨st', hmem, hrest⟩ := hst
    exact ⟨st', List.mem_append_left _ hmem, hrest⟩

theorem insertObjects (h : Accounted T₀ steps T) {rows : List ObjectRow}
    {st : Step State Request Response} (hst : st ∈ steps) (hw : wrote st (.insertObjects rows))
    (hrows : ∀ o ∈ rows, st.result = .added o.id ∧ o.id ≠ -1) :
    Accounted T₀ steps (T.apply (.insertObjects rows)) where
  objects o ho := by
    rcases List.mem_append.mp ho with ho | ho
    · exact h.objects o ho
    · exact Or.inr ⟨st, hst, ⟨rows, ho, hw⟩, hrows o ho⟩
  relationships := h.relationships

theorem insertRelationship (h : Accounted T₀ steps T) {row : RelationshipRow}
    {st : Step State Request Response} (hst : st ∈ steps)
    (hw : wrote st (.insertRelationship row))
    (hrow : st.result = .added row.child_id ∧ row.child_id ≠ -1) :
    Accounted T₀ steps (T.apply (.insertRelationship row)) where
  objects := h.objects
  relationships r hr := by
    rcases List.mem_append.mp hr with hr | hr
    · exact h.relationships r hr
    · rw [List.mem_singleton.mp hr]
      exact Or.inr ⟨st, hst, hw, hrow⟩

theorem deleteRelationships (h : Accounted T₀ steps T) (p : Int) :
    Accounted T₀ steps (T.apply (.deleteRelationships p)) where
  objects := h.objects
  relationships r hr := h.relationships r (Tables.mem_relationships_deleteRelationships.mp hr).1

theorem deleteObject (h : Accounted T₀ steps T) (id : Int) :
    Accounted T₀ steps (T.apply (.deleteObject id)) where
  objects o ho := h.objects o (Tables.mem_objects_deleteObject.mp ho).1
  relationships r hr := h.relationships r (Tables.mem_relationships_deleteObject.mp hr).1

end Accounted

namespace Known

variable {allocated : List Int} {T : Tables}

theorem insertRelationship (h : Known allocated T) {row : RelationshipRow}
    (hadm : Db.admitsRelationship T row = true) :
    Known allocated (T.apply (.insertRelationship row)) where
  ids := h.ids
  children r hr := by
    rcases List.mem_append.mp hr with hr | hr
    · exact h.children r hr
    · rw [List.mem_singleton.mp hr]
      exact h.ids _ (of_decide_eq_true hadm).2.2

theorem deleteRelationships (h : Known allocated T) (p : Int) :
    Known allocated (T.apply (.deleteRelationships p)) where
  ids := h.ids
  children r hr := h.children r (Tables.mem_relationships_deleteRelationships.mp hr).1

theorem deleteObject (h : Known allocated T) (id : Int) :
    Known allocated (T.apply (.deleteObject id)) where
  ids i hi := h.ids i (Tables.mem_ids_deleteObject.mp hi).1
  children r hr := h.children r (Tables.mem_relationships_deleteObject.mp hr).1

end Known

/-! ## §2. The condition. -/

/-- `addNode` gets past its parent: there is none, or the row is accepted and
the map holds the parent (the new node itself included). -/
def ParentAccepted (parent_id : Int) (env : Env) (s : State) : Prop :=
  parent_id = -1 ∨ env.fails .insertRelationship = false
    ∧ (parent_id ∈ s.db.view.ids ∨ parent_id ∈ env.ids)
    ∧ (env.ids.head? = some parent_id ∨ ∃ a, s.mem.find parent_id = some (some a))

/-- What an `addNode` needs in order to leave no row behind that it did not
return.  Either its INSERT does not run; or LAST_INSERT_ID answers, and then
with an accepted parent the name is read as one row, and without one the INSERT
ran with autocommit off and the ROLLBACK goes through. -/
def Request.Undoable (mysql : MySQL) : Request → State → Prop
  | .addNode name parent_id env, s =>
      env.fails .insertObject = true
      ∨ s.db.run mysql env (.insertObject (insertObjectQuery name)) = none
      ∨ env.fails .lastInsertId = false
        ∧ (ParentAccepted parent_id env s →
            ∀ names, mysql.valuesOf (insertObjectQuery name) = some names → names.length = 1)
        ∧ (¬ ParentAccepted parent_id env s →
            (env.fails .autocommitOff = false ∨ s.db.session.autocommit = false)
              ∧ env.fails .rollback = false)
  | _, _ => True

section Exits

variable {mysql : MySQL} {env : Env} {s s' : State} {db : Db} {name : String}
  {parent_id r id new_id : Int} {rows : List ObjectRow}
  {T₀ : Tables} {steps : List (Step State Request Response)}

/-- Whether the INSERT of a name is accepted does not depend on the mode. -/
theorem run_insertObject_eq_none {query : String} {db db' : Db}
    (halloc : db'.allocated = db.allocated)
    (h : db.run mysql env (.insertObject query) = none) :
    db'.run mysql env (.insertObject query) = none := by
  have hadm : ∀ ids, db'.admitsIds ids = db.admitsIds ids := by
    intro ids
    unfold Db.admitsIds
    rw [halloc]
  simp only [Db.run] at h ⊢
  split
  next name names id ids hnames hids =>
      rw [hnames, hids] at h
      simp only at h
      split at h
      · cases h
      next hno =>
          rw [hadm, if_neg hno]
  next => rfl

/-- What is left of the condition once the INSERT has run. -/
theorem Inserted.undoable (hi : Inserted mysql name env s new_id rows db)
    (h : (Request.addNode name parent_id env).Undoable mysql s) :
    env.fails .lastInsertId = false
      ∧ (ParentAccepted parent_id env s → ∃ row, rows = [row] ∧ row.id = new_id)
      ∧ (¬ ParentAccepted parent_id env s →
          (attempt mysql env (.setAutocommit false) s.db).session.autocommit = false
            ∧ env.fails .rollback = false) := by
  obtain ⟨n, db', hf, hrun, -⟩ := executeUpdate_ran hi.ran
  rcases h with hfails | hnone | ⟨hlast, hone, hundo⟩
  · have hf' : env.fails .insertObject = false := hf
    rw [hf'] at hfails
    cases hfails
  · rw [run_insertObject_eq_none (allocated_attempt rfl) hnone] at hrun
    cases hrun
  · refine ⟨hlast, fun hacc => ?_, fun hacc => ?_⟩
    -- one name, so one row, and LAST_INSERT_ID is its id
    · obtain ⟨row, rest, rfl, hid⟩ := hi.effect.head
      have hlen := hone hacc _ hi.effect.names_eq
      rw [List.length_map, List.length_cons] at hlen
      have hrest : rest = [] := List.eq_nil_of_length_eq_zero (by omega)
      exact ⟨row, by rw [hrest], hid⟩
    · obtain ⟨hoff, hback⟩ := hundo hacc
      -- the SET went through, or autocommit was off already
      refine ⟨?_, hback⟩
      rw [autocommit_autocommitOff, Bool.and_eq_false_iff]
      exact hoff

/-! ## §3. Failing exits leave nothing behind. -/

/-- The invariant: what is committed or waiting is accounted for. -/
def AccountedFor (T₀ : Tables) (steps : List (Step State Request Response)) (s : State) :
    Prop :=
  Session.Both (fun T => Accounted T₀ steps T ∧ Known s.db.allocated T) s.db.session

theorem Known.inserted (hi : Inserted mysql name env s new_id rows db)
    (h : Session.Both (Known s.db.allocated) s.db.session) :
    Session.Both (Known db.allocated) db.session := by
  have hmono : Session.Both (Known db.allocated)
      (attempt mysql env (.setAutocommit false) s.db).session := by
    refine (both_attempt rfl h).imp fun T hT => ⟨fun i hi' => ?_, fun r hr => ?_⟩
    · rw [hi.allocated_eq]
      exact List.mem_append_left _ (hT.ids i hi')
    · rw [hi.allocated_eq]
      exact List.mem_append_left _ (hT.children r hr)
  rw [hi.effect.session]
  refine hmono.write fun hT => ⟨fun i hi' => ?_, hT.children⟩
  rw [Tables.applies_eq, Tables.ids_insertObjects, List.mem_append] at hi'
  rcases hi' with hold | hnew
  · exact hT.ids i hold
  · rw [hi.allocated_eq]
    exact List.mem_append_right _ hnew

/-- Once the ROLLBACK has gone through, what was committed before is all there
is. -/
theorem both_rolledBack {P : Tables → Prop} (hback : env.fails .rollback = false)
    (h : P db.committed) : Session.Both P (attempt mysql env .rollback db).session := by
  rw [attempt_rollback hback]
  exact ⟨h, h⟩

/-- With autocommit off the INSERT commits nothing. -/
theorem Inserted.committed_of_off (hi : Inserted mysql name env s new_id rows db)
    (hoff : (attempt mysql env (.setAutocommit false) s.db).session.autocommit = false) :
    db.committed = (attempt mysql env (.setAutocommit false) s.db).committed
      ∧ db.session.autocommit = false := by
  unfold Db.committed
  rw [hi.effect.session, Session.autocommit_write]
  exact ⟨Session.committed_write_of_off hoff _, hoff⟩

/-- The rows of the relationship are admitted when the parent is accepted. -/
theorem Inserted.admitted (hi : Inserted mysql name env s new_id rows db)
    (hknown : Session.Both (Known s.db.allocated) s.db.session) :
    Db.admitsRelationship db.view ⟨parent_id, new_id⟩ = true
      ↔ parent_id ∈ s.db.view.ids ∨ parent_id ∈ env.ids := by
  have hids : db.view.ids = s.db.view.ids ++ env.ids := by
    rw [hi.view_eq, Tables.ids_insertObjects, hi.effect.ids_eq]
  have hnew : new_id ∈ db.view.ids := by
    rw [hids, hi.effect.ids_eq]
    exact List.mem_append_right _ hi.new_id_mem
  have hrow : (⟨parent_id, new_id⟩ : RelationshipRow) ∉ db.view.relationships := by
    rw [hi.view_eq, Tables.relationships_insertObjects]
    intro hmem
    exact (hi.fresh hi.new_id_mem).2.2 (hknown.view.children _ hmem)
  unfold Db.admitsRelationship
  rw [decide_eq_true_eq]
  show _ ∉ _ ∧ parent_id ∈ db.view.ids ∧ new_id ∈ db.view.ids ↔ _
  constructor
  · intro hadm
    have hp := hadm.2.1
    rwa [hids, List.mem_append] at hp
  · intro hp
    refine ⟨hrow, ?_, hnew⟩
    rw [hids, List.mem_append]
    exact hp

/-- The new node is in the map, and the others are where they were. -/
theorem find_stored : (∃ a, (s.stored new_id name).find parent_id = some (some a))
    ↔ parent_id = new_id ∨ ∃ a, s.mem.find parent_id = some (some a) := by
  unfold State.stored
  by_cases heq : parent_id = new_id
  · subst heq
    rw [Memory.find_store_self]
    simp
  · rw [Memory.find_store_of_ne heq]
    simp [heq]

theorem Inserted.head_ids (hi : Inserted mysql name env s new_id rows db) :
    env.ids.head? = some parent_id ↔ parent_id = new_id := by
  obtain ⟨row, rest, rfl, rfl⟩ := hi.effect.head
  rw [hi.effect.ids_eq]
  simp [eq_comm]

/-- An accepted parent's row is not refused. -/
theorem Inserted.refused (hi : Inserted mysql name env s new_id rows db)
    (hknown : Session.Both (Known s.db.allocated) s.db.session) (hpar : parent_id ≠ -1)
    (hrefused : (executeUpdate mysql env (.insertRelationship new_id parent_id) db).1 = -1) :
    ¬ ParentAccepted parent_id env s := by
  intro hacc
  obtain ⟨hf, hids, -⟩ := hacc.resolve_left hpar
  have hrun : ∃ n db', db.run mysql env (.insertRelationship new_id parent_id)
      = some (n, db') := by
    simp only [Db.run]
    rw [if_pos ((hi.admitted hknown).mpr hids)]
    exact ⟨_, _, rfl⟩
  obtain ⟨n, db', hrun⟩ := hrun
  rw [executeUpdate_ok hf hrun] at hrefused
  have : (n : Int) = -1 := hrefused
  omega

/-- A parent that the map does not hold is not accepted. -/
theorem Inserted.unknown (hi : Inserted mysql name env s new_id rows db) (hpar : parent_id ≠ -1)
    (hfind : ∀ a, (s.stored new_id name).find parent_id ≠ some (some a)) :
    ¬ ParentAccepted parent_id env s := by
  intro hacc
  obtain ⟨-, -, hmap⟩ := hacc.resolve_left hpar
  rw [hi.head_ids] at hmap
  obtain ⟨a, ha⟩ := find_stored.mpr hmap
  exact hfind a ha

theorem Inserted.known (hi : Inserted mysql name env s new_id rows db)
    (hknown : Session.Both (Known s.db.allocated) s.db.session)
    (hf : env.fails .insertRelationship = false)
    (hadm : Db.admitsRelationship db.view ⟨parent_id, new_id⟩ = true) {a : Addr}
    (hfind : (s.stored new_id name).find parent_id = some (some a)) :
    ParentAccepted parent_id env s := by
  refine Or.inr ⟨hf, (hi.admitted hknown).mp hadm, ?_⟩
  rw [hi.head_ids]
  exact find_stored.mp ⟨a, hfind⟩

/-! ## §4. Every exit. -/

theorem extends_attempt {stmt : Statement} (hc : stmt.isControl = true) :
    Session.Extends db.session (attempt mysql env stmt db).session := by
  rcases attempt_control mysql env db hc with heq | ⟨on, heq⟩ | heq | heq
  · rw [heq]
    exact Session.Extends.refl _
  · rw [heq]
    exact Session.Extends.setAutocommit _ on
  · rw [heq]
    exact Session.Extends.commit _
  · rw [heq]
    exact Session.Extends.rollback _

theorem Inserted.wrote (hi : Inserted mysql name env s new_id rows db) :
    Session.Wrote s.db.session db.session (.insertObjects rows) := by
  rw [hi.effect.session]
  exact (extends_attempt rfl).wrote _

theorem AccountedFor.append (h : AccountedFor T₀ steps s)
    (st : Step State Request Response) : AccountedFor T₀ (steps ++ [st]) s :=
  Session.Both.imp h fun _ hT => ⟨hT.1.append st, hT.2⟩

theorem AccountedFor.control {stmt : Statement} {m : Memory}
    (h : AccountedFor T₀ steps ⟨db, m⟩) (hc : stmt.isControl = true) (m' : Memory) :
    AccountedFor T₀ steps ⟨attempt mysql env stmt db, m'⟩ := by
  unfold AccountedFor
  show Session.Both (fun T => _ ∧ Known (attempt mysql env stmt db).allocated T) _
  rw [allocated_attempt hc]
  exact both_attempt hc h

/-- A longer history and the ids of the INSERT. -/
theorem AccountedFor.insert (h : AccountedFor T₀ steps s)
    (hi : Inserted mysql name env s new_id rows db) (st : Step State Request Response) :
    Session.Both (Accounted T₀ (steps ++ [st]))
        (attempt mysql env (.setAutocommit false) s.db).session
      ∧ Session.Both (Known db.allocated) db.session :=
  ⟨both_attempt rfl (Session.Both.imp h fun _ hT => hT.1.append st),
    Known.inserted hi (Session.Both.imp h fun _ hT => hT.2)⟩

/-- A failing exit with a rejected parent: the ROLLBACK discards all its rows. -/
theorem AccountedFor.rolledBack (h : AccountedFor T₀ steps s)
    (hi : Inserted mysql name env s new_id rows db)
    (hG : (Request.addNode name parent_id env).Undoable mysql s)
    (hno : ¬ ParentAccepted parent_id env s) (st : Step State Request Response) {db' : Db}
    (halloc : db'.allocated = db.allocated)
    (hcommitted : db.session.autocommit = false → db'.committed = db.committed)
    (m : Memory) :
    AccountedFor T₀ (steps ++ [st]) ⟨attempt mysql env .rollback db', m⟩ := by
  obtain ⟨hacc, hknown⟩ := h.insert hi st
  obtain ⟨-, -, hundo⟩ := hi.undoable hG
  obtain ⟨hoff, hback⟩ := hundo hno
  obtain ⟨heq, hoff'⟩ := hi.committed_of_off hoff
  unfold AccountedFor
  show Session.Both (fun T => _ ∧ Known (attempt mysql env .rollback db').allocated T) _
  rw [allocated_attempt rfl, halloc]
  refine both_rolledBack hback ?_
  rw [hcommitted hoff']
  refine ⟨?_, hknown.committed⟩
  rw [heq]
  exact hacc.committed

/-- A succeeding exit: the step accounts for its one row. -/
theorem AccountedFor.inserted {row : ObjectRow} (h : AccountedFor T₀ steps s)
    (hi : Inserted mysql name env s row.id [row] db) {st : Step State Request Response}
    (hbefore : st.before = s) (hresult : st.result = .added row.id)
    (hafter : Session.Extends db.session st.after.db.session) (m : Memory) :
    AccountedFor T₀ (steps ++ [st]) ⟨db, m⟩ := by
  obtain ⟨hacc, hknown⟩ := h.insert hi st
  have hst : st ∈ steps ++ [st] := List.mem_append_right _ (List.mem_singleton_self _)
  have hw : wrote st (.insertObjects [row]) := by
    unfold ApiSyncer.wrote
    rw [hbefore]
    exact hi.wrote.mono hafter
  refine Session.Both.and ?_ hknown
  rw [hi.effect.session]
  refine hacc.write fun hT => hT.insertObjects hst hw fun o ho => ?_
  rw [List.mem_singleton.mp ho]
  exact ⟨hresult, hi.new_id_ne⟩

/-- The row of the relationship leaves every row accounted for. -/
theorem AccountedFor.related {row : ObjectRow} {st : Step State Request Response} {m : Memory}
    (h : AccountedFor T₀ (steps ++ [st]) ⟨db, m⟩)
    (hadm : Db.admitsRelationship db.view ⟨parent_id, row.id⟩ = true)
    (hi : Inserted mysql name env s row.id [row] db)
    (hbefore : st.before = s) (hresult : st.result = .added row.id)
    (hafter : Session.Extends (db.session.write (.insertRelationship ⟨parent_id, row.id⟩))
      st.after.db.session) :
    AccountedFor T₀ (steps ++ [st])
      ⟨{ db with session := db.session.write (.insertRelationship ⟨parent_id, row.id⟩) }, m⟩ := by
  have hst : st ∈ steps ++ [st] := List.mem_append_right _ (List.mem_singleton_self _)
  have hext : Session.Extends s.db.session db.session := by
    obtain ⟨events, hlog, -⟩ := hi.wrote
    exact ⟨events, hlog⟩
  have hw : wrote st (.insertRelationship ⟨parent_id, row.id⟩) := by
    unfold ApiSyncer.wrote
    rw [hbefore]
    exact (hext.wrote _).mono hafter
  exact Session.Both.write h fun hT =>
    ⟨hT.1.insertRelationship hst hw ⟨hresult, hi.new_id_ne⟩, hT.2.insertRelationship hadm⟩

/-- **Every exit of an `addNode` that meets the condition.** -/
theorem AddExit.accounted (hexit : AddExit mysql name parent_id env s r s')
    (hG : (Request.addNode name parent_id env).Undoable mysql s)
    (h : AccountedFor T₀ steps s) :
    AccountedFor T₀ (steps ++ [⟨s, .addNode name parent_id env, .added r, s'⟩]) s' := by
  have hknown : Session.Both (Known s.db.allocated) s.db.session :=
    Session.Both.imp h fun T hT => hT.2
  generalize hst : Step.mk s (Request.addNode name parent_id env) (Response.added r) s' = st
  have hbefore : st.before = s := by rw [← hst]
  have hresult : st.result = .added r := by rw [← hst]
  have hafter : st.after = s' := by rw [← hst]
  clear hst
  cases hexit with
  | insertRefused => exact ((h.control rfl s.mem).control rfl _).append _
  -- excluded by the condition: this exit leaves its row waiting
  | idLost hi hlost =>
      rw [(hi.undoable hG).1] at hlost
      cases hlost
  | relationshipRefused hi _ hpar hrefused =>
      exact h.rolledBack hi hG (hi.refused hknown hpar hrefused) _ rfl (fun _ => rfl) _
  | parentUnknown hi _ hpar hf _ hfind =>
      refine h.rolledBack hi hG (hi.unknown hpar hfind) _ ?_ (fun hoff => ?_) _
      · rfl
      · exact Session.committed_write_of_off hoff _
  | @linked new_id rows db a hi _ hpar hf hadm hfind =>
      obtain ⟨-, hone, -⟩ := hi.undoable hG
      obtain ⟨row, rfl, rfl⟩ := hone (hi.known hknown hf hadm hfind)
      have hlast : Session.Extends (db.session.write (.insertRelationship ⟨parent_id, row.id⟩))
          st.after.db.session := by
        rw [hafter]
        exact extends_attempt rfl
      have hobject := h.inserted hi hbefore hresult
        ((Session.Extends.write _ _).trans hlast) s.mem
      exact (hobject.related hadm hi hbefore hresult hlast).control rfl _
  | @rooted new_id rows db a hi _ hpar =>
      obtain ⟨-, hone, -⟩ := hi.undoable hG
      obtain ⟨row, rfl, rfl⟩ := hone (Or.inl hpar)
      have hlast : Session.Extends db.session st.after.db.session := by
        rw [hafter]
        exact extends_attempt rfl
      exact (h.inserted hi hbefore hresult hlast s.mem).control rfl _

/-- **Every exit of `removeNode`**: it only takes rows away, so it needs no
condition. -/
theorem RemoveExit.accounted (hexit : RemoveExit mysql id env s s')
    (h : AccountedFor T₀ steps s) : AccountedFor T₀ steps s' := by
  have hoff : ∀ m, AccountedFor T₀ steps
      ⟨attempt mysql env (.setAutocommit false) s.db, m⟩ := fun m => h.control rfl m
  have hdel : ∀ p m, AccountedFor T₀ steps
      ⟨(attempt mysql env (.setAutocommit false) s.db).deleted p, m⟩ := fun p m =>
    Session.Both.write (hoff m) fun hT =>
      ⟨hT.1.deleteRelationships p, hT.2.deleteRelationships p⟩
  cases hexit with
  | notFound => exact h
  | hasChildren => exact h
  | queryFailed => exact hoff _
  | noParent => exact hoff _
  | parentMissing => exact ((hoff s.mem).control rfl s.mem).control rfl _
  | relationshipsKept => exact (hoff s.mem).control rfl _
  | @objectKept node parent p => exact (hdel p s.mem).control rfl _
  | @removed node parent p =>
      have hboth : AccountedFor T₀ steps
          ⟨((attempt mysql env (.setAutocommit false) s.db).deleted p).deletedObject id,
            s.mem⟩ :=
        Session.Both.write (hdel p s.mem) fun hT => ⟨hT.1.deleteObject id, hT.2.deleteObject id⟩
      exact (hboth.control rfl s.mem).control rfl _

end Exits

/-! ## §5. Every run. -/

variable {mysql : MySQL} {s s' : State}

/-- **Every request that meets the condition.** -/
theorem AccountedFor.serve {T₀ : Tables} {steps : List (Step State Request Response)}
    {req : Request} {resp : Response} (h : AccountedFor T₀ steps s)
    (hG : req.Undoable mysql s) (hserve : Serves mysql req s resp s') :
    AccountedFor T₀ (steps ++ [⟨s, req, resp, s'⟩]) s' := by
  rcases serves_cases hserve with
    ⟨name, parent_id, env, r, rfl, rfl, hexit⟩ | ⟨id, env, rfl, rfl, hexit⟩ | ⟨-, heq⟩
  · exact hexit.accounted hG h
  · exact (hexit.accounted h).append _
  · rw [heq]
    exact h.append _

/-- A startup on the tables `T` opens a session with nothing but their rows. -/
theorem accountedFor_startup {env : Startup} {T : SchemaTables} {s₀ : State}
    {hasConnected : Bool}
    (hstart : startup env (Db.opened T.toTables) = .ok (s₀, hasConnected)) :
    AccountedFor s₀.db.committed [] s₀ := by
  obtain ⟨m, -, rfl⟩ := startup_eq_ok hstart
  exact Session.Both.opened ⟨Accounted.refl _, fun i hi => hi,
    fun r hr => (T.foreign_keys r hr).2⟩

/-- **No write of a failed request becomes durable, in every run whose
requests meet the condition**: each committed row was there at startup, or was
inserted by an `addNode` that returned its id. -/
theorem committed_accounted {env : Startup} {T : SchemaTables} {s₀ : State}
    {steps : List (Step State Request Response)}
    (hstart : startup env (Db.opened T.toTables) = .ok (s₀, true))
    (hrun : Run (Serves mysql) s₀ steps s)
    (hG : ∀ st ∈ steps, st.action.Undoable mysql st.before) :
    Accounted s₀.db.committed steps s.db.committed := by
  have h : AccountedFor s₀.db.committed steps s :=
    hrun.history_of_guard (I := fun steps s => AccountedFor s₀.db.committed steps s)
      (G := fun req s => req.Undoable mysql s) (accountedFor_startup hstart)
      (fun _ _ _ _ _ hI hg hserve => hI.serve hg hserve) hG
  exact (Session.Both.committed h).1

/-- Where no call fails the condition holds. -/
theorem undoable_adding (parent_id id : Int) (s : State) :
    (Request.adding parent_id id).Undoable readsA s :=
  Or.inr (Or.inr ⟨rfl, fun _ _ hnames => readsA_length hnames, fun _ => ⟨Or.inl rfl, rfl⟩⟩)

/-- An `addNode` whose parent does not exist, and the one after it. -/
def State.refused : State := State.initial.after readsA (.adding 7 1)

def State.thenAdded : State := State.refused.after readsA (.adding (-1) 2)

/-- The first returns -1 and is rolled back; the next one commits its own row
and no other. -/
theorem committed_accounted_refused_parent :
    State.thenAdded.db.committed.objects = [⟨2, "a"⟩]
      ∧ Accounted State.initial.db.committed
        [⟨State.initial, .adding 7 1, .added (-1), State.refused⟩,
          ⟨State.refused, .adding (-1) 2, .added 2, State.thenAdded⟩]
        State.thenAdded.db.committed := by
  have hstart : startup .whole (Db.opened SchemaTables.empty.toTables)
      = .ok (State.initial, true) := rfl
  have hrefused : Serves readsA (.adding 7 1) State.initial (.added (-1)) State.refused := rfl
  have hadd : Serves readsA (.adding (-1) 2) State.refused (.added 2) State.thenAdded := rfl
  refine ⟨rfl, committed_accounted hstart ((Run.nil.snoc hrefused).snoc hadd) ?_⟩
  exact List.forall_mem_cons.mpr
    ⟨undoable_adding 7 1 _, List.forall_mem_singleton.mpr (undoable_adding (-1) 2 _)⟩

/-- A top-level `addNode` that loses the answer of LAST_INSERT_ID. -/
def Request.orphaning : Request := .addNode "a" (-1) (.failing [.lastInsertId] [1])

/-- **A later request commits the row of an `addNode` that returned -1.** -/
theorem lost_id_row_committed :
    ¬ ∀ (mysql : MySQL) (env : Startup) (T : SchemaTables) (s₀ s : State)
        (steps : List (Step State Request Response)),
      startup env (Db.opened T.toTables) = .ok (s₀, true) →
      Run (Serves mysql) s₀ steps s → Accounted s₀.db.committed steps s.db.committed := by
  intro hevery
  have hstart : startup .whole (Db.opened SchemaTables.empty.toTables)
      = .ok (State.initial, true) := rfl
  have hlost : Serves readsA .orphaning State.initial (.added (-1))
      (State.initial.after readsA .orphaning) := rfl
  have hadd : Serves readsA (.adding (-1) 2) (State.initial.after readsA .orphaning)
      (.added 2) ((State.initial.after readsA .orphaning).after readsA (.adding (-1) 2)) := rfl
  have hrow : (⟨1, "a"⟩ : ObjectRow) ∈ ((State.initial.after readsA .orphaning).after readsA
      (.adding (-1) 2)).db.committed.objects := List.mem_cons_self
  have h := hevery _ _ _ _ _ _ hstart ((Run.nil.snoc hlost).snoc hadd)
  rcases h.objects _ hrow with hold | ⟨st, hst, -, hresult, -⟩
  · exact List.not_mem_nil hold
  · -- the two requests returned -1 and 2
    simp only [List.nil_append, List.mem_append, List.mem_singleton] at hst
    rcases hst with rfl | rfl
    · injection hresult with hid
      exact absurd hid (by decide)
    · injection hresult with hid
      exact absurd hid (by decide)

end ApiSyncer
