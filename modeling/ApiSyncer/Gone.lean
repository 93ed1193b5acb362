/-
  ApiSyncer.Gone
  ──────────────
  **IDS ARE NOT USED AGAIN, AND A REMOVAL IS FINAL.**

  MySQL hands out every id once.  So a node that has left the map and the tables
  does not come back, through no request, failing call, restart or crash, and
  its id never names another node.

      ids_unique     no id is returned twice
      Gone.happens   what is gone stays gone
      removed_gone   after a committed removal the node is gone
-/
import ApiSyncer.Crash

namespace ApiSyncer

open ApiSyncer.Lib

/-! ## §1. Every id is returned once. -/

section Ids

variable {mysql : MySQL} {env : Env} {s₀ s s' : State} {name : String} {parent_id id c : Int}
  {db : Db} {stmt : Statement} {steps : List (Step State Incident (Option Response))}

theorem mem_allocated_attempt (hstmt : stmt.isControl = true) :
    c ∈ (attempt mysql env stmt db).allocated ↔ c ∈ db.allocated := by
  rw [allocated_attempt hstmt]

/-- An id that is handed out stays so after an `addNode`. -/
theorem AddExit.allocated {r : Int} (hexit : AddExit mysql name parent_id env s r s')
    (hc : c ∈ s.db.allocated) : c ∈ s'.db.allocated := by
  have hinserted : ∀ {new_id rows db}, Inserted mysql name env s new_id rows db →
      c ∈ db.allocated := by
    intro new_id rows db hi
    rw [hi.allocated_eq]
    exact List.mem_append_left _ hc
  cases hexit with
  | insertRefused => exact (mem_allocated_attempt rfl).mpr ((mem_allocated_attempt rfl).mpr hc)
  | idLost hi => exact hinserted hi
  | relationshipRefused hi => exact (mem_allocated_attempt rfl).mpr (hinserted hi)
  | @parentUnknown new_id rows db hi =>
      exact (mem_allocated_attempt rfl).mpr (hinserted hi : c ∈ db.allocated)
  | @linked new_id rows db a hi =>
      exact (mem_allocated_attempt rfl).mpr (hinserted hi : c ∈ db.allocated)
  | rooted hi => exact (mem_allocated_attempt rfl).mpr (hinserted hi)

/-- An id that is handed out stays so after a `removeNode`. -/
theorem RemoveExit.allocated (hexit : RemoveExit mysql id env s s') (hc : c ∈ s.db.allocated) :
    c ∈ s'.db.allocated := by
  have hoff : c ∈ (attempt mysql env (.setAutocommit false) s.db).allocated :=
    (mem_allocated_attempt rfl).mpr hc
  cases hexit with
  | notFound => exact hc
  | hasChildren => exact hc
  | queryFailed => exact hoff
  | noParent => exact hoff
  | parentMissing => exact (mem_allocated_attempt rfl).mpr ((mem_allocated_attempt rfl).mpr hoff)
  | relationshipsKept => exact (mem_allocated_attempt rfl).mpr hoff
  | objectKept => exact (mem_allocated_attempt rfl).mpr hoff
  | removed => exact (mem_allocated_attempt rfl).mpr ((mem_allocated_attempt rfl).mpr hoff)

theorem Serves.allocated {req : Request} {resp : Response} (hserve : Serves mysql req s resp s')
    (hc : c ∈ s.db.allocated) : c ∈ s'.db.allocated := by
  rcases serves_cases hserve with ⟨_, _, _, _, -, -, hexit⟩ | ⟨_, _, -, -, hexit⟩ | ⟨-, rfl⟩
  · exact hexit.allocated hc
  · exact hexit.allocated hc
  · exact hc

theorem allocated_states {req : Request} (hdb : db ∈ req.states mysql s)
    (hc : c ∈ s.db.allocated) : c ∈ db.allocated :=
  @Request.states_induction mysql s db req (fun db => c ∈ db.allocated) hdb hc
    fun _ _ _ hserve => Serves.allocated hserve hc

/-- **Whatever happens, crashes included.** -/
theorem Happens.allocated {a : Incident} {r : Option Response} (hact : Happens mysql a s r s')
    (hc : c ∈ s.db.allocated) : c ∈ s'.db.allocated := by
  cases a with
  | action a =>
      cases a with
      | request req =>
          obtain ⟨resp, -, hserve⟩ := hact
          exact Serves.allocated hserve hc
      | restart env =>
          obtain ⟨m, -, rfl⟩ := startup_eq_ok hact.2
          exact hc
  | crash req env =>
      obtain ⟨-, db, hdb, hstart⟩ := hact
      obtain ⟨m, -, rfl⟩ := startup_eq_ok hstart
      exact (allocated_states hdb hc : c ∈ db.allocated)

/-- **The id that an `addNode` returns is a new one.** -/
theorem added_fresh (hserve : Serves mysql (.addNode name parent_id env) s (.added c) s')
    (hc : c ≠ -1) : c ∉ s.db.allocated ∧ c ∈ s'.db.allocated := by
  obtain ⟨rows, db, db', hi, hdb, -, hallocated, -⟩ := hserve.added_exit.exists_inserted hc
  refine ⟨(hi.fresh hi.new_id_mem).2.2, ?_⟩
  rw [hdb]
  refine (mem_allocated_attempt rfl).mpr ?_
  rw [hallocated, hi.allocated_eq]
  exact List.mem_append_right _ hi.new_id_mem

/-- The id that an `addNode` of the step returned. -/
def Incident.returned (a : Incident) (r : Option Response) : Option Int :=
  match a, r with
  | .action (.request (.addNode _ _ _)), some (.added c) => if c = -1 then none else some c
  | _, _ => none

/-- What is returned is new, and handed out from then on. -/
theorem Happens.returned {a : Incident} {r : Option Response} (hact : Happens mysql a s r s')
    (hc : a.returned r = some c) : c ∉ s.db.allocated ∧ c ∈ s'.db.allocated := by
  unfold Incident.returned at hc
  split at hc
  next name parent_id env k =>
      split_ifs at hc with hk
      obtain ⟨resp, hresp, hserve⟩ := hact
      obtain rfl := Option.some.inj hc
      cases hresp
      exact added_fresh hserve hk
  next => cases hc

/-- **No id is returned twice**, by the requests of all processes of a run,
whatever fails and wherever they crash. -/
theorem ids_unique (hrun : Run (Happens mysql) s₀ steps s) :
    (steps.filterMap fun st => st.action.returned st.result).Nodup := by
  have hinv : (steps.filterMap fun st => st.action.returned st.result).Nodup
      ∧ ∀ c ∈ steps.filterMap fun st => st.action.returned st.result, c ∈ s.db.allocated := by
    refine hrun.history (I := fun steps s =>
      (steps.filterMap fun st => st.action.returned st.result).Nodup
        ∧ ∀ c ∈ steps.filterMap fun st => st.action.returned st.result, c ∈ s.db.allocated)
      ⟨List.nodup_nil, fun _ hc => absurd hc List.not_mem_nil⟩ ?_
    rintro steps s a r s' ⟨hnodup, hold⟩ hact
    have hkept := fun c hc => hact.allocated (hold c hc)
    cases hreturned : a.returned r with
    | none =>
        simp only [List.filterMap_append, List.filterMap_cons, hreturned, List.filterMap_nil,
          List.append_nil]
        exact ⟨hnodup, hkept⟩
    | some c =>
        obtain ⟨hfresh, hnew⟩ := hact.returned hreturned
        simp only [List.filterMap_append, List.filterMap_cons, hreturned, List.filterMap_nil]
        refine ⟨List.nodup_append.mpr ⟨hnodup, List.nodup_singleton c, ?_⟩, fun k hk => ?_⟩
        · intro k hk k' hk' heq
          rw [List.mem_singleton.mp hk'] at heq
          exact hfresh (heq ▸ hold k hk)
        · rcases List.mem_append.mp hk with hk | hk
          · exact hkept k hk
          · rw [List.mem_singleton.mp hk]
            exact hnew
  exact hinv.1

/-- A top-level object, and then a child of it. -/
theorem run_two : Run (Happens readsA) State.initial
    [⟨State.initial, .action (.request (.adding (-1) 1)), some (.added 1), State.one⟩,
      ⟨State.one, .action (.request (.adding 1 2)), some (.added 2), State.two⟩] State.two := by
  have hone : Happens readsA (.action (.request (.adding (-1) 1))) State.initial
      (some (.added 1)) State.one := ⟨_, rfl, rfl⟩
  have htwo : Happens readsA (.action (.request (.adding 1 2))) State.one
      (some (.added 2)) State.two := ⟨_, rfl, rfl⟩
  exact (Run.nil.snoc hone).snoc htwo

theorem ids_unique_two : ([1, 2] : List Int).Nodup := ids_unique run_two

end Ids

/-! ## §2. What is gone stays gone. -/

/-- An id that was handed out, and that neither the map nor a table holds. -/
structure Gone (c : Int) (s : State) : Prop where
  allocated : c ∈ s.db.allocated
  unmapped : s.mem.find c = none
  deleted : Session.Both (fun T => c ∉ T.ids) s.db.session

section Gone

variable {mysql : MySQL} {env : Env} {s₀ s₁ s s' : State} {c : Int} {db : Db} {m : Memory}
  {before steps : List (Step State Incident (Option Response))}

/-- The tables, after a request. -/
theorem Gone.serves {req : Request} {resp : Response} (h : Gone c s)
    (hserve : Serves mysql req s resp s') : Session.Both (fun T => c ∉ T.ids) s'.db.session := by
  rcases serves_cases hserve with ⟨_, _, _, _, -, -, hexit⟩ | ⟨_, _, -, -, hexit⟩ | ⟨-, rfl⟩
  · refine hexit.both h.deleted ?_ fun _ _ _ _ hview => hview
    intro new_id rows db hi hview
    rw [Tables.ids_insertObjects, List.mem_append, not_or]
    exact ⟨hview, fun hrows => (hi.fresh hrows).2.2 h.allocated⟩
  · exact hexit.both h.deleted (fun _ hview => hview)
      fun _ hview hmem => hview (Tables.mem_ids_deleteObject.mp hmem).1
  · exact h.deleted

/-- The tables, in every state of a request. -/
theorem Gone.states {req : Request} (h : Gone c s) (hdb : db ∈ req.states mysql s) :
    Session.Both (fun T => c ∉ T.ids) db.session :=
  @Request.states_induction mysql s db req (fun db => Session.Both (fun T => c ∉ T.ids) db.session)
    hdb h.deleted fun _ _ _ hserve => h.serves hserve

/-- The map, after a request. -/
theorem Gone.find {req : Request} {resp : Response} (h : Gone c s)
    (hserve : Serves mysql req s resp s') : s'.mem.find c = none := by
  have hstored : ∀ {name env new_id rows db}, Inserted mysql name env s new_id rows db →
      (s.stored new_id name).find c = none := by
    intro name env new_id rows db hi
    have hne : c ≠ new_id := fun heq => (hi.fresh hi.new_id_mem).2.2 (heq ▸ h.allocated)
    exact (Memory.find_store_of_ne hne).trans h.unmapped
  rcases serves_cases hserve with ⟨_, _, _, _, -, -, hexit⟩ | ⟨id, _, -, -, hexit⟩ | ⟨-, rfl⟩
  · cases hexit with
    | insertRefused => exact h.unmapped
    | idLost => exact h.unmapped
    | relationshipRefused hi => exact hstored hi
    | parentUnknown hi => exact hstored hi
    | linked hi => exact hstored hi
    | rooted hi => exact hstored hi
  · cases hexit with
    | notFound => exact h.unmapped
    | hasChildren => exact h.unmapped
    | queryFailed => exact h.unmapped
    | noParent => exact h.unmapped
    | parentMissing => exact h.unmapped
    | relationshipsKept => exact h.unmapped
    | objectKept => exact h.unmapped
    | removed =>
        by_cases heq : c = id
        · rw [heq]
          exact Memory.find_erase_self
        · exact (Memory.find_erase_of_ne heq).trans h.unmapped
  · exact h.unmapped

/-- A new process loads from the tables what it holds. -/
theorem Sound.gone_restarted {env : Startup} {b : Bool} (h : Sound ⟨db, m⟩)
    (hallocated : c ∈ db.allocated) (hdeleted : Session.Both (fun T => c ∉ T.ids) db.session)
    (hstart : startup env db = .ok (s', b)) : Gone c s' := by
  obtain ⟨F, addr, rank, bound, h⟩ := h
  obtain ⟨m', hload, rfl⟩ := startup_eq_ok hstart
  obtain ⟨G, addr', hrep, -, hpart⟩ := construct_part
    (h.ledger.committed.loadable h.allocation) h.ledger.committed.relationships_nodup hload
  refine ⟨hallocated, hrep.find_of_notMem fun hk => ?_, hdeleted.reopened⟩
  rcases hpart.keys c hk with rfl | hids
  · exact h.allocation.ne_superRootKey hallocated rfl
  · exact hdeleted.committed hids

/-- **Whatever happens, crashes included**, and the id is not returned. -/
theorem Gone.happens {a : Incident} {r : Option Response} (h : Gone c s) (hsound : Sound s)
    (hact : Happens mysql a s r s') : Gone c s' ∧ a.returned r ≠ some c := by
  refine ⟨?_, fun hreturned => (hact.returned hreturned).1 h.allocated⟩
  cases a with
  | action a =>
      cases a with
      | request req =>
          obtain ⟨resp, -, hserve⟩ := hact
          exact ⟨Serves.allocated hserve h.allocated, h.find hserve, h.serves hserve⟩
      | restart env =>
          exact @Sound.gone_restarted s' c s.db s.mem env true hsound h.allocated h.deleted hact.2
  | crash req env =>
      obtain ⟨-, db, hdb, hstart⟩ := hact
      obtain ⟨m, hm⟩ := hsound.states hdb
      exact hm.gone_restarted (allocated_states hdb h.allocated) (h.states hdb) hstart

/-- **What is gone stays gone over whole runs**, and its id is not returned. -/
theorem Gone.run (h : Gone c s₁) (hsound : Sound s₁) (hrun : Run (Happens mysql) s₁ steps s) :
    (Sound s ∧ Gone c s) ∧ ∀ st ∈ steps, st.action.returned st.result ≠ some c := by
  refine hrun.steps_of_guard (I := fun s => Sound s ∧ Gone c s) (G := fun _ _ => True)
    (Q := fun st => st.action.returned st.result ≠ some c) ⟨hsound, h⟩ ?_ fun _ _ => trivial
  rintro s a r s' ⟨hs, hc⟩ - hact
  obtain ⟨hc', hreturned⟩ := hc.happens hs hact
  exact ⟨⟨hs.happens hact, hc'⟩, hreturned⟩

/-- What is gone is not shown. -/
theorem Gone.not_shown {t : Json} (h : Gone c s) (hsound : Sound s) (ht : Shows s.mem t) :
    c ∉ t.keys := by
  obtain ⟨F, addr, rank, bound, hF⟩ := hsound
  intro hmem
  have hfind := hF.represents.find_of_mem ((hF.keys_shown ht).2 c hmem)
  rw [h.unmapped] at hfind
  cases hfind

/-- The DELETEs are committed: by COMMIT, by autocommit when it is turned on
again, or one by one. -/
def Finalises (env : Env) (s : State) : Prop :=
  env.fails .commit = false ∨ env.fails .autocommitOn = false
    ∨ env.fails .autocommitOff = true ∧ s.db.session.autocommit = true

/-- What the session reads is committed at the end of `removeNode`. -/
theorem Finalises.both {P : Tables → Prop} (h : Finalises env s) (hview : P db.view)
    (hmode : db.session.autocommit
      = (attempt mysql env (.setAutocommit false) s.db).session.autocommit) :
    Session.Both P
      (attempt mysql env (.setAutocommit true) (attempt mysql env .commit db)).session := by
  have hview' : P (attempt mysql env .commit db).view := by
    rw [view_commit]
    exact hview
  rcases h with hcommit | hrest
  · rw [attempt_commit hcommit]
    exact both_attempt rfl ⟨hview, hview⟩
  · refine Commits.both hrest hview' (Eq.trans ?_ hmode)
    -- COMMIT leaves the mode as it is
    cases hcommit : env.fails .commit with
    | true => exact congrArg (fun db : Db => db.session.autocommit) (attempt_fails hcommit)
    | false =>
        rw [attempt_commit hcommit]
        rfl

/-- A `removeNode` that takes the id out of the map, and whose writes are
committed. -/
theorem Sound.gone_of_removed (h : Sound s₀)
    (hserve : Serves mysql (.removeNode c env) s₀ .removed s₁) (hmapped : s₀.mem.find c ≠ none)
    (hunmapped : s₁.mem.find c = none) (hfinal : Finalises env s₀) : Gone c s₁ := by
  obtain ⟨F, addr, rank, bound, h⟩ := h
  -- every exit but the last keeps the map
  cases removeNode_exit hserve.removeNode_eq.2 with
  | notFound => exact absurd hunmapped hmapped
  | hasChildren => exact absurd hunmapped hmapped
  | queryFailed => exact absurd hunmapped hmapped
  | noParent => exact absurd hunmapped hmapped
  | parentMissing => exact absurd hunmapped hmapped
  | relationshipsKept => exact absurd hunmapped hmapped
  | objectKept => exact absurd hunmapped hmapped
  | @removed node parent parent_id hleaf _ hrow hfind =>
      have hallocated := h.ledger.view.allocated c (h.ledger.view.child_mem_ids hrow)
      have hoff : c ∈ (attempt mysql env (.setAutocommit false) s₀.db).allocated :=
        (mem_allocated_attempt rfl).mpr hallocated
      refine ⟨(mem_allocated_attempt rfl).mpr ((mem_allocated_attempt rfl).mpr hoff), hunmapped,
        hfinal.both ?_ ?_⟩
      · unfold Db.view Db.deletedObject
        rw [Session.view_write]
        exact fun hmem => (Tables.mem_ids_deleteObject.mp hmem).2 rfl
      · exact (Session.autocommit_write _ _).trans (Session.autocommit_write _ _)

/-- **A removal is final.**  Once `removeNode` has taken a node out of the map and
the deletions are committed, then whatever requests, failing calls, restarts and
crashes follow, the id is in no tree that is shown, not in the map, in no
committed row of either table, and no `addNode` returns it. -/
theorem removed_gone (hbefore : Run (Happens mysql) State.initial before s₀)
    (hserve : Serves mysql (.removeNode c env) s₀ .removed s₁) (hmapped : s₀.mem.find c ≠ none)
    (hunmapped : s₁.mem.find c = none) (hfinal : Finalises env s₀)
    (hrun : Run (Happens mysql) s₁ steps s) :
    (∀ t, Shows s.mem t → c ∉ t.keys) ∧ s.mem.find c = none ∧ c ∉ s.db.committed.ids
      ∧ (∀ r ∈ s.db.committed.relationships, r.parent_id ≠ c ∧ r.child_id ≠ c)
      ∧ ∀ st ∈ steps, st.action.returned st.result ≠ some c := by
  have hsound₀ := Sound.of_incidents hbefore
  have hsound₁ : Sound s₁ := by
    have hact : Acts mysql (.request (.removeNode c env)) s₀ (some .removed) s₁ :=
      ⟨_, rfl, hserve⟩
    exact hsound₀.step hact
  have hgone₁ := hsound₀.gone_of_removed hserve hmapped hunmapped hfinal
  obtain ⟨⟨hsound, hgone⟩, hsteps⟩ := hgone₁.run hsound₁ hrun
  have hids := hgone.deleted.committed
  obtain ⟨F, addr, rank, bound, h⟩ := hsound
  have hkeys := h.ledger.committed.foreign_keys
  refine ⟨fun t ht => hgone.not_shown ⟨F, addr, rank, bound, h⟩ ht, hgone.unmapped, hids,
    fun r hr => ⟨?_, ?_⟩, hsteps⟩
  · rintro rfl
    exact hids (hkeys r hr).1
  · rintro rfl
    exact hids (hkeys r hr).2

/-- The child is removed, and the process dies when the next request comes. -/
theorem removed_gone_crash :
    2 ∉ (State.two.after readsA (.removing 2)).restarted.db.committed.ids := by
  have hremove : Serves readsA (.removing 2) State.two .removed
      (State.two.after readsA (.removing 2)) := rfl
  have hfind : State.two.mem.find 2 = some (some 2) := rfl
  have hmapped : State.two.mem.find 2 ≠ none := by
    rw [hfind]
    exact Option.some_ne_none _
  have hcrash : Happens readsA (.crash (.adding 1 3) .whole)
      (State.two.after readsA (.removing 2)) none
      (State.two.after readsA (.removing 2)).restarted := ⟨rfl, _, List.mem_cons_self, rfl⟩
  exact (removed_gone run_two hremove hmapped rfl (Or.inl rfl) (Run.nil.snoc hcrash)).2.2.1

end Gone

end ApiSyncer
