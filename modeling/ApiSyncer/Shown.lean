/-
  ApiSyncer.Shown
  ───────────────
  **THE TREE A CLIENT SEES, FROM REQUEST TO REQUEST.**

  Seen from outside, a process keeps one tree.  `TreeStep` says what requests
  may do to it: an `addNode` that returns an id grafts one new leaf under the
  parent it names, one that returns -1 changes nothing, and a `removeNode`
  takes the leaf it names or leaves the tree as it is.  Every run of the model
  is a run of this machine, whichever database calls fail.

      TreeStep.of_serves   one request
      shows_run            every run of requests
      TreeStep.provenance  what is shown was answered
      TreeStep.keeps       what is shown stays, unless it is removed
      answered_stays       an answered node stays over whole runs
-/
import ApiSyncer.Restart
import ApiSyncer.Lib.Leaf

namespace ApiSyncer

open ApiSyncer.Lib

/-! ## §1. The machine. -/

/-- What a request that returns may do to the tree. -/
inductive TreeStep : Request → Json → Response → Json → Prop where
  | failed {name : String} {parent_id : Int} {env : Env} {t : Json} :
      TreeStep (.addNode name parent_id env) t (.added (-1)) t
  | added {name : String} {parent_id k : Int} {env : Env} {t : Json} :
      k ≠ -1 → k ∉ t.keys →
      TreeStep (.addNode name parent_id env) t (.added k) (t.graft parent_id k name)
  | kept {id : Int} {env : Env} {t : Json} : TreeStep (.removeNode id env) t .removed t
  | removed {id : Int} {env : Env} {t : Json} : t.IsLeaf id →
      TreeStep (.removeNode id env) t .removed (t.prune id)
  | shown {fuel : ℕ} {t : Json} : TreeStep (.tree fuel) t (.tree (some t)) t
  | good {t : Json} : TreeStep .validateTree t (.valid true) t

/-- superRoot alone. -/
def startTree : Json := .node superRootKey "superRoot" []

/-! ## §2. One request. -/

section Steps

variable {mysql : MySQL} {s s' : State} {F : Forest Int String} {addr : Int → Addr}
  {rank : Int → ℕ} {bound : ℕ} {t : Json}

/-- What is shown is the unfolded graph. -/
theorem Holds.shows_iff (h : Holds s F addr rank bound) :
    Shows s.mem t ↔ ∃ n, F.unfold n superRootKey = some t :=
  h.represents.shows_iff h.rooted h.int_range

/-- A sound state shows a tree. -/
theorem Sound.shows (h : Sound s) : ∃ t, Shows s.mem t := by
  obtain ⟨F, addr, rank, bound, h⟩ := h
  obtain ⟨t, ht⟩ := h.unfolds
  exact ⟨t, h.shows_iff.mpr ⟨_, ht⟩⟩

/-- The tree holds no key twice, and only keys of the graph. -/
theorem Holds.keys_shown (h : Holds s F addr rank bound) (ht : Shows s.mem t) :
    t.keys.Nodup ∧ ∀ k ∈ t.keys, k ∈ F.keys := by
  obtain ⟨n, hn⟩ := h.shows_iff.mp ht
  refine ⟨Forest.nodup_entries_unfold h.wellFormed h.rooted.mem_keys (fun _ hx => h.acyclic hx) hn,
    fun k hk => ?_⟩
  obtain ⟨⟨k', name⟩, hmem, rfl⟩ := List.mem_map.mp hk
  have hreach := ((Forest.mem_entries_unfold h.wellFormed.closed h.rooted.mem_keys hn _ _).mp hmem).1
  exact hreach.mem_keys h.wellFormed.closed h.rooted.mem_keys

/-- **An `addNode`.** -/
theorem Holds.shows_addExit {name : String} {parent_id r : Int} {env : Env}
    (h : Holds s F addr rank bound) (ht : Shows s.mem t)
    (hexit : AddExit mysql name parent_id env s r s') :
    ∃ t', TreeStep (.addNode name parent_id env) t (.added r) t' ∧ Shows s'.mem t' := by
  obtain ⟨F', addr', rank', bound', h', hgraph⟩ := h.addExit hexit
  obtain ⟨n, hn⟩ := h.shows_iff.mp ht
  have hroot := h.rooted.mem_keys
  rcases hgraph with ⟨rfl, rfl | ⟨new_id, hnew, rfl⟩⟩ | ⟨hr, hnew, hp, rfl⟩
  · exact ⟨t, .failed, h'.shows_iff.mpr ⟨n, hn⟩⟩
  · -- the node is in the map and nothing lists it
    exact ⟨t, .failed, h'.shows_iff.mpr ⟨n, Forest.unfold_insert h.wellFormed hnew hroot hn⟩⟩
  · have hfresh : r ∉ t.keys := fun hmem => hnew ((h.keys_shown ht).2 r hmem)
    refine ⟨t.graft parent_id r name, .added hr hfresh, h'.shows_iff.mpr ?_⟩
    rcases Forest.mem_keys_insert.mp hp with rfl | hp
    · -- its own parent, and nobody else's child
      rw [RoseTree.graft_of_notMem t hfresh]
      exact ⟨n, Forest.unfold_insert_loop h.wellFormed hnew hroot hn⟩
    · exact ⟨n + 1, Forest.unfold_insert_link h.wellFormed hnew hp hroot hn⟩

/-- A leaf with a parent row is a leaf of the tree, if it is in it. -/
theorem Holds.isLeaf {id p : Int} {node parent : Addr} (h : Holds s F addr rank bound)
    (ht : Shows s.mem t) (hleaf : Leaf s id node)
    (hrow : ⟨p, id⟩ ∈ s.db.view.relationships) (hfind : s.mem.find p = some (some parent)) :
    t.IsLeaf id := by
  obtain ⟨n, hn⟩ := h.shows_iff.mp ht
  obtain ⟨-, -, hkids, -, -⟩ := h.leaf_keys hleaf hfind
  refine ⟨?_, fun c hc => ?_⟩
  · rw [Forest.key_unfold hn]
    exact (h.unlisted_row hrow).1
  · have hedge := ((Forest.mem_edges_unfold h.wellFormed.closed h.rooted.mem_keys hn id c).mp hc).2.2
    rw [hkids] at hedge
    exact List.not_mem_nil hedge

/-- **A `removeNode`.** -/
theorem Holds.shows_removeExit {id : Int} {env : Env} (h : Holds s F addr rank bound)
    (ht : Shows s.mem t) (hexit : RemoveExit mysql id env s s') :
    ∃ t', TreeStep (.removeNode id env) t .removed t' ∧ Shows s'.mem t' := by
  obtain ⟨n, hn⟩ := h.shows_iff.mp ht
  have hroot := h.rooted.mem_keys
  -- the leaf leaves the list, and with the last exit the map as well
  have hpruned : ∀ {p : Int}, ⟨p, id⟩ ∈ s.db.view.relationships →
      (F.unlink p id).unfold n superRootKey = some (t.prune id) := fun hrow =>
    Forest.unfold_unlink h.wellFormed (h.agrees.view _ _ hrow) hroot hn
  cases hexit with
  | notFound => exact ⟨t, .kept, ht⟩
  | hasChildren => exact ⟨t, .kept, ht⟩
  | queryFailed => exact ⟨t, .kept, ht⟩
  | noParent => exact ⟨t, .kept, ht⟩
  | parentMissing => exact ⟨t, .kept, ht⟩
  | relationshipsKept hleaf _ hrow hfind =>
      exact ⟨t.prune id, .removed (h.isLeaf ht hleaf hrow hfind),
        (h.unlinked hleaf hfind).shows_iff.mpr ⟨n, hpruned hrow⟩⟩
  | objectKept hleaf _ hrow hfind =>
      exact ⟨t.prune id, .removed (h.isLeaf ht hleaf hrow hfind),
        (h.unlinked hleaf hfind).shows_iff.mpr ⟨n, hpruned hrow⟩⟩
  | removed hleaf _ hrow hfind =>
      refine ⟨t.prune id, .removed (h.isLeaf ht hleaf hrow hfind), ?_⟩
      refine (@Holds.removed mysql env _ _ _ _ _ _ _ _ _ h hleaf hrow hfind).shows_iff.mpr ⟨n, ?_⟩
      rw [Forest.unfold_erase]
      exact hpruned hrow

/-- **A `GET /api/tree` that returns** answers with the tree. -/
theorem Holds.shows_tree {fuel : ℕ} {json : Option Json} (h : Holds s F addr rank bound)
    (ht : Shows s.mem t) (htree : apiTree s.mem fuel = .ok json) : json = some t := by
  have hlock := h.represents.lock_superRoot h.rooted
  -- superRoot is live, so there is a tree to answer with
  have hsome : ∃ json', json = some json' := by
    rw [apiTree_eq hlock] at htree
    cases hnode : nodeToJson s.mem fuel (addr superRootKey) with
    | error e =>
        rw [hnode] at htree
        cases htree
    | ok json' =>
        rw [hnode] at htree
        exact ⟨json', (Except.ok.inj htree).symm⟩
  obtain ⟨json', rfl⟩ := hsome
  -- more stack does not change what came back
  have hshows : Shows s.mem json' := h.shows_iff.mpr
    ⟨fuel, (h.represents.apiTree_eq_iff h.rooted h.int_range).mp htree⟩
  rw [hshows.unique ht]

/-- **Every request is a step of the machine.** -/
theorem TreeStep.of_serves {req : Request} {resp : Response} (h : Sound s) (ht : Shows s.mem t)
    (hserve : Serves mysql req s resp s') :
    ∃ t', TreeStep req t resp t' ∧ Shows s'.mem t' := by
  obtain ⟨F, addr, rank, bound, h⟩ := h
  rcases serves_cases hserve with
    ⟨name, parent_id, env, r, rfl, rfl, hexit⟩ | ⟨id, env, rfl, rfl, hexit⟩ | ⟨hreads, heq⟩
  · exact h.shows_addExit ht hexit
  · exact h.shows_removeExit ht hexit
  · refine ⟨t, ?_, heq ▸ ht⟩
    cases req with
    | addNode => cases hreads
    | removeNode => cases hreads
    | tree fuel =>
        unfold Serves at hserve
        simp only [serve] at hserve
        cases htree : apiTree s.mem fuel with
        | error e =>
            rw [htree] at hserve
            cases hserve
        | ok json =>
            rw [htree] at hserve
            obtain ⟨rfl, -⟩ := Prod.mk.inj (Except.ok.inj hserve)
            rw [h.shows_tree ht htree]
            exact .shown
    | validateTree =>
        obtain ⟨rfl, -⟩ := Prod.mk.inj (Except.ok.inj hserve)
        rw [h.represents.validateTree_eq_true]
        exact .good

end Steps

/-! ## §3. Runs. -/

/-- A new process shows superRoot. -/
theorem shows_initial : Shows State.initial.mem startTree :=
  Sound.initial.shows_iff.mpr ⟨1, rfl⟩

/-- A state that is sound and what it shows. -/
def SoundlyShows (s : State) (t : Json) : Prop := Sound s ∧ Shows s.mem t

/-- One request from a state that shows a tree. -/
theorem SoundlyShows.serve {mysql : MySQL} {s s' : State} {t : Json} {req : Request}
    {resp : Response} (h : SoundlyShows s t) (hserve : Serves mysql req s resp s') :
    ∃ t', TreeStep req t resp t' ∧ SoundlyShows s' t' := by
  obtain ⟨hsound, ht⟩ := h
  obtain ⟨t', hstep, ht'⟩ := TreeStep.of_serves hsound ht hserve
  have hact : Acts mysql (.request req) s (some resp) s' := ⟨resp, rfl, hserve⟩
  exact ⟨t', hstep, hsound.step hact, ht'⟩

/-- Every run is a run of the machine, from wherever it starts. -/
theorem SoundlyShows.run {mysql : MySQL} {s₀ s : State} {t₀ : Json}
    {steps : List (Step State Request Response)} (h : SoundlyShows s₀ t₀)
    (hrun : Run (Serves mysql) s₀ steps s) :
    ∃ steps' t, Run TreeStep t₀ steps' t ∧ List.Forall₂ (Run.Matches SoundlyShows) steps steps'
      ∧ SoundlyShows s t :=
  hrun.simulate (fun _ _ _ _ _ hs hserve => hs.serve hserve) h

/-- **Every run of requests is a run of the machine**: the same requests, the
same answers, and in every state what `/api/tree` shows is the tree of the
machine. -/
theorem shows_run {mysql : MySQL} {s : State} {steps : List (Step State Request Response)}
    (hrun : Run (Serves mysql) State.initial steps s) :
    ∃ steps' t, Run TreeStep startTree steps' t
      ∧ List.Forall₂ (Run.Matches fun s t => Shows s.mem t) steps steps' ∧ Shows s.mem t := by
  have hinitial : SoundlyShows State.initial startTree :=
    ⟨⟨_, _, _, _, Sound.initial⟩, shows_initial⟩
  obtain ⟨steps', t, hrun', hall, hs⟩ := hinitial.run hrun
  refine ⟨steps', t, hrun', hall.imp fun st st' hmatch => ?_, hs.2⟩
  exact ⟨hmatch.action, hmatch.result, hmatch.before.2, hmatch.after.2⟩

/-- A run of one `addNode`. -/
theorem shows_run_one : ∃ steps' t, Run TreeStep startTree steps' t
    ∧ List.Forall₂ (Run.Matches fun s t => Shows s.mem t)
      [⟨State.initial, .adding (-1) 1, .added 1, State.one⟩] steps' ∧ Shows State.one.mem t := by
  have hadd : Serves readsA (.adding (-1) 1) State.initial (.added 1) State.one := rfl
  exact shows_run (Run.nil.snoc hadd)

/-! ## §4. Where a node comes from, and how long it stays. -/

section Machine

variable {req : Request} {resp : Response} {t t' : Json} {p c : Int} {name : String}

/-- No key is in the tree twice. -/
theorem TreeStep.nodup (h : TreeStep req t resp t') (hnodup : t.keys.Nodup) : t'.keys.Nodup := by
  cases h with
  | failed => exact hnodup
  | @added name parent_id k env _ hk hnew =>
      by_cases hp : parent_id ∈ t.keys
      · have hperm := (RoseTree.entries_graft (k := k) (v := name) t hnodup hp).map Prod.fst
        exact hperm.nodup_iff.mpr (List.nodup_cons.mpr ⟨hnew, hnodup⟩)
      · rw [RoseTree.graft_of_notMem t hp]
        exact hnodup
  | kept => exact hnodup
  | @removed id env _ hleaf =>
      have hsub : List.Sublist (t.prune id).keys t.keys := by
        unfold RoseTree.keys
        rw [RoseTree.entries_prune t hleaf]
        exact List.filter_sublist.map _
      exact hnodup.sublist hsub
  | shown => exact hnodup
  | good => exact hnodup

/-- A node, under the name and the parent it has. -/
def Has (t : Json) (p c : Int) (name : String) : Prop := (c, name) ∈ t.entries ∧ (p, c) ∈ t.edges

/-- **A node stays where it is**, unless the request removes it. -/
theorem TreeStep.keeps (h : TreeStep req t resp t') (hnodup : t.keys.Nodup) (hhas : Has t p c name)
    (hreq : ∀ env, req ≠ .removeNode c env) : Has t' p c name := by
  obtain ⟨hentry, hedge⟩ := hhas
  cases h with
  | failed => exact ⟨hentry, hedge⟩
  | added =>
      exact ⟨(RoseTree.mem_entries_graft hnodup _).mpr (Or.inl hentry),
        (RoseTree.mem_edges_graft t p c).mpr (Or.inl hedge)⟩
  | kept => exact ⟨hentry, hedge⟩
  | @removed id env _ hleaf =>
      have hne : c ≠ id := fun heq => hreq env (by rw [heq])
      refine ⟨?_, ?_⟩
      · rw [RoseTree.entries_prune t hleaf]
        exact List.mem_filter.mpr ⟨hentry, by simpa using hne⟩
      · rw [RoseTree.edges_prune t hleaf]
        exact List.mem_filter.mpr ⟨hedge, by simpa using hne⟩
  | shown => exact ⟨hentry, hedge⟩
  | good => exact ⟨hentry, hedge⟩

/-- **A node that was not there before was answered by this request.** -/
theorem TreeStep.provenance (h : TreeStep req t resp t') (hnodup : t.keys.Nodup)
    (hedge : (p, c) ∈ t'.edges) :
    (p, c) ∈ t.edges ∧ (∀ env, req ≠ .removeNode c env ∨ t' = t)
      ∨ ∃ name env, req = .addNode name p env ∧ resp = .added c ∧ Has t' p c name := by
  cases h with
  | failed => exact Or.inl ⟨hedge, fun env => Or.inr rfl⟩
  | @added name parent_id k env _ hk hnew =>
      rcases (RoseTree.mem_edges_graft t p c).mp hedge with hold | ⟨hp, rfl, rfl⟩
      · exact Or.inl ⟨hold, fun env => Or.inl (by simp)⟩
      · refine Or.inr ⟨name, env, rfl, rfl, ?_, hedge⟩
        exact (RoseTree.mem_entries_graft hnodup _).mpr (Or.inr ⟨hp, rfl⟩)
  | kept => exact Or.inl ⟨hedge, fun env => Or.inr rfl⟩
  | @removed id env _ hleaf =>
      rw [RoseTree.edges_prune t hleaf] at hedge
      obtain ⟨hold, hne⟩ := List.mem_filter.mp hedge
      have hci : c ≠ id := by simpa using hne
      refine Or.inl ⟨hold, fun env' => Or.inl fun heq => ?_⟩
      cases heq
      exact hci rfl
  | shown => exact Or.inl ⟨hedge, fun env => Or.inr rfl⟩
  | good => exact Or.inl ⟨hedge, fun env => Or.inr rfl⟩

/-- What the machine keeps: no key twice, and every nested node was answered. -/
structure Answered (steps : List (Step Json Request Response)) (t : Json) : Prop where
  nodup : t.keys.Nodup
  answered : ∀ p c, (p, c) ∈ t.edges → ∃ st ∈ steps, ∃ name env,
    st.action = .addNode name p env ∧ st.result = .added c ∧ Has t p c name

theorem Answered.step {steps : List (Step Json Request Response)} (h : Answered steps t)
    (hstep : TreeStep req t resp t') : Answered (steps ++ [⟨t, req, resp, t'⟩]) t' := by
  refine ⟨hstep.nodup h.nodup, fun p c hedge => ?_⟩
  rcases hstep.provenance h.nodup hedge with ⟨hold, hreq⟩ | ⟨name, env, hadd, hresp, hhas⟩
  · obtain ⟨st, hst, name, env, hact, hres, hhas⟩ := h.answered p c hold
    refine ⟨st, List.mem_append_left _ hst, name, env, hact, hres, ?_⟩
    -- a removeNode that names the node has changed nothing, since it is still there
    by_cases hremoves : ∃ env', req = .removeNode c env'
    · obtain ⟨env', hremoves⟩ := hremoves
      rcases hreq env' with hne | heq
      · exact absurd hremoves hne
      · rw [heq]
        exact hhas
    · exact hstep.keeps h.nodup hhas fun env' heq => hremoves ⟨env', heq⟩
  · exact ⟨_, List.mem_append_right _ (List.mem_singleton_self _), name, env, hadd, hresp, hhas⟩

theorem Answered.of_run {steps : List (Step Json Request Response)}
    (hrun : Run TreeStep startTree steps t) : Answered steps t := by
  refine hrun.history (I := Answered) ?_ fun steps t req resp t' h hstep => h.step hstep
  exact ⟨by decide, fun p c hedge => absurd hedge (by simp [startTree, RoseTree.edges_node])⟩

end Machine

/-- **Every node that `/api/tree` shows was answered**: it is shown once, and it
is nested under the parent, and has the name, that an `addNode` of the run was
given when it returned its id. -/
theorem shown_answered {mysql : MySQL} {s : State} {steps : List (Step State Request Response)}
    {t : Json} (hrun : Run (Serves mysql) State.initial steps s) (ht : Shows s.mem t) :
    (t.entries.map Prod.fst).Nodup ∧ t.edges.map Prod.snd = (t.entries.map Prod.fst).tail
      ∧ ∀ p c, (p, c) ∈ t.edges → ∃ st ∈ steps, ∃ name env,
        st.action = .addNode name p env ∧ st.result = .added c ∧ (c, name) ∈ t.entries := by
  have hinitial : SoundlyShows State.initial startTree :=
    ⟨⟨_, _, _, _, Sound.initial⟩, shows_initial⟩
  obtain ⟨steps', t', hrun', hall, hs⟩ := hinitial.run hrun
  obtain rfl := hs.2.unique ht
  obtain ⟨hnodup, hanswered⟩ := Answered.of_run hrun'
  refine ⟨hnodup, ?_, fun p c hedge => ?_⟩
  · rw [← t'.edges_map_snd]
    rfl
  · obtain ⟨st', hst', name, env, hact, hres, hhas⟩ := hanswered p c hedge
    obtain ⟨st, hst, hmatch⟩ := Forest.exists_of_forall₂_right hall st' hst'
    exact ⟨st, hst, name, env, hmatch.action ▸ hact, hmatch.result ▸ hres, hhas.1⟩

/-- superRoot and a top-level object. -/
theorem shows_one : Shows State.one.mem (.node (-1) "superRoot" [.node 1 "a" []]) := by
  refine ⟨2, fun fuel hle => ?_⟩
  obtain ⟨n, rfl⟩ := Nat.exists_eq_add_of_le hle
  rw [Nat.add_comm]
  rfl

/-- The node that is shown was answered by the one request of the run. -/
theorem shown_answered_one :
    ∃ st ∈ [(⟨State.initial, .adding (-1) 1, .added 1, State.one⟩ : Step State Request Response)],
      ∃ name env, st.action = .addNode name (-1) env ∧ st.result = .added 1 := by
  have hadd : Serves readsA (.adding (-1) 1) State.initial (.added 1) State.one := rfl
  obtain ⟨-, -, hanswered⟩ := shown_answered (Run.nil.snoc hadd) shows_one
  obtain ⟨st, hst, name, env, haction, hresult, -⟩ := hanswered (-1) 1 (by decide)
  exact ⟨st, hst, name, env, haction, hresult⟩

section Stays

variable {mysql : MySQL} {s₀ s₁ s s' : State} {t₀ t : Json} {p c : Int} {name : String}
  {steps : List (Step State Request Response)}

/-- A state that shows a node under its parent. -/
def ShowsNode (p c : Int) (name : String) (s : State) : Prop :=
  ∃ t, SoundlyShows s t ∧ Has t p c name

/-- One request that does not remove the node. -/
theorem ShowsNode.serve {req : Request} {resp : Response} (h : ShowsNode p c name s)
    (hserve : Serves mysql req s resp s') (hreq : ∀ env, req ≠ .removeNode c env) :
    ShowsNode p c name s' := by
  obtain ⟨t, hs, hhas⟩ := h
  have hnodup : t.keys.Nodup := by
    obtain ⟨⟨F, addr, rank, bound, hF⟩, ht⟩ := hs
    exact (hF.keys_shown ht).1
  obtain ⟨t', hstep, hs'⟩ := hs.serve hserve
  exact ⟨t', hs', hstep.keeps hnodup hhas hreq⟩

/-- The node that an `addNode` has returned, under a parent that is shown. -/
theorem SoundlyShows.added {env : Env} (h : SoundlyShows s t) (hp : p ∈ t.keys) (hc : c ≠ -1)
    (hserve : Serves mysql (.addNode name p env) s (.added c) s') :
    c ∉ t.keys ∧ ShowsNode p c name s' := by
  have hnodup : t.keys.Nodup := by
    obtain ⟨⟨F, addr, rank, bound, hF⟩, ht⟩ := h
    exact (hF.keys_shown ht).1
  obtain ⟨t', hstep, hs'⟩ := h.serve hserve
  cases hstep with
  | failed => exact absurd rfl hc
  | added hk hnew =>
      refine ⟨hnew, _, hs', ?_, ?_⟩
      · exact (RoseTree.mem_entries_graft hnodup _).mpr (Or.inr ⟨hp, rfl⟩)
      · exact (RoseTree.mem_edges_graft t p c).mpr (Or.inr ⟨hp, rfl, rfl⟩)

/-- **What was answered stays**: the node of an `addNode` under a parent that is
shown is shown under that parent after any further requests, until one removes
it. -/
theorem answered_stays {before : List (Step State Action (Option Response))} {env : Env}
    (hbefore : Run (Acts mysql) State.initial before s₀) (ht₀ : Shows s₀.mem t₀)
    (hp : p ∈ t₀.keys) (hserve : Serves mysql (.addNode name p env) s₀ (.added c) s₁)
    (hc : c ≠ -1) (hrun : Run (Serves mysql) s₁ steps s)
    (hsteps : ∀ st ∈ steps, ∀ env, st.action ≠ .removeNode c env) :
    ∃ t, Shows s.mem t ∧ Has t p c name := by
  have hadded := (SoundlyShows.added ⟨Sound.of_run hbefore, ht₀⟩ hp hc hserve).2
  have hguarded := hrun.guarded (G := fun req _ => ∀ env, req ≠ .removeNode c env) hsteps
  have hshows : ShowsNode p c name s :=
    hguarded.invariant hadded fun _ _ _ _ h hstep => h.serve hstep.1 hstep.2
  obtain ⟨t, ht, hhas⟩ := hshows
  exact ⟨t, ht.2, hhas⟩

/-- A node that is added, and then a read. -/
theorem answered_stays_read : ∃ t, Shows State.one.mem t ∧ Has t (-1) 1 "a" := by
  have hadd : Serves readsA (.adding (-1) 1) State.initial (.added 1) State.one := rfl
  have hread : Serves readsA .validateTree State.one (.valid true) State.one := rfl
  refine answered_stays .nil shows_initial (by decide) hadd (by decide) (Run.nil.snoc hread) ?_
  intro st hst env
  rw [List.mem_singleton.mp hst]
  exact fun heq => by cases heq

end Stays

end ApiSyncer
