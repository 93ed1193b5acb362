/-
  ApiSyncer.Responses
  ───────────────────
  **WHAT A 201 IS WORTH.**

  Neither handler looks at what became of its request: `/api/add_node` answers
  201 with whatever `addNode` returned, `/api/remove_node` once `removeNode` is
  back.  So a response is true exactly when the request was one that could only
  succeed, or one whose required field was not there.

      TruthfulAdd / TruthfulRemove   the property
      responses_truthful_iff         when it holds
-/
import ApiSyncer.Atomicity
import ApiSyncer.Handlers

namespace ApiSyncer

open ApiSyncer.Lib

/-! ## §1. The property. -/

/-- `addNode` was called and returned an id other than -1, and that id is in
the body of the response. -/
def Created (mysql : MySQL) (body : Option AddBody) (env : Env) (s : State)
    (resp : HttpResponse) : Prop :=
  ∃ b name parent_id r s', body = some b ∧ b.arguments = .ok (name, parent_id)
    ∧ addNode mysql name parent_id env s = .ok (r, s') ∧ r ≠ -1
    ∧ ∃ fields, resp.payload = .json fields ∧ ("id", .int r) ∈ fields

/-- The requested id was in the map before the request and is not after it. -/
def Removed (body : Option RemoveBody) (s s' : State) : Prop :=
  ∃ v, body = some ⟨.given v⟩ ∧ s.mem.find v.toInt ≠ none ∧ s'.mem.find v.toInt = none

/-- 201 means that the node was created, and anything else is an error. -/
structure TruthfulAdd (mysql : MySQL) (body : Option AddBody) (env : Env) (s : State)
    (resp : HttpResponse) : Prop where
  created : resp.code = 201 ↔ Created mysql body env s resp
  failed : ¬ Created mysql body env s resp → 400 ≤ resp.code

/-- 201 means that the node is gone, and anything else is an error. -/
structure TruthfulRemove (body : Option RemoveBody) (s s' : State) (resp : HttpResponse) :
    Prop where
  removed : resp.code = 201 ↔ Removed body s s'
  failed : ¬ Removed body s s' → 400 ≤ resp.code

/-- `removeNode id` goes through. -/
structure Removable (id : Int) (env : Env) (s : State) : Prop where
  detaches : ∃ p node parent, Detaches id env s p node parent
  deleteRelationships : env.fails .deleteRelationships = false
  deleteObject : env.fails .deleteObject = false

/-! ## §2. When it holds. -/

section Truthful

variable {mysql : MySQL} {env : Env} {s s' : State} {root : Addr} {id r : Int} {name : String}
  {parent_id : Int} {resp : HttpResponse}

/-- An error is true of a request that did nothing. -/
theorem TruthfulAdd.of_error {body : Option AddBody}
    (hno : ∀ b name parent_id, body = some b → b.arguments ≠ .ok (name, parent_id))
    (hcode : 400 ≤ resp.code) : TruthfulAdd mysql body env s resp := by
  have hnot : ¬ Created mysql body env s resp := by
    intro hcreated
    obtain ⟨b, name, parent_id, -, -, hb, hargs, -⟩ := hcreated
    exact hno b name parent_id hb hargs
  refine ⟨iff_of_false (fun h => ?_) hnot, fun _ => hcode⟩
  omega

theorem TruthfulRemove.of_error {body : Option RemoveBody}
    (hno : ∀ v, body ≠ some ⟨.given v⟩) (hcode : 400 ≤ resp.code) :
    TruthfulRemove body s s' resp := by
  have hnot : ¬ Removed body s s' := by
    intro hremoved
    obtain ⟨v, hv, -⟩ := hremoved
    exact hno v hv
  refine ⟨iff_of_false (fun h => ?_) hnot, fun _ => hcode⟩
  omega

/-- With both arguments there the answer is 201, so it has to be true. -/
theorem truthfulAdd_iff {b : AddBody} (hargs : b.arguments = .ok (name, parent_id))
    (hok : addNode mysql name parent_id env s = .ok (r, s')) :
    TruthfulAdd mysql (some b) env s (.added r name) ↔ r ≠ -1 := by
  have hcreated : Created mysql (some b) env s (.added r name) ↔ r ≠ -1 := by
    constructor
    · intro h
      obtain ⟨b', name', parent_id', r', s'', hb, hargs', hok', hr, -⟩ := h
      cases hb
      obtain ⟨rfl, rfl⟩ := Prod.mk.inj (Except.ok.inj (hargs.symm.trans hargs'))
      obtain ⟨rfl, -⟩ := Prod.mk.inj (Except.ok.inj (hok.symm.trans hok'))
      exact hr
    · intro hr
      refine ⟨b, name, parent_id, r, s', rfl, hargs, hok, hr, _, rfl, ?_⟩
      exact List.mem_cons_of_mem _ List.mem_cons_self
  constructor
  · intro h
    exact hcreated.mp (h.created.mp rfl)
  · intro hr
    exact ⟨iff_of_true rfl (hcreated.mpr hr), fun hno => absurd (hcreated.mpr hr) hno⟩

theorem truthfulRemove_iff {v : Int64} :
    TruthfulRemove (some ⟨.given v⟩) s s' (.removed id)
      ↔ s.mem.find v.toInt ≠ none ∧ s'.mem.find v.toInt = none := by
  have hremoved : Removed (some ⟨.given v⟩) s s'
      ↔ s.mem.find v.toInt ≠ none ∧ s'.mem.find v.toInt = none := by
    constructor
    · intro h
      obtain ⟨v', hv, hgone⟩ := h
      cases hv
      exact hgone
    · intro h
      exact ⟨v, rfl, h⟩
  constructor
  · intro h
    exact hremoved.mp (h.removed.mp rfl)
  · intro h
    exact ⟨iff_of_true rfl (hremoved.mpr h), fun hno => absurd (hremoved.mpr h) hno⟩

/-- **A node goes exactly when the request goes through.** -/
theorem RemoveSplit.erased_iff (hsplit : RemoveSplit mysql id env s s') :
    s.mem.find id ≠ none ∧ s'.mem.find id = none ↔ Removable id env s := by
  rcases hsplit with ⟨hno, hkept⟩ | ⟨p, node, parent, hdet, hexit⟩
  · refine iff_of_false (fun h => ?_) (fun h => ?_)
    · rw [hkept.mem_eq] at h
      exact h.1 h.2
    · obtain ⟨p, node, parent, hdet⟩ := h.detaches
      exact hno p node parent hdet
  have hfound : s.mem.find id ≠ none := by
    rw [hdet.leaf.find]
    simp
  constructor
  · intro h
    cases hexit with
    -- after a failed DELETE the entry is still there
    | relationshipsKept => exact absurd h.2 hfound
    | objectKept => exact absurd h.2 hfound
    | removed hf hf₂ => exact ⟨⟨p, node, parent, hdet⟩, hf, hf₂⟩
  · intro h
    exact ⟨hfound, hexit.erased h.deleteRelationships h.deleteObject⟩

/-- What goes through names an id of the map, so an `int`. -/
theorem Grounded.inRange (h : Grounded s root) {v : Int64} (hrem : Removable v.toInt env s) :
    InRange v := by
  obtain ⟨p, node, parent, hdet⟩ := hrem.detaches
  refine h.key_range ?_
  rw [hdet.leaf.find]
  simp

/-- **The response of `/api/add_node` is true if and only if the request lacks
an argument or `addNode` has all it needs.** -/
theorem Grounded.addNodeHandler_truthful (h : Grounded s root) (body : Option AddBody)
    (env : Env) :
    ∃ resp s', addNodeHandler mysql body env s = .ok (resp, s')
      ∧ (TruthfulAdd mysql body env s resp ↔ ∀ b name parent_id, body = some b →
          b.arguments = .ok (name, parent_id) → Admits mysql name parent_id env s) := by
  cases body with
  | none =>
      refine ⟨_, s, rfl, iff_of_true (.of_error (fun _ _ _ hb => by cases hb) (by decide)) ?_⟩
      intro b name parent_id hb
      cases hb
  | some b =>
      cases hargs : b.arguments with
      | error resp =>
          refine ⟨resp, s, addNodeHandler_error hargs, iff_of_true ?_ ?_⟩
          · refine .of_error (fun b' name parent_id hb hargs' => ?_) (AddBody.arguments_error hargs)
            cases hb
            rw [hargs] at hargs'
            cases hargs'
          · intro b' name parent_id hb hargs'
            cases hb
            rw [hargs] at hargs'
            cases hargs'
      | ok args =>
          obtain ⟨name, parent_id⟩ := args
          obtain ⟨r, s', hok, hexit⟩ := h.addNode name parent_id env
          refine ⟨_, s', addNodeHandler_ok hargs hok, ?_⟩
          have hadmits : r ≠ -1 ↔ Admits mysql name parent_id env s := hexit.succeeds_iff h.issued
          rw [truthfulAdd_iff hargs hok, hadmits]
          constructor
          · intro hadm b' name' parent_id' hb hargs'
            cases hb
            obtain ⟨rfl, rfl⟩ := Prod.mk.inj (Except.ok.inj (hargs.symm.trans hargs'))
            exact hadm
          · intro hall
            exact hall b name parent_id rfl hargs

/-- **The response of `/api/remove_node` is true if and only if the request
lacks its argument or goes through.** -/
theorem Grounded.removeNodeHandler_truthful (h : Grounded s root) (body : Option RemoveBody)
    (env : Env) :
    ∃ resp s', removeNodeHandler mysql body env s = .ok (resp, s')
      ∧ (TruthfulRemove body s s' resp ↔
          ∀ v, body = some ⟨.given v⟩ → Removable v.toInt env s) := by
  cases body with
  | none =>
      exact ⟨_, s, rfl, iff_of_true (.of_error (fun _ hb => by cases hb) (by decide))
        fun _ hb => by cases hb⟩
  | some b =>
      cases harg : b.argument with
      | error resp =>
          have hno : ∀ v, some b ≠ some ⟨.given v⟩ := by
            intro v hv
            cases hv
            cases harg
          refine ⟨resp, s, removeNodeHandler_error harg, iff_of_true ?_ ?_⟩
          · exact .of_error hno (RemoveBody.argument_error harg)
          · exact fun v hv => absurd hv (hno v)
      | ok id =>
          obtain ⟨v, rfl, rfl⟩ := RemoveBody.argument_ok harg
          obtain ⟨s', hok, -, hsplit⟩ := h.removeNode (narrow v) env
          refine ⟨_, s', removeNodeHandler_ok harg hok, ?_⟩
          have hgiven : (∀ w, some (⟨.given v⟩ : RemoveBody) = some ⟨.given w⟩ →
              Removable w.toInt env s) ↔ Removable v.toInt env s := by
            constructor
            · intro hall
              exact hall v rfl
            · intro hrem w hw
              cases hw
              exact hrem
          rw [truthfulRemove_iff, hgiven]
          by_cases hrange : InRange v
          · rw [← narrow_eq_self.mpr hrange]
            exact hsplit.erased_iff
          · -- no entry of the map has this id
            exact iff_of_false (fun hgone => hrange (h.key_range hgone.1))
              fun hrem => hrange (h.inRange hrem)

/-- **The responses tell the truth exactly for the requests that lack an
argument or cannot fail.** -/
theorem responses_truthful_iff (h : Reachable mysql s) (env : Env) (add : Option AddBody)
    (remove : Option RemoveBody) :
    (∃ resp s', addNodeHandler mysql add env s = .ok (resp, s')
      ∧ (TruthfulAdd mysql add env s resp ↔ ∀ b name parent_id, add = some b →
          b.arguments = .ok (name, parent_id) → Admits mysql name parent_id env s))
    ∧ ∃ resp s', removeNodeHandler mysql remove env s = .ok (resp, s')
      ∧ (TruthfulRemove remove s s' resp ↔
          ∀ v, remove = some ⟨.given v⟩ → Removable v.toInt env s) := by
  obtain ⟨root, hs⟩ := h.grounded
  exact ⟨hs.addNodeHandler_truthful add env, hs.removeNodeHandler_truthful remove env⟩

end Truthful

/-- With 1 and its child 2 there, adding a second child and removing the first
are answered truthfully. -/
theorem responses_truthful_children :
    (∃ resp s', addNodeHandler readsA (some ⟨.given "a", .given 1⟩) (.allocating [3]) State.two
        = .ok (resp, s')
      ∧ TruthfulAdd readsA (some ⟨.given "a", .given 1⟩) (.allocating [3]) State.two resp)
    ∧ ∃ resp s', removeNodeHandler readsA (some ⟨.given 2⟩) (.allocating [3]) State.two
        = .ok (resp, s')
      ∧ TruthfulRemove (some ⟨.given 2⟩) State.two s' resp := by
  have hrun : State.two.db.run readsA (.allocating [3]) (.insertObject (insertObjectQuery "a"))
      = some (1, (State.two.after readsA (.adding (-1) 3)).db) := rfl
  have hadmits : Admits readsA "a" 1 (.allocating [3]) State.two := by
    refine ⟨⟨rfl, fun hnone => ?_⟩, rfl, Or.inr ⟨rfl, Or.inl List.mem_cons_self,
      Or.inr ⟨1, rfl⟩⟩⟩
    rw [hrun] at hnone
    cases hnone
  have hremovable : Removable 2 (.allocating [3]) State.two :=
    ⟨⟨1, 2, 1, ⟨rfl, rfl⟩, rfl, rfl, rfl⟩, rfl, rfl⟩
  obtain ⟨⟨resp, s', hok, hadd⟩, resp₂, s₂, hok₂, hremove⟩ :=
    responses_truthful_iff Reachable.two (.allocating [3]) (some ⟨.given "a", .given 1⟩)
      (some ⟨.given 2⟩)
  refine ⟨⟨resp, s', hok, hadd.mpr fun b name parent_id hb hargs => ?_⟩,
    resp₂, s₂, hok₂, hremove.mpr fun v hv => ?_⟩
  · cases hb
    obtain ⟨rfl, rfl⟩ := Prod.mk.inj (Except.ok.inj hargs)
    exact hadmits
  · cases hv
    exact hremovable

/-- **On empty tables an `add_node` under the parent 7 is answered 201, with
the id -1.** -/
theorem failure_answered_created :
    ¬ ∀ (mysql : MySQL) (env : Env) (s : State), Reachable mysql s →
      (∀ body resp s', addNodeHandler mysql body env s = .ok (resp, s') →
        TruthfulAdd mysql body env s resp)
      ∧ ∀ body resp s', removeNodeHandler mysql body env s = .ok (resp, s') →
        TruthfulRemove body s s' resp := by
  intro hevery
  have hargs : (⟨.given "a", .given 7⟩ : AddBody).arguments = .ok ("a", 7) := rfl
  have hcall : addNode readsA "a" 7 (.allocating [1]) State.initial
      = .ok (-1, State.initial.after readsA (.adding 7 1)) := rfl
  have htrue := (hevery readsA (.allocating [1]) _ Reachable.initial).1 _ _ _
    (addNodeHandler_ok hargs hcall)
  exact (truthfulAdd_iff hargs hcall).mp htrue rfl

end ApiSyncer
