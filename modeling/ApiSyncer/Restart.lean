/-
  ApiSyncer.Restart
  ─────────────────
  **WHEN A RESTART SHOWS THE SAME TREE.**

  A constructor run afresh on the committed tables yields the tree that is in
  memory, up to the order of siblings, after every request of a run exactly
  when no `removeNode` takes a leaf that has siblings: its DELETE is keyed by
  the parent, so the siblings lose their rows while memory keeps them where
  they were.

      Exact                    memory and tables say the same
      Exact.restartEquivalent  where both say the same, a restart shows the same tree
      restart_equivalent_iff   the exact condition on runs
-/
import ApiSyncer.Mirror
import ApiSyncer.FaithfulLoad

namespace ApiSyncer

open ApiSyncer.Lib

/-! ## §1. Names, requests and the property. -/

/-- A name free of quote and backslash. -/
def Plain (name : String) : Prop := '\'' ∉ name.toList ∧ '\\' ∉ name.toList

/-- A plain name is read as one row with that name, if it is accepted. -/
def MySQL.ReadsPlain (mysql : MySQL) : Prop :=
  ∀ name, Plain name → ∀ names,
    mysql.valuesOf (insertObjectQuery name) = some names → names = [name]

/-- The database does not fail during the request, and a name is plain. -/
def Request.Ordinary : Request → Prop
  | .addNode name _ env => Plain name ∧ env.Healthy
  | .removeNode _ env => env.Healthy
  | .tree _ => True
  | .validateTree => True

theorem Request.Ordinary.healthy {req : Request} (h : req.Ordinary) : req.Healthy := by
  cases req with
  | addNode => exact h.2
  | removeNode => exact h
  | tree => trivial
  | validateTree => trivial

/-- Both memories render the same tree from superRoot, up to the order of
siblings. -/
def SameTree (m m' : Memory) : Prop :=
  ∃ fuel json json', apiTree m fuel = .ok (some json) ∧ apiTree m' fuel = .ok (some json')
    ∧ json.SiblingPerm json'

/-- A constructor run afresh on the committed tables, in whatever order their
rows are delivered, yields the tree that is in memory. -/
def RestartEquivalent (s : State) : Prop :=
  ∀ env : Startup, env.Succeeds s.db.committed →
    ∃ m, construct env s.db.committed = .ok (m, true) ∧ SameTree s.mem m

/-- A leaf that `removeNode` takes is the only child of its parent. -/
def Request.TakesNoSibling : Request → State → Prop
  | .removeNode id _, s => ∀ node, Leaf s id node → ∀ p c,
      ⟨p, id⟩ ∈ s.db.committed.relationships → ⟨p, c⟩ ∈ s.db.committed.relationships → c = id
  | _, _ => True

/-! ## §2. Memory and tables say the same. -/

/-- The graph `F` is what the tables `T` describe, up to keys that nothing
reaches. -/
structure Describes (T : Tables) (F : Forest Int String) : Prop where
  label_root : F.label superRootKey = "superRoot"
  objects : ∀ o ∈ T.objects, o.id ∈ F.keys ∧ F.label o.id = o.name
  rows : ∀ p c, ⟨p, c⟩ ∈ T.relationships → F.Edge p c
  roots : ∀ c ∈ T.ids, (∀ p, ⟨p, c⟩ ∉ T.relationships) → F.Edge superRootKey c
  edges : ∀ p c, F.Edge p c →
    ⟨p, c⟩ ∈ T.relationships ∨ p = superRootKey ∧ c ∈ T.ids ∧ ∀ q, ⟨q, c⟩ ∉ T.relationships

namespace Describes

variable {T : Tables} {F : Forest Int String} {new_id parent_id p id : Int} {name : String}
  {rows : List ObjectRow}

theorem initial : Describes Tables.empty startForest where
  label_root := rfl
  objects _ h := (List.not_mem_nil h).elim
  rows _ _ h := (List.not_mem_nil h).elim
  roots _ h := (List.not_mem_nil h).elim
  edges _ _ he := (List.not_mem_nil he.2).elim

/-- A key that nothing lists changes nothing. -/
theorem insert (h : Describes T F) (hroot : superRootKey ∈ F.keys) (hnew : new_id ∉ F.keys)
    (name : String) : Describes T (F.insert new_id name) where
  label_root := by
    have hne : superRootKey ≠ new_id := fun heq => hnew (heq ▸ hroot)
    rw [Forest.label_insert_of_ne hne]
    exact h.label_root
  objects o ho := by
    obtain ⟨hk, hlabel⟩ := h.objects o ho
    refine ⟨Forest.mem_keys_insert.mpr (Or.inr hk), ?_⟩
    have hne : o.id ≠ new_id := fun heq => hnew (heq ▸ hk)
    rw [Forest.label_insert_of_ne hne]
    exact hlabel
  rows p c hr := by
    have he := h.rows p c hr
    exact Forest.edge_insert.mpr ⟨fun heq => hnew (heq ▸ he.1), he⟩
  roots c hc hno := by
    have he := h.roots c hc hno
    exact Forest.edge_insert.mpr ⟨fun heq => hnew (heq ▸ he.1), he⟩
  edges p c he := h.edges p c (Forest.edge_insert.mp he).2

/-- A new object under its parent, with its row unless the parent is superRoot. -/
theorem added (h : Describes T F) (hroot : superRootKey ∈ F.keys) (hnew : new_id ∉ F.keys)
    (hfresh : new_id ∉ T.ids) (hno : ∀ q, ⟨q, new_id⟩ ∉ T.relationships)
    (hp : parent_id ∈ (F.insert new_id name).keys) :
    Describes ((addedWrites parent_id new_id [⟨new_id, name⟩]).foldl Applies.apply T)
      ((F.insert new_id name).link parent_id new_id) := by
  have hins := h.insert hroot hnew name
  have hids : ∀ c, c ∈ ((addedWrites parent_id new_id [⟨new_id, name⟩]).foldl Applies.apply
      T).ids ↔ c ∈ T.ids ∨ c = new_id := by
    intro c
    unfold Tables.ids
    rw [objects_added]
    simp
  constructor
  · exact hins.label_root
  · intro o ho
    rw [objects_added, List.mem_append, List.mem_singleton] at ho
    rcases ho with ho | rfl
    · exact hins.objects o ho
    · show new_id ∈ (F.insert new_id name).keys ∧ (F.insert new_id name).label new_id = name
      exact ⟨Forest.mem_keys_insert.mpr (Or.inl rfl), Forest.label_insert_self⟩
  · intro p c hr
    rw [Forest.edge_link hp]
    exact (mem_relationships_added.mp hr).imp (hins.rows p c) fun hrow => hrow.2
  · intro c hc hfree
    rw [Forest.edge_link hp]
    rcases (hids c).mp hc with hc | rfl
    · exact Or.inl (hins.roots c hc fun p hr =>
        hfree p (mem_relationships_added.mpr (Or.inl hr)))
    · -- the new object has no row, so its parent is superRoot
      by_cases hpar : parent_id = -1
      · exact Or.inr ⟨by rw [superRootKey_eq, hpar], rfl⟩
      · exact absurd (mem_relationships_added.mpr (Or.inr ⟨hpar, rfl, rfl⟩)) (hfree parent_id)
  · intro p c he
    rcases (Forest.edge_link hp).mp he with he | ⟨rfl, rfl⟩
    · rcases hins.edges p c he with hr | ⟨hpr, hc, hfree⟩
      · exact Or.inl (mem_relationships_added.mpr (Or.inl hr))
      · refine Or.inr ⟨hpr, (hids c).mpr (Or.inl hc), fun q hq => ?_⟩
        rcases mem_relationships_added.mp hq with hq | ⟨-, -, heq⟩
        · exact hfree q hq
        · exact hfresh (heq ▸ hc)
    · by_cases hpar : p = -1
      · refine Or.inr ⟨by rw [superRootKey_eq, hpar], (hids c).mpr (Or.inr rfl), fun q hq => ?_⟩
        rcases mem_relationships_added.mp hq with hq | ⟨hne, -, -⟩
        · exact hno q hq
        · exact hne hpar
      · exact Or.inl (mem_relationships_added.mpr (Or.inr ⟨hpar, rfl, rfl⟩))

/-- A leaf that is the only child of its parent is gone, with its row. -/
theorem removed (h : Describes T F) (hroot : superRootKey ≠ id)
    (hone : ∀ p q c, ⟨p, c⟩ ∈ T.relationships → ⟨q, c⟩ ∈ T.relationships → p = q)
    (hrow : ⟨p, id⟩ ∈ T.relationships) (honly : ∀ c, ⟨p, c⟩ ∈ T.relationships → c = id)
    (hleaf : ∀ c, ⟨id, c⟩ ∉ T.relationships) :
    Describes ([Write.deleteRelationships p, Write.deleteObject id].foldl Applies.apply T)
      ((F.unlink p id).erase id) := by
  have hids : ∀ c, c ∈ ([Write.deleteRelationships p, Write.deleteObject id].foldl
      Applies.apply T).ids ↔ c ∈ T.ids ∧ c ≠ id := fun c => Tables.mem_ids_deleteObject
  -- the rows that go are the rows of the leaf
  have hkept : ∀ {q c}, ⟨q, c⟩ ∈ T.relationships → c ≠ id →
      ⟨q, c⟩ ∈ ([Write.deleteRelationships p, Write.deleteObject id].foldl Applies.apply
        T).relationships := by
    intro q c hr hc
    refine mem_relationships_removed.mpr ⟨hr, fun hq => ?_, fun hq => ?_, hc⟩
    · subst hq
      exact hc (honly c hr)
    · subst hq
      exact hleaf c hr
  constructor
  · exact h.label_root
  · intro o ho
    obtain ⟨hT, hne⟩ := Tables.mem_objects_deleteObject.mp ho
    obtain ⟨hk, hlabel⟩ := h.objects o hT
    exact ⟨Forest.mem_keys_erase.mpr ⟨hne, hk⟩, hlabel⟩
  · intro q c hr
    obtain ⟨hT, -, hq, hc⟩ := mem_relationships_removed.mp hr
    rw [Forest.edge_erase, Forest.edge_unlink]
    exact ⟨hq, h.rows q c hT, fun heq => hc heq.2⟩
  · intro c hc hfree
    obtain ⟨hcT, hne⟩ := (hids c).mp hc
    have he := h.roots c hcT fun q hq => hfree q (hkept hq hne)
    rw [Forest.edge_erase, Forest.edge_unlink]
    exact ⟨hroot, he, fun heq => hne heq.2⟩
  · intro q c he
    rw [Forest.edge_erase, Forest.edge_unlink] at he
    obtain ⟨hq, heF, hother⟩ := he
    have hne : c ≠ id := by
      intro hc
      subst hc
      rcases h.edges q c heF with hr | ⟨-, -, hfree⟩
      · exact hother ⟨hone q p c hr hrow, rfl⟩
      · exact hfree p hrow
    rcases h.edges q c heF with hr | ⟨hqr, hcT, hfree⟩
    · exact Or.inl (hkept hr hne)
    · refine Or.inr ⟨hqr, (hids c).mpr ⟨hcT, hne⟩, fun q' hq' => ?_⟩
      exact hfree q' (mem_relationships_removed.mp hq').1

end Describes

/-- The invariant of the runs whose steps all meet the condition. -/
structure Exact (s : State) (F : Forest Int String) (addr : Int → Addr) (rank : Int → ℕ)
    (bound : ℕ) : Prop where
  mirror : Mirror s F addr rank bound
  describes : Describes s.db.committed F

/-! ## §3. Then a restart shows the same tree. -/

section Equivalent

variable {mysql : MySQL} {s s' : State} {F G : Forest Int String} {addr : Int → Addr}
  {rank : Int → ℕ} {bound : ℕ}

/-- The load of the committed tables. -/
theorem Mirror.reloads (h : Mirror s F addr rank bound) {env : Startup}
    (henv : env.Succeeds s.db.committed) :
    ∃ m G addr', construct env s.db.committed = .ok (m, true) ∧ Represents m G addr'
      ∧ Rooted m G addr' ∧ CompleteForest s.db.committed G
      ∧ ∀ k ∈ G.keys, Tables.intMin ≤ k ∧ k ≤ Tables.intMax := by
  have hload := h.ledger.loadable h.holds.allocation
  obtain ⟨m, G, addr', hok, hrep, hroot, hG⟩ := construct_complete hload henv
  refine ⟨m, G, addr', hok, hrep, hroot, hG, fun k hk => ?_⟩
  rcases (hG.mem_keys k).mp hk with rfl | hid
  · exact ⟨by decide, by decide⟩
  · exact hload.int_range k hid

/-- Both graphs have the same edges. -/
theorem Exact.edge_iff (h : Exact s F addr rank bound)
    (hG : CompleteForest s.db.committed G) {p c : Int} : F.Edge p c ↔ G.Edge p c := by
  have hledger := h.mirror.ledger
  rw [hG.edge_iff (hledger.loadable h.mirror.holds.allocation)]
  rw [hledger.foreign_keys.not_parented_iff]
  constructor
  · intro he
    rcases h.describes.edges p c he with hr | ⟨hp, hc, hno⟩
    · exact Or.inr ⟨hr, hledger.parent_mem_ids hr, hledger.child_mem_ids hr⟩
    · exact Or.inl ⟨hp, hc, hno⟩
  · intro he
    rcases he with ⟨rfl, hc, hno⟩ | ⟨hr, -, -⟩
    · exact h.describes.roots c hc hno
    · exact h.describes.rows p c hr

/-- **Where memory and tables say the same, a restart shows the same tree.** -/
theorem Exact.restartEquivalent (h : Exact s F addr rank bound) : RestartEquivalent s := by
  intro env henv
  obtain ⟨m, G, addr', hok, hrep, hroot, hG, hint⟩ := h.mirror.reloads henv
  have hload := h.mirror.ledger.loadable h.mirror.holds.allocation
  have hholds := h.mirror.holds
  refine ⟨m, hok, ?_⟩
  obtain ⟨json, hjson⟩ := hholds.unfolds
  -- below superRoot the lists hold the same keys, with the same labels
  have hsame : ∀ j, F.Reach superRootKey j →
      F.label j = G.label j ∧ (F.kids j).Perm (G.kids j) := by
    intro j hj
    have hjF := hj.mem_keys hholds.wellFormed.closed hholds.rooted.mem_keys
    have hjT : j = superRootKey ∨ j ∈ s.db.committed.ids := by
      rcases Relation.ReflTransGen.cases_tail hj with heq | ⟨p, -, he⟩
      · exact Or.inl heq
      · rcases h.describes.edges p j he with hr | ⟨-, hid, -⟩
        · exact Or.inr (h.mirror.ledger.child_mem_ids hr)
        · exact Or.inr hid
    have hjG : j ∈ G.keys := (hG.mem_keys j).mpr hjT
    constructor
    · rcases hjT with rfl | hid
      · rw [h.describes.label_root, hG.label_root]
      · obtain ⟨o, ho, rfl⟩ := List.mem_map.mp hid
        rw [(h.describes.objects o ho).2, hG.label o ho]
    · refine (List.perm_ext_iff_of_nodup (hholds.wellFormed.nodup j hjF)
        (hG.nodup_kids hload h.mirror.ledger.relationships_nodup j)).mpr fun c => ?_
      have hiff := h.edge_iff hG (p := j) (c := c)
      exact ⟨fun hc => (hiff.mp ⟨hjF, hc⟩).2, fun hc => (hiff.mpr ⟨hjG, hc⟩).2⟩
  obtain ⟨json', hjson', hperm⟩ :=
    Forest.unfold_siblingPerm hholds.wellFormed hholds.rooted.mem_keys hsame hjson
  exact ⟨_, json, json',
    (hholds.represents.apiTree_eq_iff hholds.rooted hholds.int_range).mpr hjson,
    (hrep.apiTree_eq_iff hroot hint).mpr hjson', hperm⟩

/-- **An object that lost its row while a list still holds it**: the restart
shows it under superRoot, memory does not. -/
theorem Mirror.not_restartEquivalent (h : Mirror s F addr rank bound) {p c : Int}
    (hc : c ∈ s.db.committed.ids) (hno : ∀ q, ⟨q, c⟩ ∉ s.db.committed.relationships)
    (he : F.Edge p c) (hp : p ≠ superRootKey) : ¬ RestartEquivalent s := by
  intro hequiv
  have henv : Startup.whole.Succeeds s.db.committed :=
    ⟨rfl, ⟨_, _, rfl, rfl⟩, ⟨_, _, rfl, rfl⟩⟩
  obtain ⟨m, G, addr', hok, hrep, hroot, hG, hint⟩ := h.reloads henv
  obtain ⟨m', hok', fuel, json, json', hlive, hfresh, hperm⟩ := hequiv _ henv
  rw [hok] at hok'
  obtain ⟨rfl, -⟩ := Prod.mk.inj (Except.ok.inj hok')
  have hunfold :=
    (h.holds.represents.apiTree_eq_iff h.holds.rooted h.holds.int_range).mp hlive
  have hunfold' := (hrep.apiTree_eq_iff hroot hint).mp hfresh
  -- sibling-equal trees have the same keys directly under superRoot
  have hkids := hperm.children_keys
  rw [Forest.children_keys_unfold hunfold, Forest.children_keys_unfold hunfold'] at hkids
  have hparented : s.db.committed.parented c = false :=
    h.ledger.foreign_keys.not_parented_iff.mpr hno
  have hmem : c ∈ F.kids superRootKey :=
    hkids.mem_iff.mpr (hG.mem_roots.mpr ⟨hc, hparented⟩)
  exact hp (h.holds.wellFormed.parent_unique he ⟨h.holds.rooted.mem_keys, hmem⟩)

/-! ## §4. One request. -/

theorem Exact.initial : Exact State.initial startForest (fun _ => 0) (fun _ => 0) 1 :=
  ⟨⟨Sound.initial, rfl, fun _ _ h => (List.not_mem_nil h).elim⟩, Describes.initial⟩

/-- An `addNode` with a plain name keeps memory and tables the same. -/
theorem Exact.addOutcome {name : String} {parent_id : Int} {F' : Forest Int String}
    {T' : Tables} (h : Exact s F addr rank bound) (hsql : mysql.ReadsPlain)
    (hplain : Plain name)
    (hout : AddOutcome mysql name parent_id F s.db.committed F' T') : Describes T' F' := by
  have hroot := h.mirror.holds.rooted.mem_keys
  cases hout with
  | unchanged => exact h.describes
  | leaked hnew => exact h.describes.insert hroot hnew name
  | added hnew hfresh hvalues hhead hp =>
      -- a plain name is one row, so the label of the node is its name
      obtain ⟨row, rest, rfl, rfl⟩ := hhead
      obtain ⟨hname, hrest⟩ := List.cons.inj (hsql name hplain _ hvalues)
      rw [List.map_eq_nil_iff] at hrest
      subst hrest hname
      exact h.describes.added hroot hnew hfresh
        (fun q hq => hfresh (h.mirror.ledger.child_mem_ids hq)) hp

/-- The removal of a leaf takes the row of a sibling with it, and the restart
moves that sibling. -/
theorem Mirror.sibling_moves {p id c : Int} {node : Addr} (h : Mirror s F addr rank bound)
    (h' : Mirror s' ((F.unlink p id).erase id) addr rank bound)
    (hT : s'.db.committed
      = [Write.deleteRelationships p, Write.deleteObject id].foldl Applies.apply s.db.committed)
    (hleaf : Leaf s id node) (hc : ⟨p, c⟩ ∈ s.db.committed.relationships) (hci : c ≠ id) :
    ¬ RestartEquivalent s' := by
  have hpid : p ≠ id := fun heq => h.leaf_no_row hleaf (heq ▸ hc)
  refine h'.not_restartEquivalent (p := p) (c := c) ?_ ?_ ?_ ?_
  · rw [hT]
    exact Tables.mem_ids_deleteObject.mpr ⟨h.ledger.child_mem_ids hc, hci⟩
  · intro q hq
    rw [hT] at hq
    obtain ⟨hqT, hqp, -, -⟩ := mem_relationships_removed.mp hq
    exact hqp (h.ledger.one_parent q p c hqT hc)
  · rw [Forest.edge_erase, Forest.edge_unlink]
    exact ⟨hpid, h.rows p c hc, fun heq => hci heq.2⟩
  · exact h.holds.allocation.ne_superRootKey (h.ledger.allocated _ (h.ledger.parent_mem_ids hc))

/-- **One request**: afterwards a restart is equivalent exactly when the request
took no leaf with siblings, and then memory and tables say the same again. -/
theorem Exact.serve {req : Request} {resp : Response} (h : Exact s F addr rank bound)
    (hsql : mysql.ReadsPlain) (hreq : req.Ordinary) (hserve : Serves mysql req s resp s') :
    (RestartEquivalent s' ↔ req.TakesNoSibling s)
      ∧ (req.TakesNoSibling s → ∃ F' addr' rank' bound', Exact s' F' addr' rank' bound') := by
  -- it is enough to say when memory and tables are the same again
  have hexact : ∀ {F' addr' rank' bound'}, Exact s' F' addr' rank' bound' →
      req.TakesNoSibling s → (RestartEquivalent s' ↔ req.TakesNoSibling s)
        ∧ (req.TakesNoSibling s → ∃ F' addr' rank' bound', Exact s' F' addr' rank' bound') :=
    fun hE hG => ⟨⟨fun _ => hG, fun _ => hE.restartEquivalent⟩, fun _ => ⟨_, _, _, _, hE⟩⟩
  rcases serves_cases hserve with
    ⟨name, parent_id, env, r, rfl, -, hexit⟩ | ⟨id, env, rfl, -, hexit⟩ | ⟨hreads, rfl⟩
  · obtain ⟨F', addr', rank', bound', hholds, hpend, hout⟩ :=
      hexit.outcome hreq.healthy h.mirror
    exact hexact ⟨⟨hholds, hpend, hout.rows h.mirror.rows⟩, h.addOutcome hsql hreq.1 hout⟩
      trivial
  · obtain ⟨F', hholds, hpend, hout⟩ := hexit.outcome hreq.healthy h.mirror
    have hmirror : Mirror s' F' addr rank bound := ⟨hholds, hpend, hout.rows h.mirror.rows⟩
    generalize hT : s'.db.committed = T' at hout
    cases hout with
    | unchanged hno =>
        refine hexact ⟨hmirror, ?_⟩ fun node hleaf p c hp => absurd hp (hno node hleaf p)
        rw [hT]
        exact h.describes
    | @removed node p hleaf hrow =>
        have hledger := h.mirror.ledger
        have hne : superRootKey ≠ id :=
          (h.mirror.holds.allocation.ne_superRootKey
            (hledger.allocated _ (hledger.child_mem_ids hrow))).symm
        by_cases honly : ∀ c, ⟨p, c⟩ ∈ s.db.committed.relationships → c = id
        · refine hexact ⟨hmirror, ?_⟩ fun node' _ q c hq hqc => ?_
          · rw [hT]
            exact h.describes.removed hne hledger.one_parent hrow honly
              fun c => h.mirror.leaf_no_row hleaf
          · obtain rfl := hledger.one_parent q p id hq hrow
            exact honly c hqc
        · -- some sibling has lost its row
          have hG : ¬ (Request.removeNode id env).TakesNoSibling s := fun hG =>
            honly fun c hc => hG node hleaf p c hrow hc
          refine ⟨⟨fun hequiv => absurd hequiv ?_, fun hG' => absurd hG' hG⟩,
            fun hG' => absurd hG' hG⟩
          push Not at honly
          obtain ⟨c, hc, hci⟩ := honly
          exact h.mirror.sibling_moves hmirror hT hleaf hc hci
  · refine hexact h ?_
    cases req with
    | addNode => cases hreads
    | removeNode => cases hreads
    | tree => trivial
    | validateTree => trivial

end Equivalent

/-! ## §5. Runs. -/

/-- **Restart equivalence holds after every request of a run exactly when every
`removeNode` of the run that takes a leaf takes an only child.** -/
theorem restart_equivalent_iff {mysql : MySQL} {s : State}
    {steps : List (Step State Request Response)} (hsql : mysql.ReadsPlain)
    (hrun : Run (Serves mysql) State.initial steps s)
    (hordinary : ∀ st ∈ steps, st.action.Ordinary) :
    (∀ st ∈ steps, RestartEquivalent st.after)
      ↔ ∀ st ∈ steps, st.action.TakesNoSibling st.before := by
  refine (hrun.guarded (G := fun req _ => req.Ordinary) hordinary).forall_after_iff
    (I := fun s => ∃ F addr rank bound, Exact s F addr rank bound)
    (P := RestartEquivalent) (G := Request.TakesNoSibling) ⟨_, _, _, _, Exact.initial⟩ ?_
  intro s req resp s' hs hstep
  obtain ⟨F, addr, rank, bound, h⟩ := hs
  exact h.serve hsql hstep.2 hstep.1

theorem insertObjectQuery_inj {name name' : String}
    (h : insertObjectQuery name = insertObjectQuery name') : name = name' := by
  unfold insertObjectQuery at h
  simpa using h

theorem readsPlain_readsA : readsA.ReadsPlain := by
  intro name _ names hnames
  have h : (if insertObjectQuery name = insertObjectQuery "a" then some ["a"] else none)
      = some names := hnames
  split at h
  next heq =>
      rw [insertObjectQuery_inj heq]
      exact (Option.some.inj h).symm
  next => cases h

theorem Request.adding_ordinary (parent_id id : Int) :
    (Request.adding parent_id id).Ordinary :=
  ⟨by unfold Plain; decide, Env.allocating_healthy _⟩

theorem Request.removing_ordinary (id : Int) : (Request.removing id).Ordinary :=
  Env.allocating_healthy _

/-- After the removal of an only child a restart shows the same tree. -/
theorem restart_equivalent_only_child :
    RestartEquivalent (State.two.after readsA (.removing 2)) := by
  have hremove : Serves readsA (.removing 2) State.two .removed
      (State.two.after readsA (.removing 2)) := rfl
  have hrun := ((Run.nil.snoc serves_one).snoc serves_two).snoc hremove
  have hiff := restart_equivalent_iff readsPlain_readsA hrun
    (List.forall_mem_cons.mpr ⟨Request.adding_ordinary (-1) 1,
      List.forall_mem_cons.mpr ⟨Request.adding_ordinary 1 2,
        List.forall_mem_singleton.mpr (Request.removing_ordinary 2)⟩⟩)
  refine hiff.mpr ?_ _ (List.mem_append_right _ (List.mem_singleton_self _))
  refine List.forall_mem_cons.mpr ⟨trivial, List.forall_mem_cons.mpr ⟨trivial,
    List.forall_mem_singleton.mpr fun _ _ p c _ hc => ?_⟩⟩
  have hrows : State.two.db.committed.relationships = [⟨1, 2⟩] := rfl
  rw [hrows] at hc
  injection List.mem_singleton.mp hc

/-- A second child of the top-level object, and then the removal of the first. -/
def State.three : State := State.two.after readsA (.adding 1 3)

def State.moved : State := State.three.after readsA (.removing 2)

theorem run_moved : ∃ steps, Run (Serves readsA) State.initial steps State.moved
    ∧ (∀ st ∈ steps, st.action.Ordinary) ∧ ∃ st ∈ steps, st.after = State.moved := by
  have hthree : Serves readsA (.adding 1 3) State.two (.added 3) State.three := rfl
  have hremove : Serves readsA (.removing 2) State.three .removed State.moved := rfl
  refine ⟨_, (((Run.nil.snoc serves_one).snoc serves_two).snoc hthree).snoc hremove, ?_, _,
    List.mem_append_right _ (List.mem_singleton_self _), rfl⟩
  exact List.forall_mem_cons.mpr ⟨Request.adding_ordinary (-1) 1,
    List.forall_mem_cons.mpr ⟨Request.adding_ordinary 1 2,
      List.forall_mem_cons.mpr ⟨Request.adding_ordinary 1 3,
        List.forall_mem_singleton.mpr (Request.removing_ordinary 2)⟩⟩⟩

/-- **The removal of a leaf with a sibling changes the tree that the next
restart shows**: the sibling has lost its row. -/
theorem restart_moves_sibling :
    ¬ ∀ (mysql : MySQL) (s : State) (steps : List (Step State Request Response)),
      mysql.ReadsPlain → Run (Serves mysql) State.initial steps s →
      (∀ st ∈ steps, st.action.Ordinary) → ∀ st ∈ steps, RestartEquivalent st.after := by
  intro hevery
  obtain ⟨steps, hrun, hordinary, st, hst, hafter⟩ := run_moved
  have hequiv := hevery readsA _ steps readsPlain_readsA hrun hordinary st hst
  rw [hafter] at hequiv
  obtain ⟨F, addr, rank, bound, h⟩ := Mirror.of_run hrun fun st hst => (hordinary st hst).healthy
  have hrep := h.holds.represents
  -- in memory the sibling is where it was
  have hfind : State.moved.mem.find 1 = some (some 1) := rfl
  have hfind' : State.moved.mem.find 3 = some (some 3) := rfl
  have hlist : (State.moved.mem.heap 1).children = [some 3] := rfl
  obtain ⟨hone, hone'⟩ := hrep.find_eq_some.mp hfind
  obtain ⟨hthree, hthree'⟩ := hrep.find_eq_some.mp hfind'
  have hedge : F.Edge 1 3 := by
    refine ⟨hone, (hrep.mem_children hone hthree).mp ?_⟩
    rw [← hone', ← hthree', hlist]
    exact List.mem_singleton_self _
  -- in the tables it has no parent
  have hid : (3 : Int) ∈ State.moved.db.committed.ids := by decide
  have hrows : State.moved.db.committed.relationships = [] := rfl
  refine h.not_restartEquivalent hid (fun q hq => ?_) hedge (by decide) hequiv
  rw [hrows] at hq
  exact List.not_mem_nil hq

end ApiSyncer
