/-
  ApiSyncer.TreeText
  ──────────────────
  **THE TEXT OF `/api/tree`.**

  The tree is written as nested objects of an id, a name and a list of
  children.  Crow's own parser takes 5000 levels of lists and objects, of which
  a node uses two, so a text of a deep tree is one that Crow does not read.

      treeText_reads   the tree is read back from the text, if it is not too deep
      treeText_deep    the text of a deeper tree is refused
-/
import ApiSyncer.Bodies
import ApiSyncer.Lib.Leaf

namespace ApiSyncer

open ApiSyncer.Lib ApiSyncer.Crow

/-! ## §1. Writing the tree. -/

def childrenKey : List Char := ['c', 'h', 'i', 'l', 'd', 'r', 'e', 'n']

def treeKey : List Char := ['t', 'r', 'e', 'e']

mutual
/-- The `wvalue` of `nodeToJson`; the iteration of the map orders its members. -/
def nodeValue (iteration : Order) : Json → WValue
  | .node id name children =>
      .object (iteration.arrange [(idKey, .int id), (nameKey, .string name.toList),
        (childrenKey, .list (nodeValues iteration children))])
def nodeValues (iteration : Order) : List Json → List WValue
  | [] => []
  | t :: ts => nodeValue iteration t :: nodeValues iteration ts
end

/-- The `result` of `/api/tree`. -/
def treeValue (iteration : Order) (t : Json) : WValue :=
  .object (iteration.arrange [(treeKey, .list [nodeValue iteration t])])

/-- The body of the answer. -/
def treeText (iteration : Order) (t : Json) : List Char := dump (treeValue iteration t)

/-! ## §2. Reading it. -/

/-- What a client makes of a value: a node, by its members. -/
inductive NodeOf (sort : MemberSort) : RValue → Json → Prop where
  | node {v idv namev : RValue} {id : Int64} {name : List Char} {items : List RValue}
      {children : List Json} :
      v.index sort idKey = .ok idv → idv.i = .ok id →
      v.index sort nameKey = .ok namev → namev.s = .ok name →
      v.index sort childrenKey = .ok (.list items) →
      List.Forall₂ (NodeOf sort) items children →
      NodeOf sort v (.node id.toInt (String.ofList name) children)

/-- The text is one of a document with the tree under "tree". -/
def TextOf (sort : MemberSort) (text : List Char) (t : Json) : Prop :=
  ∃ v w, load text = .ok v ∧ v.index sort treeKey = .ok (.list [w]) ∧ NodeOf sort w t

/-- How many nodes are nested. -/
def levels : Json → Nat
  | .node _ _ children => levelsList children + 1
where levelsList : List Json → Nat
  | [] => 0
  | t :: ts => max (levels t) (levelsList ts)

/-! ## §3. Both together. -/

section Reading

variable {iteration : Order} {sort : MemberSort} {t : Json} {n : ℕ}

theorem nodeValues_eq_map (ts : List Json) :
    nodeValues iteration ts = ts.map (nodeValue iteration) := by
  induction ts with
  | nil => rfl
  | cons t ts ih => rw [nodeValues, ih, List.map_cons]

theorem levelsList_le {ts : List Json} : levels.levelsList ts ≤ n ↔ ∀ t ∈ ts, levels t ≤ n := by
  induction ts with
  | nil => simp [levels.levelsList]
  | cons t ts ih => rw [levels.levelsList, Nat.max_le, ih, List.forall_mem_cons]

/-- A node uses two levels: its object, and the list of its children. -/
theorem height_nodeValue_le : ∀ (t : Json) (n : ℕ),
    (nodeValue iteration t).height ≤ 2 * n ↔ levels t ≤ n
  | .node id name children, n => by
      have hchild : ∀ m, ∀ t ∈ children, ((nodeValue iteration t).height ≤ 2 * m ↔ levels t ≤ m) :=
        fun m t _ => height_nodeValue_le t m
      have hmembers : (nodeValue iteration (.node id name children)).height ≤ 2 * n
          ↔ WValue.heightItems (nodeValues iteration children) + 2 ≤ 2 * n := by
        show WValue.heightMembers (iteration.arrange _) + 1 ≤ 2 * n ↔ _
        cases n with
        | zero => simp
        | succ n =>
            have hle : ∀ a, a + 1 ≤ 2 * (n + 1) ↔ a ≤ 2 * n + 1 := by omega
            rw [hle, heightMembers_le]
            have hperm := iteration.perm [(idKey, WValue.int id), (nameKey, .string name.toList),
              (childrenKey, .list (nodeValues iteration children))]
            simp only [hperm.mem_iff, List.forall_mem_cons, WValue.height]
            constructor
            · rintro ⟨-, -, h, -⟩
              omega
            · intro h
              exact ⟨by omega, by omega, by omega, fun _ h => absurd h List.not_mem_nil⟩
      rw [hmembers, nodeValues_eq_map]
      cases n with
      | zero => simp [levels]
      | succ n =>
          have hle : ∀ a, a + 2 ≤ 2 * (n + 1) ↔ a ≤ 2 * n := by omega
          rw [hle, heightItems_le, levels, Nat.add_le_add_iff_right, levelsList_le]
          constructor
          · intro h t ht
            exact (hchild n t ht).mp (h _ (List.mem_map.mpr ⟨t, ht, rfl⟩))
          · intro h v hv
            obtain ⟨t, ht, rfl⟩ := List.mem_map.mp hv
            exact (hchild n t ht).mpr (h t ht)

theorem height_treeValue_le : (treeValue iteration t).height ≤ 5000 ↔ levels t ≤ 2499 := by
  unfold treeValue
  rw [iteration.arrange_singleton]
  have hheight : WValue.height (.object [(treeKey, .list [nodeValue iteration t])])
      = (nodeValue iteration t).height + 2 := by
    simp [WValue.height, WValue.heightMembers, WValue.heightItems]
  have hle : (nodeValue iteration t).height + 2 ≤ 5000
      ↔ (nodeValue iteration t).height ≤ 2 * 2499 := by omega
  rw [hheight, hle, height_nodeValue_le]

/-- **The ids, names and nestings are read back**, in any order of the members. -/
theorem nodeOf_readBack : ∀ t : Json, (∀ k ∈ t.keys, Tables.intMin ≤ k ∧ k ≤ Tables.intMax) →
    NodeOf sort (nodeValue iteration t).readBack t
  | .node id name children, hint => by
      have hchild : ∀ t ∈ children, NodeOf sort (nodeValue iteration t).readBack t := by
        intro t ht
        refine nodeOf_readBack t fun k hk => hint k ?_
        rw [RoseTree.keys_node]
        exact List.mem_cons_of_mem _ (List.mem_flatMap.mpr ⟨t, ht, hk⟩)
      obtain ⟨hmin, hmax⟩ := hint id (RoseTree.key_mem_keys _)
      -- an `int` is a number of 64 bits
      have hid : (clamp id).toInt = id := by
        refine clamp_toInt (Int.le_trans ?_ hmin) (Int.le_trans hmax ?_) <;> decide
      let fields : List (List Char × WValue) := [(idKey, .int id), (nameKey, .string name.toList),
        (childrenKey, .list (nodeValues iteration children))]
      let members := (iteration.arrange fields).map fun m => (m.1, m.2.readBack)
      have hread : (nodeValue iteration (.node id name children)).readBack = .object members := by
        show RValue.object (WValue.readBackMembers _) = _
        rw [readBackMembers_eq]
      have hperm : members.Perm (fields.map fun m => (m.1, m.2.readBack)) :=
        (iteration.perm fields).map _
      -- the three keys are different, so each finds its own value
      have hnodup : (members.map Prod.fst).Nodup := by
        rw [(hperm.map Prod.fst).nodup_iff]
        show [idKey, nameKey, childrenKey].Nodup
        decide
      have hindex : ∀ key v, (key, v) ∈ fields →
          (RValue.object members).index sort key = .ok v.readBack := by
        intro key v hmem
        have hfind : sort.find key members = some v.readBack :=
          find_eq_some sort hnodup (hperm.mem_iff.mpr (List.mem_map.mpr ⟨_, hmem, rfl⟩))
        simp only [RValue.index, hfind]
      rw [hread]
      have hname : RValue.s (WValue.readBack (.string name.toList)) = .ok name.toList := by
        show Except.ok (stringValue (escape name.toList)) = _
        rw [stringValue_eq, unescape_escape]
      have hi : RValue.i (WValue.readBack (.int id)) = .ok (clamp id) := by
        show RValue.i (.number (Crow.toString id)) = _
        simp only [RValue.i, lexicalCast_toString]
      have hitems : WValue.readBack (.list (nodeValues iteration children))
          = .list (children.map fun t => (nodeValue iteration t).readBack) := by
        show RValue.list (WValue.readBackItems _) = _
        rw [readBackItems_eq, nodeValues_eq_map, List.map_map]
        rfl
      have hnode := @NodeOf.node sort (.object members) _ _ (clamp id) name.toList _ children
        (hindex idKey _ (by simp [fields])) hi (hindex nameKey _ (by simp [fields])) hname
        (hitems ▸ hindex childrenKey _ (by simp [fields]))
        (List.forall₂_map_left_iff.mpr (List.forall₂_same.mpr hchild))
      rw [hid, String.ofList_toList] at hnode
      exact hnode

/-- A value is read as one tree. -/
theorem NodeOf.unique : ∀ {t t' : Json} {v : RValue}, NodeOf sort v t → NodeOf sort v t' → t = t'
  | .node _ _ children, .node _ _ children', v, h, h' => by
      cases h with
      | node hid hi hname hs hitems hall =>
          cases h' with
          | node hid' hi' hname' hs' hitems' hall' =>
              have hidv := Except.ok.inj (hid.symm.trans hid')
              have hnamev := Except.ok.inj (hname.symm.trans hname')
              have hlist := RValue.list.inj (Except.ok.inj (hitems.symm.trans hitems'))
              subst hidv hnamev hlist
              have hieq := Except.ok.inj (hi.symm.trans hi')
              have hseq := Except.ok.inj (hs.symm.trans hs')
              subst hieq hseq
              have hchild : ∀ t ∈ children, ∀ t' w, NodeOf sort w t → NodeOf sort w t' → t = t' :=
                fun t _ t' w hw hw' => hw.unique hw'
              have hchildren : children = children' := by
                clear hitems hitems'
                induction hall generalizing children' with
                | nil =>
                    cases hall'
                    rfl
                | cons hw _ ih =>
                    cases hall' with
                    | cons hw' hrest' =>
                        rw [hchild _ List.mem_cons_self _ _ hw hw',
                          ih _ hrest' fun t ht => hchild t (List.mem_cons_of_mem _ ht)]
              rw [hchildren]

/-- **A tree of up to 2499 levels is read back from its text**, and nothing else
is. -/
theorem treeText_reads (hlevels : levels t ≤ 2499)
    (hint : ∀ k ∈ t.keys, Tables.intMin ≤ k ∧ k ≤ Tables.intMax) (t' : Json) :
    TextOf sort (treeText iteration t) t' ↔ t' = t := by
  have hload : load (treeText iteration t) = .ok (treeValue iteration t).readBack := by
    rw [treeText, load_dump, if_pos (height_treeValue_le.mpr hlevels)]
  have hvalue : (treeValue iteration t).readBack
      = .object [(treeKey, .list [(nodeValue iteration t).readBack])] := by
    unfold treeValue
    rw [iteration.arrange_singleton]
    rfl
  have hfind : sort.find treeKey [(treeKey, .list [(nodeValue iteration t).readBack])]
      = some (.list [(nodeValue iteration t).readBack]) :=
    find_eq_some sort (List.nodup_singleton _) List.mem_cons_self
  have hindex : (treeValue iteration t).readBack.index sort treeKey
      = .ok (.list [(nodeValue iteration t).readBack]) := by
    rw [hvalue]
    simp only [RValue.index, hfind]
  constructor
  · rintro ⟨v, w, hv, hw, hnode⟩
    obtain rfl := Except.ok.inj (hload.symm.trans hv)
    have hlist := RValue.list.inj (Except.ok.inj (hindex.symm.trans hw))
    obtain rfl := (List.cons.inj hlist).1
    exact hnode.unique (nodeOf_readBack t hint)
  · rintro rfl
    exact ⟨_, _, hload, hindex, nodeOf_readBack t' hint⟩

/-- **A deeper tree has a text that Crow refuses.** -/
theorem treeText_deep (hlevels : 2499 < levels t) (v : RValue) :
    load (treeText iteration t) ≠ .ok v := by
  have hheight : ¬ (treeValue iteration t).height ≤ 5000 := fun h =>
    absurd (height_treeValue_le.mp h) (by omega)
  rw [treeText, load_dump, if_neg hheight]
  intro h
  cases h

end Reading

end ApiSyncer
