/-
  ApiSyncer.Lib.Leaf
  ──────────────────
  **ONE LEAF MORE, ONE LEAF LESS.**

  A graph that changes by a leaf unfolds to a tree that changes by that leaf:
  the updates of the graph are carried over to two operations on trees.

      unfold_insert_link    a new leaf in the graph is grafted on the tree
      unfold_unlink_erase   a leaf that leaves the graph is pruned from the tree
      entries_graft         the entries of the tree, with one more
      entries_prune         the entries of the pruned tree
-/
import ApiSyncer.Lib.Unfold

namespace ApiSyncer.Lib

universe u v

variable {κ : Type u} {ν : Type v} [DecidableEq κ]

/-! ## §1. Grafting and pruning. -/

namespace RoseTree

mutual
/-- A new leaf, the last child of every node with the key `p`. -/
def graft (p k : κ) (v : ν) : RoseTree κ ν → RoseTree κ ν
  | node a l ts => node a l (graftList p k v ts ++ if a = p then [node k v []] else [])
def graftList (p k : κ) (v : ν) : List (RoseTree κ ν) → List (RoseTree κ ν)
  | [] => []
  | t :: ts => graft p k v t :: graftList p k v ts
end

mutual
/-- Without the subtrees whose key is `k`; the outermost node stays. -/
def prune (k : κ) : RoseTree κ ν → RoseTree κ ν
  | node a l ts => node a l (pruneList k ts)
def pruneList (k : κ) : List (RoseTree κ ν) → List (RoseTree κ ν)
  | [] => []
  | t :: ts => if t.key = k then pruneList k ts else prune k t :: pruneList k ts
end

/-- The keys of the tree. -/
def keys (t : RoseTree κ ν) : List κ := t.entries.map Prod.fst

variable {p k a : κ} {v l : ν} {t : RoseTree κ ν}

theorem graftList_eq_map (ts : List (RoseTree κ ν)) :
    graftList p k v ts = ts.map (graft p k v) := by
  induction ts with
  | nil => rfl
  | cons t ts ih => rw [graftList, ih, List.map_cons]

theorem pruneList_eq_map (ts : List (RoseTree κ ν)) :
    pruneList k ts = (ts.filter fun t => t.key ≠ k).map (prune k) := by
  induction ts with
  | nil => rfl
  | cons t ts ih =>
      rw [pruneList, ih, List.filter_cons]
      by_cases h : t.key = k <;> simp [h]

theorem key_prune (t : RoseTree κ ν) : (t.prune k).key = t.key := by
  obtain ⟨a, l, ts⟩ := t
  rfl

omit [DecidableEq κ] in
theorem keys_node (a : κ) (l : ν) (ts : List (RoseTree κ ν)) :
    keys (node a l ts) = a :: ts.flatMap keys := by
  unfold keys
  rw [entries_node, List.map_cons, List.map_flatMap]

omit [DecidableEq κ] in
theorem key_mem_keys (t : RoseTree κ ν) : t.key ∈ t.keys := by
  obtain ⟨a, l, ts⟩ := t
  rw [keys_node]
  exact List.mem_cons_self

/-! ## §2. The entries after it. -/

/-- Nothing is grafted where the parent is not in the tree. -/
theorem graft_of_notMem : ∀ t : RoseTree κ ν, p ∉ t.keys → t.graft p k v = t
  | node a l ts, h => by
      rw [keys_node, List.mem_cons, not_or] at h
      obtain ⟨ha, hts⟩ := h
      have hmap : ts.map (graft p k v) = ts := by
        refine (List.map_congr_left fun t ht => ?_).trans (List.map_id ts)
        exact graft_of_notMem t fun hp => hts (List.mem_flatMap.mpr ⟨t, ht, hp⟩)
      rw [graft, graftList_eq_map, hmap, if_neg (Ne.symm ha), List.append_nil]

/-- **One more entry**, if the parent is in the tree once. -/
theorem entries_graft : ∀ t : RoseTree κ ν, t.keys.Nodup → p ∈ t.keys →
    (t.graft p k v).entries.Perm ((k, v) :: t.entries)
  | node a l ts, hnodup, hp => by
      rw [keys_node, List.nodup_cons] at hnodup
      obtain ⟨ha, hts⟩ := hnodup
      rw [graft, graftList_eq_map, entries_node, entries_node, List.flatMap_append]
      by_cases hap : a = p
      · -- the parent is the outermost node, so it is none of the others
        subst hap
        have hmap : ts.map (graft a k v) = ts := by
          refine (List.map_congr_left fun t ht => ?_).trans (List.map_id ts)
          exact graft_of_notMem t fun hmem => ha (List.mem_flatMap.mpr ⟨t, ht, hmem⟩)
        rw [hmap, if_pos rfl]
        have hone : [node k v []].flatMap entries = [(k, v)] := by
          simp [entries_node]
        rw [hone]
        refine List.Perm.trans ?_ (List.Perm.swap _ _ _)
        exact (List.perm_append_comm).cons _
      -- it is in one of the children, and by `hts` in no other
      · rw [if_neg hap, List.flatMap_nil, List.append_nil]
        rw [keys_node, List.mem_cons] at hp
        have hp' : p ∈ ts.flatMap keys := hp.resolve_left fun heq => hap heq.symm
        have hchild : ∀ t ∈ ts, t.keys.Nodup → p ∈ t.keys →
            (t.graft p k v).entries.Perm ((k, v) :: t.entries) := fun t _ => entries_graft t
        have hrest : ((ts.map (graft p k v)).flatMap entries).Perm
            ((k, v) :: ts.flatMap entries) := by
          clear ha hp
          induction ts with
          | nil => cases hp'
          | cons t ts ih =>
              rw [List.flatMap_cons, List.nodup_append] at hts
              obtain ⟨ht, hrest, hdisjoint⟩ := hts
              rw [List.flatMap_cons, List.mem_append] at hp'
              rw [List.map_cons, List.flatMap_cons, List.flatMap_cons]
              by_cases hpt : p ∈ t.keys
              · have hothers : ts.map (graft p k v) = ts := by
                  refine (List.map_congr_left fun u hu => ?_).trans (List.map_id ts)
                  refine graft_of_notMem u fun hmem => ?_
                  exact hdisjoint p hpt p (List.mem_flatMap.mpr ⟨u, hu, hmem⟩) rfl
                rw [hothers]
                exact (hchild t List.mem_cons_self ht hpt).append_right _
              · rw [graft_of_notMem t hpt]
                have hothers := ih hrest (hp'.resolve_left hpt)
                  fun u hu => hchild u (List.mem_cons_of_mem _ hu)
                refine (hothers.append_left _).trans ?_
                exact List.perm_middle
        exact (hrest.cons _).trans (List.Perm.swap _ _ _)

/-- A key is a leaf of the tree, and not its outermost node. -/
def IsLeaf (k : κ) (t : RoseTree κ ν) : Prop := t.key ≠ k ∧ ∀ c, (k, c) ∉ t.edges

omit [DecidableEq κ] in
/-- Where the leaf is, there is nothing below it. -/
theorem IsLeaf.child {ts : List (RoseTree κ ν)} (h : IsLeaf k (node a l ts)) (ht : t ∈ ts)
    (hkey : t.key = k) : t = node k t.label [] := by
  obtain ⟨b, m, us⟩ := t
  have hb : b = k := hkey
  subst hb
  cases us with
  | nil => rfl
  | cons u us =>
      refine absurd ?_ (h.2 u.key)
      rw [edges_node]
      refine List.mem_flatMap.mpr ⟨_, ht, List.mem_cons_of_mem _ ?_⟩
      rw [edges_node, List.flatMap_cons]
      exact List.mem_append_left _ List.mem_cons_self

omit [DecidableEq κ] in
theorem IsLeaf.below {ts : List (RoseTree κ ν)} (h : IsLeaf k (node a l ts)) (ht : t ∈ ts)
    (hkey : t.key ≠ k) : IsLeaf k t := by
  refine ⟨hkey, fun c hc => h.2 c ?_⟩
  rw [edges_node]
  exact List.mem_flatMap.mpr ⟨t, ht, List.mem_cons_of_mem _ hc⟩

/-- **The entries of the leaf are gone**, and no others. -/
theorem entries_prune : ∀ t : RoseTree κ ν, IsLeaf k t →
    (t.prune k).entries = t.entries.filter fun e => e.1 ≠ k
  | node a l ts, h => by
      have ha : a ≠ k := h.1
      have hchild : ∀ t ∈ ts, t.key = k → t = node k t.label [] := fun t ht => h.child ht
      have hprune : ∀ t ∈ ts, t.key ≠ k → (t.prune k).entries = t.entries.filter fun e => e.1 ≠ k :=
        fun t ht hkey => entries_prune t (h.below ht hkey)
      rw [prune, pruneList_eq_map, entries_node, entries_node, List.filter_cons,
        if_pos (by simpa using ha)]
      congr 1
      clear h ha
      induction ts with
      | nil => rfl
      | cons t ts ih =>
          have hih := ih (fun u hu => hchild u (List.mem_cons_of_mem _ hu))
            fun u hu => hprune u (List.mem_cons_of_mem _ hu)
          rw [List.flatMap_cons, List.filter_append, ← hih, List.filter_cons]
          by_cases hkey : t.key = k
          · rw [if_neg (by simpa using hkey), hchild t List.mem_cons_self hkey, entries_node]
            simp
          · rw [if_pos (by simpa using hkey), List.map_cons, List.flatMap_cons,
              hprune t List.mem_cons_self hkey]

/-! ## §3. The nestings after it. -/

theorem key_graft (t : RoseTree κ ν) : (t.graft p k v).key = t.key := by
  obtain ⟨a, l, ts⟩ := t
  rfl

/-- **One more nesting**, below the parent. -/
theorem mem_edges_graft : ∀ (t : RoseTree κ ν) (q c : κ),
    (q, c) ∈ (t.graft p k v).edges ↔ (q, c) ∈ t.edges ∨ p ∈ t.keys ∧ q = p ∧ c = k
  | node a l ts, q, c => by
      have hchild : ∀ t ∈ ts, ((q, c) ∈ (t.graft p k v).edges
          ↔ (q, c) ∈ t.edges ∨ p ∈ t.keys ∧ q = p ∧ c = k) := fun t _ => mem_edges_graft t q c
      rw [graft, graftList_eq_map, edges_node, edges_node, keys_node, List.flatMap_append,
        List.mem_append]
      have hnew : (q, c) ∈ (if a = p then [node k v []] else []).flatMap
          (fun t => (a, t.key) :: t.edges) ↔ a = p ∧ q = p ∧ c = k := by
        by_cases hap : a = p
        · subst hap
          simp [edges_node, key]
        · simp [hap]
      have hold : (q, c) ∈ (ts.map (graft p k v)).flatMap (fun t => (a, t.key) :: t.edges)
          ↔ (q, c) ∈ ts.flatMap (fun t => (a, t.key) :: t.edges)
            ∨ p ∈ ts.flatMap keys ∧ q = p ∧ c = k := by
        clear hnew
        induction ts with
        | nil => simp
        | cons t ts ih =>
            have hih := ih fun u hu => hchild u (List.mem_cons_of_mem _ hu)
            rw [List.map_cons, List.flatMap_cons, List.flatMap_cons, List.flatMap_cons,
              List.mem_append, List.mem_append, List.mem_append, hih, List.mem_cons, List.mem_cons,
              key_graft, hchild t List.mem_cons_self, or_and_right]
            simp only [or_assoc, or_left_comm]
      rw [hnew, hold, List.mem_cons]
      constructor
      · rintro ((h | ⟨hp, hq⟩) | ⟨ha, hq⟩)
        · exact Or.inl h
        · exact Or.inr ⟨Or.inr hp, hq⟩
        · exact Or.inr ⟨Or.inl ha.symm, hq⟩
      · rintro (h | ⟨hp | hp, hq⟩)
        · exact Or.inl (Or.inl h)
        · exact Or.inr ⟨hp.symm, hq⟩
        · exact Or.inl (Or.inr ⟨hp, hq⟩)

/-- The entries of the grafted tree, whether or not the parent is in it. -/
theorem mem_entries_graft (hnodup : t.keys.Nodup) (e : κ × ν) :
    e ∈ (t.graft p k v).entries ↔ e ∈ t.entries ∨ p ∈ t.keys ∧ e = (k, v) := by
  by_cases hp : p ∈ t.keys
  · rw [(entries_graft t hnodup hp).mem_iff, List.mem_cons]
    constructor
    · rintro (h | h)
      · exact Or.inr ⟨hp, h⟩
      · exact Or.inl h
    · rintro (h | ⟨-, h⟩)
      · exact Or.inr h
      · exact Or.inl h
  · rw [graft_of_notMem t hp]
    constructor
    · exact Or.inl
    · rintro (h | ⟨h, -⟩)
      · exact h
      · exact absurd h hp

/-- **The nesting of the leaf is gone**, and no other. -/
theorem edges_prune : ∀ t : RoseTree κ ν, IsLeaf k t →
    (t.prune k).edges = t.edges.filter fun e => e.2 ≠ k
  | node a l ts, h => by
      have hchild : ∀ t ∈ ts, t.key = k → t = node k t.label [] := fun t ht => h.child ht
      have hprune : ∀ t ∈ ts, t.key ≠ k → (t.prune k).edges = t.edges.filter fun e => e.2 ≠ k :=
        fun t ht hkey => edges_prune t (h.below ht hkey)
      rw [prune, pruneList_eq_map, edges_node, edges_node]
      clear h
      induction ts with
      | nil => rfl
      | cons t ts ih =>
          have hih := ih (fun u hu => hchild u (List.mem_cons_of_mem _ hu))
            fun u hu => hprune u (List.mem_cons_of_mem _ hu)
          rw [List.flatMap_cons, List.filter_append, ← hih, List.filter_cons]
          by_cases hkey : t.key = k
          · rw [if_neg (by simpa using hkey), hchild t List.mem_cons_self hkey, edges_node]
            simp [key]
          · rw [if_pos (by simpa using hkey), List.map_cons, List.flatMap_cons, key_prune,
              hprune t List.mem_cons_self hkey]
            simp [hkey]

end RoseTree

/-! ## §4. Unfolding the updated graph. -/

namespace Forest

variable {F : Forest κ ν} {r p q k c : κ} {v : ν} {n : ℕ} {t : RoseTree κ ν}

theorem forall₂_map_right {α : Type u} {β γ : Type v} {R : α → β → Prop} {S : α → γ → Prop}
    {g : β → γ} {l : List α} {m : List β} (h : List.Forall₂ R l m)
    (hg : ∀ a ∈ l, ∀ b, R a b → S a (g b)) : List.Forall₂ S l (m.map g) := by
  induction h with
  | nil => exact .nil
  | cons hab _ ih =>
      refine .cons (hg _ List.mem_cons_self _ hab) (ih fun a ha => ?_)
      exact hg a (List.mem_cons_of_mem _ ha)

/-- **A new leaf in the graph is grafted on the tree.** -/
theorem unfold_insert_link (hw : F.WellFormed) (hk : k ∉ F.keys) (hp : p ∈ F.keys)
    (hr : r ∈ F.keys) (h : F.unfold n r = some t) :
    ((F.insert k v).link p k).unfold (n + 1) r = some (t.graft p k v) := by
  have hpk : p ≠ k := fun heq => hk (heq ▸ hp)
  have hleaf : ∀ m, ((F.insert k v).link p k).unfold (m + 1) k = some (.node k v []) := by
    intro m
    refine unfold_succ_eq_some.mpr ⟨[], ?_, ?_⟩
    · rw [kids_link_of_ne hpk.symm, kids_insert_self]
      exact .nil
    · show _ = RoseTree.node k ((F.insert k v).label k) []
      rw [label_insert_self]
  induction n generalizing r t with
  | zero => cases h
  | succ n ih =>
      obtain ⟨ts, hts, rfl⟩ := unfold_succ_eq_some.mp h
      have hrk : r ≠ k := fun heq => hk (heq ▸ hr)
      have hold : List.Forall₂
          (fun c u => ((F.insert k v).link p k).unfold (n + 1) c = some u) (F.kids r)
          (ts.map (RoseTree.graft p k v)) :=
        forall₂_map_right hts fun c hc u hu => ih (hw.closed ⟨hr, hc⟩) hu
      refine unfold_succ_eq_some.mpr
        ⟨ts.map (RoseTree.graft p k v) ++ if r = p then [.node k v []] else [], ?_, ?_⟩
      · by_cases hrp : r = p
        · subst hrp
          rw [kids_link_self, kids_insert_of_ne hrk, if_pos rfl]
          exact List.rel_append hold (.cons (hleaf n) .nil)
        · rw [kids_link_of_ne hrp, kids_insert_of_ne hrk, if_neg hrp, List.append_nil]
          exact hold
      · rw [RoseTree.graft, RoseTree.graftList_eq_map]
        show _ = RoseTree.node r ((F.insert k v).label r) _
        rw [label_insert_of_ne hrk]

omit [DecidableEq κ] in
/-- A graph that is the same on the keys of another unfolds to the same tree. -/
theorem unfold_of_same {G : Forest κ ν} (hw : F.WellFormed)
    (hsame : ∀ j ∈ F.keys, G.label j = F.label j ∧ G.kids j = F.kids j) (hr : r ∈ F.keys)
    (h : F.unfold n r = some t) : G.unfold n r = some t := by
  induction n generalizing r t with
  | zero => cases h
  | succ n ih =>
      obtain ⟨ts, hts, rfl⟩ := unfold_succ_eq_some.mp h
      obtain ⟨hlabel, hkids⟩ := hsame r hr
      refine unfold_succ_eq_some.mpr ⟨ts, ?_, by rw [hlabel]⟩
      rw [hkids]
      have hmap := forall₂_map_right (S := fun c u => G.unfold n c = some u) (g := id) hts
        fun c hc u hu => ih (hw.closed ⟨hr, hc⟩) hu
      rwa [List.map_id] at hmap

/-- A new key that nothing lists is not in the tree. -/
theorem unfold_insert (hw : F.WellFormed) (hk : k ∉ F.keys) (hr : r ∈ F.keys)
    (h : F.unfold n r = some t) : (F.insert k v).unfold n r = some t := by
  refine unfold_of_same hw (fun j hj => ?_) hr h
  have hjk : j ≠ k := fun heq => hk (heq ▸ hj)
  exact ⟨label_insert_of_ne hjk, kids_insert_of_ne hjk⟩

/-- A new key that only it itself lists is not in the tree. -/
theorem unfold_insert_loop (hw : F.WellFormed) (hk : k ∉ F.keys) (hr : r ∈ F.keys)
    (h : F.unfold n r = some t) : ((F.insert k v).link k k).unfold n r = some t := by
  refine unfold_of_same hw (fun j hj => ?_) hr h
  have hjk : j ≠ k := fun heq => hk (heq ▸ hj)
  exact ⟨label_insert_of_ne hjk, (kids_link_of_ne hjk).trans (kids_insert_of_ne hjk)⟩

/-- **What leaves the only list it is on is pruned from the tree.** -/
theorem unfold_unlink (hw : F.WellFormed) (hlister : ∀ q, F.Edge q k → q = p) (hr : r ∈ F.keys)
    (h : F.unfold n r = some t) : (F.unlink p k).unfold n r = some (t.prune k) := by
  induction n generalizing r t with
  | zero => cases h
  | succ n ih =>
      obtain ⟨ts, hts, rfl⟩ := unfold_succ_eq_some.mp h
      have hkids : (F.unlink p k).kids r = (F.kids r).filter (· ≠ k) := by
        by_cases hrp : r = p
        · subst hrp
          exact kids_unlink_self
        · rw [kids_unlink_of_ne hrp, List.filter_eq_self.mpr]
          intro c hc
          have hck : c ≠ k := fun heq => hrp (hlister r (heq ▸ ⟨hr, hc⟩))
          simpa using hck
      refine unfold_succ_eq_some.mpr ⟨RoseTree.pruneList k ts, ?_, rfl⟩
      rw [hkids]
      have hedges : ∀ c ∈ F.kids r, F.Edge r c := fun c hc => ⟨hr, hc⟩
      generalize F.kids r = cs at hts hedges
      clear h
      induction hts with
      | nil => exact .nil
      | @cons c u cs us hcu _ ihrest =>
          have hrest := ihrest fun d hd => hedges d (List.mem_cons_of_mem _ hd)
          rw [List.filter_cons, RoseTree.pruneList, key_unfold hcu]
          by_cases hck : c = k
          · rw [if_neg (by simpa using hck), if_pos hck]
            exact hrest
          · rw [if_pos (by simpa using hck), if_neg hck]
            exact .cons (ih (hw.closed (hedges c List.mem_cons_self)) hcu) hrest

/-- Taking a key that nothing lists out of the map changes no tree. -/
theorem unfold_erase : (F.erase k).unfold n r = F.unfold n r := by
  induction n generalizing r with
  | zero => rfl
  | succ n ih =>
      show ((F.kids r).mapM ((F.erase k).unfold n)).map _ = ((F.kids r).mapM (F.unfold n)).map _
      rw [funext fun c => @ih c]
      rfl

end Forest

end ApiSyncer.Lib
