/-
  ApiSyncer.Lib.Unfold
  ────────────────────
  **UNFOLDING A CHILD-LIST GRAPH INTO A TREE.**

  `unfold` follows child lists with no visited set; the fuel stands for the
  depth of the recursion.  It ends exactly where no cycle is reached, and the
  tree it returns holds the reached keys: in a well-formed graph each once,
  under its only lister.

      unfold_isSome          enough fuel where no cycle is reached
      unfold_eq_none         no fuel is enough where one is
      mem_entries_unfold     the entries of the tree are the reached keys
      nodup_entries_unfold   every reached key is one entry
      mem_edges_unfold       the nesting of the tree is the listing
      unfold_siblingPerm     lists equal up to order unfold to equal trees up to
                             the order of siblings
-/
import ApiSyncer.Lib.Forest
import Mathlib.Data.List.Perm.Basic
import Mathlib.Data.List.Nodup

namespace ApiSyncer.Lib

universe u v

/-! ## §1. Labelled trees. -/

/-- A tree of labelled keys. -/
inductive RoseTree (κ : Type u) (ν : Type v) where
  | node (key : κ) (label : ν) (children : List (RoseTree κ ν))

variable {κ : Type u} {ν : Type v}

namespace RoseTree

def key : RoseTree κ ν → κ
  | node k _ _ => k

def label : RoseTree κ ν → ν
  | node _ v _ => v

def children : RoseTree κ ν → List (RoseTree κ ν)
  | node _ _ ts => ts

mutual
/-- All entries, each before the entries nested under it. -/
def entries : RoseTree κ ν → List (κ × ν)
  | node k v ts => (k, v) :: entriesList ts
def entriesList : List (RoseTree κ ν) → List (κ × ν)
  | [] => []
  | t :: ts => entries t ++ entriesList ts
end

mutual
/-- All direct nestings, as pairs of the outer and the inner key. -/
def edges : RoseTree κ ν → List (κ × κ)
  | node k _ ts => edgesList k ts
def edgesList (k : κ) : List (RoseTree κ ν) → List (κ × κ)
  | [] => []
  | t :: ts => (k, t.key) :: (edges t ++ edgesList k ts)
end

/-- Equal up to the order of siblings, at every depth. -/
inductive SiblingPerm : RoseTree κ ν → RoseTree κ ν → Prop where
  | node {k : κ} {v : ν} {ts us vs : List (RoseTree κ ν)} :
      ts.Perm us → List.Forall₂ SiblingPerm us vs →
      SiblingPerm (node k v ts) (node k v vs)

theorem entriesList_eq_flatMap (ts : List (RoseTree κ ν)) :
    entriesList ts = ts.flatMap entries := by
  induction ts with
  | nil => rfl
  | cons t ts ih =>
      show entries t ++ entriesList ts = _
      rw [ih]
      rfl

theorem entries_node (k : κ) (v : ν) (ts : List (RoseTree κ ν)) :
    entries (node k v ts) = (k, v) :: ts.flatMap entries := by
  show (k, v) :: entriesList ts = _
  rw [entriesList_eq_flatMap]

theorem edges_node (k : κ) (v : ν) (ts : List (RoseTree κ ν)) :
    edges (node k v ts) = ts.flatMap (fun t => (k, t.key) :: edges t) := by
  show edgesList k ts = _
  induction ts with
  | nil => rfl
  | cons t ts ih =>
      show (k, t.key) :: (edges t ++ edgesList k ts) = _
      rw [ih]
      rfl

/-- **Every entry but the root is nested exactly once**: the inner keys of the
nestings are the keys of the entries, less the root. -/
theorem edges_map_snd :
    ∀ t : RoseTree κ ν, t.key :: t.edges.map Prod.snd = t.entries.map Prod.fst
  | node k v ts => by
      rw [edges_node, entries_node]
      show k :: (ts.flatMap fun t => (k, t.key) :: edges t).map Prod.snd
        = k :: (ts.flatMap entries).map Prod.fst
      congr 1
      rw [List.map_flatMap, List.map_flatMap]
      refine List.flatMap_congr fun t ht => ?_
      exact edges_map_snd t

/-- The children of sibling-equal trees carry the same keys, up to order. -/
theorem SiblingPerm.children_keys {t u : RoseTree κ ν} (h : SiblingPerm t u) :
    (t.children.map key).Perm (u.children.map key) := by
  cases h with
  | @node k v ts us vs hperm hall =>
      have hkeys : us.map key = vs.map key := by
        clear hperm
        induction hall with
        | nil => rfl
        | cons hab _ ih =>
            cases hab
            simp [ih, key]
      show (ts.map key).Perm (vs.map key)
      rw [← hkeys]
      exact hperm.map key

end RoseTree

/-! ## §2. The unfolding. -/

/-- A list all of whose elements succeed. -/
theorem mapM_eq_some_iff {α : Type u} {β : Type v} {f : α → Option β} :
    ∀ {l : List α} {r : List β},
      l.mapM f = some r ↔ List.Forall₂ (fun a b => f a = some b) l r
  | [], r => by
      rw [List.mapM_nil, List.forall₂_nil_left_iff]
      show some [] = some r ↔ r = []
      rw [Option.some_inj, eq_comm]
  | a :: l, r => by
      rw [List.mapM_cons, List.forall₂_cons_left_iff]
      constructor
      · intro h
        obtain ⟨b, hb, h⟩ := Option.bind_eq_some_iff.mp h
        obtain ⟨bs, hbs, h⟩ := Option.bind_eq_some_iff.mp h
        exact ⟨b, bs, hb, mapM_eq_some_iff.mp hbs, (Option.some_inj.mp h).symm⟩
      · rintro ⟨b, bs, hb, hbs, rfl⟩
        have hrec := mapM_eq_some_iff.mpr hbs
        simp [hb, hrec]

namespace Forest

variable {F G : Forest κ ν} {rank : κ → ℕ} {r k : κ} {n : ℕ} {t : RoseTree κ ν}

/-- Follow the child lists from a key, at most `n` levels deep. -/
def unfold (F : Forest κ ν) : ℕ → κ → Option (RoseTree κ ν)
  | 0, _ => none
  | n + 1, k => ((F.kids k).mapM (F.unfold n)).map (RoseTree.node k (F.label k))

theorem unfold_succ_eq_some :
    F.unfold (n + 1) k = some t ↔
      ∃ ts, List.Forall₂ (fun c u => F.unfold n c = some u) (F.kids k) ts
        ∧ t = .node k (F.label k) ts := by
  show ((F.kids k).mapM (F.unfold n)).map _ = some t ↔ _
  rw [Option.map_eq_some_iff]
  constructor
  · rintro ⟨ts, hts, rfl⟩
    exact ⟨ts, mapM_eq_some_iff.mp hts, rfl⟩
  · rintro ⟨ts, hts, rfl⟩
    exact ⟨ts, mapM_eq_some_iff.mpr hts, rfl⟩

theorem key_unfold (h : F.unfold n k = some t) : t.key = k := by
  cases n with
  | zero => cases h
  | succ n =>
      obtain ⟨ts, -, rfl⟩ := unfold_succ_eq_some.mp h
      rfl

/-- The outermost children of the tree are the kids of its key. -/
theorem children_keys_unfold (h : F.unfold n k = some t) :
    t.children.map RoseTree.key = F.kids k := by
  cases n with
  | zero => cases h
  | succ n =>
      obtain ⟨ts, hts, rfl⟩ := unfold_succ_eq_some.mp h
      show ts.map RoseTree.key = F.kids k
      clear h
      generalize F.kids k = cs at hts
      induction hts with
      | nil => rfl
      | cons hcu _ ih => rw [List.map_cons, ih, key_unfold hcu]

/-- A member of a list and its image, found through `Forall₂`. -/
theorem exists_of_forall₂_left {α : Type u} {β : Type v} {R : α → β → Prop}
    {l : List α} {m : List β} (h : List.Forall₂ R l m) : ∀ a ∈ l, ∃ b ∈ m, R a b := by
  induction h with
  | nil => simp
  | cons hab _ ih =>
      intro a ha
      rcases List.mem_cons.mp ha with rfl | ha
      · exact ⟨_, List.mem_cons_self, hab⟩
      · obtain ⟨b, hb, hR⟩ := ih a ha
        exact ⟨b, List.mem_cons_of_mem _ hb, hR⟩

theorem exists_of_forall₂_right {α : Type u} {β : Type v} {R : α → β → Prop}
    {l : List α} {m : List β} (h : List.Forall₂ R l m) : ∀ b ∈ m, ∃ a ∈ l, R a b := by
  induction h with
  | nil => simp
  | cons hab _ ih =>
      intro b hb
      rcases List.mem_cons.mp hb with rfl | hb
      · exact ⟨_, List.mem_cons_self, hab⟩
      · obtain ⟨a, ha, hR⟩ := ih b hb
        exact ⟨a, List.mem_cons_of_mem _ ha, hR⟩

/-! ## §3. Enough fuel. -/

/-- Where every kid unfolds, the key does. -/
theorem exists_unfold_succ (h : ∀ c ∈ F.kids k, ∃ u, F.unfold n c = some u) :
    ∃ t, F.unfold (n + 1) k = some t := by
  have hall : ∃ ts, List.Forall₂ (fun c u => F.unfold n c = some u) (F.kids k) ts := by
    generalize F.kids k = cs at h
    induction cs with
    | nil => exact ⟨[], .nil⟩
    | cons c cs ih =>
        obtain ⟨u, hu⟩ := h c List.mem_cons_self
        obtain ⟨us, hus⟩ := ih fun d hd => h d (List.mem_cons_of_mem _ hd)
        exact ⟨u :: us, .cons hu hus⟩
  obtain ⟨ts, hts⟩ := hall
  exact ⟨_, unfold_succ_eq_some.mpr ⟨ts, hts, rfl⟩⟩

open Classical in
/-- **Without a cycle below it a key unfolds**: as many levels as there are keys
are enough. -/
theorem unfold_isSome (hclosed : ∀ {p c}, F.Edge p c → c ∈ F.keys) (hk : k ∈ F.keys)
    (hacyc : ∀ x, F.Reach k x → ¬ Relation.TransGen F.Edge x x) :
    ∃ t, F.unfold (F.keys.card + 1) k = some t := by
  -- a key needs one level more than there are keys below it
  suffices key : ∀ n j, F.Reach k j → j ∈ F.keys →
      (F.keys.filter fun x => Relation.TransGen F.Edge j x).card < n →
      ∃ t, F.unfold n j = some t from
    key _ k .refl hk (Nat.lt_succ_of_le (Finset.card_filter_le _ _))
  intro n
  induction n with
  | zero => exact fun j _ _ hlt => absurd hlt (Nat.not_lt_zero _)
  | succ n ih =>
      intro j hj hjk hlt
      refine exists_unfold_succ fun c hc => ?_
      have he : F.Edge j c := ⟨hjk, hc⟩
      have hck := hclosed he
      refine ih c (hj.tail he) hck (Nat.lt_of_lt_of_le ?_ (Nat.le_of_lt_succ hlt))
      -- below the kid there is all but the kid itself
      refine Finset.card_lt_card ((Finset.ssubset_iff_of_subset ?_).mpr ⟨c, ?_, ?_⟩)
      · intro x hx
        rw [Finset.mem_filter] at hx ⊢
        exact ⟨hx.1, .head he hx.2⟩
      · exact Finset.mem_filter.mpr ⟨hck, .single he⟩
      · intro hcycle
        exact hacyc c (hj.tail he) (Finset.mem_filter.mp hcycle).2

/-- What is below a key that unfolds, unfolds in fewer levels. -/
theorem unfold_below {c : κ} (h : F.unfold n k = some t) (hpath : Relation.TransGen F.Edge k c) :
    ∃ m u, m < n ∧ F.unfold m c = some u := by
  have hkid : ∀ {n p c t}, F.unfold n p = some t → F.Edge p c →
      ∃ m u, m < n ∧ F.unfold m c = some u := by
    intro n p c t h he
    cases n with
    | zero => cases h
    | succ n =>
        obtain ⟨ts, hts, -⟩ := unfold_succ_eq_some.mp h
        obtain ⟨u, -, hu⟩ := exists_of_forall₂_left hts c he.2
        exact ⟨n, u, Nat.lt_succ_self n, hu⟩
  induction hpath with
  | single he => exact hkid h he
  | tail _ he ih =>
      obtain ⟨m, u, hlt, hu⟩ := ih
      obtain ⟨m', u', hlt', hu'⟩ := hkid hu he
      exact ⟨m', u', hlt'.trans hlt, hu'⟩

/-- **Above a cycle no key unfolds**, however many levels are allowed. -/
theorem unfold_eq_none {x : κ} (hreach : F.Reach k x) (hcycle : Relation.TransGen F.Edge x x)
    (n : ℕ) : F.unfold n k = none := by
  -- along the cycle it would unfold in ever fewer levels
  have hx : ∀ n t, F.unfold n x ≠ some t := by
    intro n
    induction n using Nat.strong_induction_on with
    | _ n ih =>
        intro t h
        obtain ⟨m, u, hlt, hu⟩ := unfold_below h hcycle
        exact ih m hlt u hu
  rw [Option.eq_none_iff_forall_ne_some]
  intro t h
  rcases Relation.reflTransGen_iff_eq_or_transGen.mp hreach with rfl | hpath
  · exact hx n t h
  · obtain ⟨m, u, -, hu⟩ := unfold_below h hpath
    exact hx m u hu

/-- More fuel does not change an unfolding that has returned. -/
theorem unfold_mono {m : ℕ} (hnm : n ≤ m) :
    ∀ {k t}, F.unfold n k = some t → F.unfold m k = some t := by
  induction n generalizing m with
  | zero => intro k t h; cases h
  | succ n ih =>
      intro k t h
      obtain ⟨m, rfl⟩ : ∃ m', m = m' + 1 := ⟨m - 1, by omega⟩
      obtain ⟨ts, hts, rfl⟩ := unfold_succ_eq_some.mp h
      exact unfold_succ_eq_some.mpr
        ⟨ts, hts.imp fun c u hc => ih (by omega) hc, rfl⟩

/-! ## §4. What the tree contains. -/

/-- **The entries are the reached keys**, each with its label. -/
theorem mem_entries_unfold (hclosed : ∀ {p c}, F.Edge p c → c ∈ F.keys) (hk : k ∈ F.keys)
    (h : F.unfold n k = some t) (j : κ) (l : ν) :
    (j, l) ∈ t.entries ↔ F.Reach k j ∧ l = F.label j := by
  induction n generalizing k t with
  | zero => cases h
  | succ n ih =>
      obtain ⟨ts, hts, rfl⟩ := unfold_succ_eq_some.mp h
      rw [RoseTree.entries_node, List.mem_cons, List.mem_flatMap]
      constructor
      · rintro (heq | ⟨u, hu, hmem⟩)
        · cases heq
          exact ⟨.refl, rfl⟩
        · obtain ⟨c, hc, hcu⟩ := exists_of_forall₂_right hts u hu
          have he : F.Edge k c := ⟨hk, hc⟩
          obtain ⟨hreach, hl⟩ := (ih (hclosed he) hcu).mp hmem
          exact ⟨Relation.ReflTransGen.head he hreach, hl⟩
      · rintro ⟨hreach, rfl⟩
        rcases Relation.ReflTransGen.cases_head hreach with rfl | ⟨c, he, hcj⟩
        · exact Or.inl rfl
        · obtain ⟨u, hu, hcu⟩ := exists_of_forall₂_left hts c he.2
          exact Or.inr ⟨u, hu, (ih (hclosed he) hcu).mpr ⟨hcj, rfl⟩⟩

/-- **Every reached key is rendered once.** -/
theorem nodup_entries_unfold (hw : F.WellFormed) (hk : k ∈ F.keys)
    (hacyc : ∀ x, F.Reach k x → ¬ Relation.TransGen F.Edge x x)
    (h : F.unfold n k = some t) : (t.entries.map Prod.fst).Nodup := by
  induction n generalizing k t with
  | zero => cases h
  | succ n ih =>
      obtain ⟨ts, hts, rfl⟩ := unfold_succ_eq_some.mp h
      rw [RoseTree.entries_node]
      show (k :: (ts.flatMap RoseTree.entries).map Prod.fst).Nodup
      -- the keys of a subtree are reached from its own
      have hmem : ∀ {c u}, F.Edge k c → F.unfold n c = some u →
          ∀ x ∈ u.entries.map Prod.fst, F.Reach c x := by
        intro c u he hu x hx
        obtain ⟨⟨j, l⟩, hjl, rfl⟩ := List.mem_map.mp hx
        exact ((mem_entries_unfold hw.closed (hw.closed he) hu j l).mp hjl).1
      rw [List.nodup_cons, List.map_flatMap]
      constructor
      · intro hcon
        obtain ⟨u, hu, hku⟩ := List.mem_flatMap.mp hcon
        obtain ⟨c, hc, hcu⟩ := exists_of_forall₂_right hts u hu
        have he : F.Edge k c := ⟨hk, hc⟩
        exact hacyc k .refl (Relation.TransGen.head' he (hmem he hcu k hku))
      · rw [List.nodup_flatMap]
        constructor
        · intro u hu
          obtain ⟨c, hc, hcu⟩ := exists_of_forall₂_right hts u hu
          have he : F.Edge k c := ⟨hk, hc⟩
          exact ih (hw.closed he)
            (fun x hx => hacyc x (Relation.ReflTransGen.head he hx)) hcu
        · -- the subtrees of two different children share no key
          have hedges : ∀ c ∈ F.kids k, F.Edge k c := fun c hc => ⟨hk, hc⟩
          have hnodup := hw.nodup k hk
          generalize F.kids k = cs at hts hedges hnodup
          clear h
          induction hts with
          | nil => exact List.Pairwise.nil
          | @cons c u cs us hcu hrest ihrest =>
              rw [List.nodup_cons] at hnodup
              have hec := hedges c List.mem_cons_self
              refine List.Pairwise.cons ?_
                (ihrest (fun d hd => hedges d (List.mem_cons_of_mem _ hd)) hnodup.2)
              intro w hw' x hx hxw
              obtain ⟨d, hd, hdw⟩ := exists_of_forall₂_right hrest w hw'
              have hed := hedges d (List.mem_cons_of_mem _ hd)
              have hcd := hw.reach_disjoint hacyc hec hed (hmem hec hcu x hx)
                (hmem hed hdw x hxw)
              exact hnodup.1 (hcd ▸ hd)

/-- **The nesting of the tree is the listing of the graph**, on what the root
reaches. -/
theorem mem_edges_unfold (hclosed : ∀ {p c}, F.Edge p c → c ∈ F.keys) (hk : k ∈ F.keys)
    (h : F.unfold n k = some t) (p c : κ) :
    (p, c) ∈ t.edges ↔ F.Reach k p ∧ F.Edge p c := by
  induction n generalizing k t with
  | zero => cases h
  | succ n ih =>
      obtain ⟨ts, hts, rfl⟩ := unfold_succ_eq_some.mp h
      rw [RoseTree.edges_node, List.mem_flatMap]
      constructor
      · rintro ⟨u, hu, hmem⟩
        obtain ⟨d, hd, hdu⟩ := exists_of_forall₂_right hts u hu
        have he : F.Edge k d := ⟨hk, hd⟩
        rcases List.mem_cons.mp hmem with heq | hmem
        · rw [key_unfold hdu] at heq
          cases heq
          exact ⟨.refl, he⟩
        · obtain ⟨hreach, hpc⟩ := (ih (hclosed he) hdu).mp hmem
          exact ⟨Relation.ReflTransGen.head he hreach, hpc⟩
      · rintro ⟨hreach, hpc⟩
        rcases Relation.ReflTransGen.cases_head hreach with rfl | ⟨d, he, hdp⟩
        · obtain ⟨u, hu, hcu⟩ := exists_of_forall₂_left hts c hpc.2
          exact ⟨u, hu, by rw [key_unfold hcu]; exact List.mem_cons_self⟩
        · obtain ⟨u, hu, hdu⟩ := exists_of_forall₂_left hts d he.2
          exact ⟨u, hu, List.mem_cons_of_mem _ ((ih (hclosed he) hdu).mpr ⟨hdp, hpc⟩)⟩

/-! ## §5. Equal trees up to the order of siblings. -/

/-- **Two graphs whose reached lists agree up to order unfold to the same tree
up to the order of siblings.** -/
theorem unfold_siblingPerm (hw : F.WellFormed) (hk : k ∈ F.keys)
    (hsame : ∀ j, F.Reach k j → F.label j = G.label j ∧ (F.kids j).Perm (G.kids j))
    (h : F.unfold n k = some t) : ∃ u, G.unfold n k = some u ∧ t.SiblingPerm u := by
  induction n generalizing k t with
  | zero => cases h
  | succ n ih =>
      obtain ⟨ts, hts, rfl⟩ := unfold_succ_eq_some.mp h
      obtain ⟨hlabel, hperm⟩ := hsame k .refl
      -- reorder the subtrees as `G` lists them, then unfold each of them in `G`
      obtain ⟨us, hus, hperm'⟩ := List.perm_comp_forall₂ hperm.symm hts
      have hall : ∀ {cs us}, List.Forall₂ (fun c u => F.unfold n c = some u) cs us →
          (∀ c ∈ cs, F.Edge k c) →
          ∃ vs, List.Forall₂ (fun c w => G.unfold n c = some w) cs vs
            ∧ List.Forall₂ RoseTree.SiblingPerm us vs := by
        intro cs us hcs hedges
        induction hcs with
        | nil => exact ⟨[], .nil, .nil⟩
        | @cons c u cs us hcu _ ihcs =>
            have he := hedges c List.mem_cons_self
            obtain ⟨w, hw', hsim⟩ := ih (hw.closed he)
              (fun j hj => hsame j (Relation.ReflTransGen.head he hj)) hcu
            obtain ⟨vs, hvs, hsims⟩ := ihcs
              (fun d hd => hedges d (List.mem_cons_of_mem _ hd))
            exact ⟨w :: vs, .cons hw' hvs, .cons hsim hsims⟩
      obtain ⟨vs, hvs, hsims⟩ := hall hus fun c hc => ⟨hk, hperm.mem_iff.mpr hc⟩
      refine ⟨.node k (F.label k) vs, ?_, .node hperm'.symm hsims⟩
      exact unfold_succ_eq_some.mpr ⟨vs, hvs, by rw [hlabel]⟩

end Forest

end ApiSyncer.Lib
