/-
  ApiSyncer.Lib.Forest
  ────────────────────
  **CHILD-LIST GRAPHS.**

  A `Forest` is a finite set of keys, each with a label and an ordered list of
  children.  Nothing in the type makes it a forest: `WellFormed` says that no
  list names a missing key and that every key is listed at most once, and
  `Ranked` gives the order that keeps the part below an unlisted root acyclic.

      insert / link / unlink / erase   the four updates
      WellFormed.*                     which updates keep the structure
      Reach.irrefl                     below an unlisted root there is no cycle
      exists_ranked                    an acyclic graph has a rank
      reach_of_listed                  listed keys are reached, up the ranks
      reach_insert_link_self           a new leaf is reached through its parent
-/
import Mathlib.Data.Finset.Card
import Mathlib.Logic.Relation

namespace ApiSyncer.Lib

universe u v

/-- Keys with a label and an ordered child list each. -/
structure Forest (κ : Type u) (ν : Type v) where
  keys : Finset κ
  label : κ → ν
  kids : κ → List κ

variable {κ : Type u} {ν : Type v}

namespace Forest

/-! ## §1. Edges and well-formedness. -/

/-- `p` lists `c`. -/
def Edge (F : Forest κ ν) (p c : κ) : Prop := p ∈ F.keys ∧ c ∈ F.kids p

/-- No key lists `c`. -/
def Unlisted (F : Forest κ ν) (c : κ) : Prop := ∀ p, ¬ F.Edge p c

/-- Every listed key is present and is listed once. -/
structure WellFormed (F : Forest κ ν) : Prop where
  closed : ∀ {p c}, F.Edge p c → c ∈ F.keys
  nodup : ∀ p ∈ F.keys, (F.kids p).Nodup
  parent_unique : ∀ {p q c}, F.Edge p c → F.Edge q c → p = q

theorem WellFormed.unlisted_of_notMem {F : Forest κ ν} (h : F.WellFormed) {c : κ}
    (hc : c ∉ F.keys) : F.Unlisted c :=
  fun _ he => hc (h.closed he)

variable [DecidableEq κ]

/-! ## §2. The updates. -/

/-- A key with no children yet. -/
def insert (k : κ) (v : ν) (F : Forest κ ν) : Forest κ ν where
  keys := Insert.insert k F.keys
  label := Function.update F.label k v
  kids := Function.update F.kids k []

/-- `c` becomes the last child of `p`. -/
def link (p c : κ) (F : Forest κ ν) : Forest κ ν :=
  { F with kids := Function.update F.kids p (F.kids p ++ [c]) }

/-- `c` leaves the child list of `p`. -/
def unlink (p c : κ) (F : Forest κ ν) : Forest κ ν :=
  { F with kids := Function.update F.kids p ((F.kids p).filter (· ≠ c)) }

/-- The key `k` is gone. -/
def erase (k : κ) (F : Forest κ ν) : Forest κ ν :=
  { F with keys := F.keys.erase k }

variable {F : Forest κ ν} {k p q c d : κ} {v : ν}

@[simp] theorem mem_keys_insert : q ∈ (F.insert k v).keys ↔ q = k ∨ q ∈ F.keys :=
  Finset.mem_insert

@[simp] theorem keys_link : (F.link p c).keys = F.keys := rfl

@[simp] theorem keys_unlink : (F.unlink p c).keys = F.keys := rfl

@[simp] theorem mem_keys_erase : q ∈ (F.erase k).keys ↔ q ≠ k ∧ q ∈ F.keys :=
  Finset.mem_erase

@[simp] theorem kids_erase : (F.erase k).kids = F.kids := rfl

@[simp] theorem kids_insert_self : (F.insert k v).kids k = [] :=
  Function.update_self ..

theorem kids_insert_of_ne (h : q ≠ k) : (F.insert k v).kids q = F.kids q :=
  Function.update_of_ne h ..

@[simp] theorem label_insert_self : (F.insert k v).label k = v :=
  Function.update_self ..

theorem label_insert_of_ne (h : q ≠ k) : (F.insert k v).label q = F.label q :=
  Function.update_of_ne h ..

@[simp] theorem kids_link_self : (F.link p c).kids p = F.kids p ++ [c] :=
  Function.update_self ..

theorem kids_link_of_ne (h : q ≠ p) : (F.link p c).kids q = F.kids q :=
  Function.update_of_ne h ..

@[simp] theorem kids_unlink_self :
    (F.unlink p c).kids p = (F.kids p).filter (· ≠ c) :=
  Function.update_self ..

theorem kids_unlink_of_ne (h : q ≠ p) : (F.unlink p c).kids q = F.kids q :=
  Function.update_of_ne h ..

/-- A fresh key lists nothing; the other lists stay. -/
theorem edge_insert : (F.insert k v).Edge q d ↔ q ≠ k ∧ F.Edge q d := by
  unfold Edge
  by_cases h : q = k
  · subst h
    simp
  · simp [h, kids_insert_of_ne h]

theorem edge_link (hp : p ∈ F.keys) :
    (F.link p c).Edge q d ↔ F.Edge q d ∨ (q = p ∧ d = c) := by
  unfold Edge
  by_cases h : q = p
  · subst h
    simp [hp]
  · simp [h, kids_link_of_ne h]

theorem edge_unlink : (F.unlink p c).Edge q d ↔ F.Edge q d ∧ ¬ (q = p ∧ d = c) := by
  unfold Edge
  by_cases h : q = p
  · subst h
    simp [and_assoc]
  · simp [h, kids_unlink_of_ne h]

theorem edge_erase : (F.erase k).Edge q d ↔ q ≠ k ∧ F.Edge q d := by
  unfold Edge
  simp [and_assoc]

/-! ## §3. Which updates keep the structure. -/

namespace WellFormed

theorem insert (h : F.WellFormed) (hk : k ∉ F.keys) (v : ν) :
    (F.insert k v).WellFormed where
  closed he := by
    rw [edge_insert] at he
    exact mem_keys_insert.mpr (Or.inr (h.closed he.2))
  nodup p hp := by
    by_cases hpk : p = k
    · subst hpk
      simp
    · rw [kids_insert_of_ne hpk]
      exact h.nodup p ((mem_keys_insert.mp hp).resolve_left hpk)
  parent_unique he he' := by
    rw [edge_insert] at he he'
    exact h.parent_unique he.2 he'.2

theorem link (h : F.WellFormed) (hp : p ∈ F.keys) (hc : c ∈ F.keys)
    (hu : F.Unlisted c) : (F.link p c).WellFormed where
  closed he := by
    rcases (edge_link hp).mp he with he | ⟨-, rfl⟩
    · exact h.closed he
    · exact hc
  nodup q hq := by
    by_cases hqp : q = p
    · subst hqp
      rw [kids_link_self, List.nodup_append]
      refine ⟨h.nodup q hq, List.nodup_singleton c, ?_⟩
      intro a ha b hb hab
      rw [List.mem_singleton] at hb
      exact hu q ⟨hq, by rw [← hb, ← hab]; exact ha⟩
    · rw [kids_link_of_ne hqp]
      exact h.nodup q hq
  parent_unique he he' := by
    rcases (edge_link hp).mp he with h₁ | ⟨hq₁, hd₁⟩ <;>
      rcases (edge_link hp).mp he' with h₂ | ⟨hq₂, hd₂⟩
    · exact h.parent_unique h₁ h₂
    · rw [hd₂] at h₁
      exact absurd h₁ (hu _)
    · rw [hd₁] at h₂
      exact absurd h₂ (hu _)
    · rw [hq₁, hq₂]

theorem unlink (h : F.WellFormed) (p c : κ) : (F.unlink p c).WellFormed where
  closed he := h.closed (edge_unlink.mp he).1
  nodup q hq := by
    by_cases hqp : q = p
    · subst hqp
      rw [kids_unlink_self]
      exact (h.nodup q hq).filter _
    · rw [kids_unlink_of_ne hqp]
      exact h.nodup q hq
  parent_unique he he' := h.parent_unique (edge_unlink.mp he).1 (edge_unlink.mp he').1

theorem erase (h : F.WellFormed) (hu : F.Unlisted k) : (F.erase k).WellFormed where
  closed he := by
    have hF := (edge_erase.mp he).2
    refine mem_keys_erase.mpr ⟨?_, h.closed hF⟩
    rintro rfl
    exact hu _ hF
  nodup p hp := h.nodup p (mem_keys_erase.mp hp).2
  parent_unique he he' := h.parent_unique (edge_erase.mp he).2 (edge_erase.mp he').2

/-- Once `p`, the only key that can list `c`, has dropped it, nobody lists it. -/
theorem unlisted_unlink (h : ∀ q, F.Edge q c → q = p) : (F.unlink p c).Unlisted c := by
  intro q he
  obtain ⟨hF, hne⟩ := edge_unlink.mp he
  exact hne ⟨h q hF, rfl⟩

end WellFormed

omit [DecidableEq κ]

/-! ## §4. Reachability and ranks. -/

/-- `k` is reached from `r` along child lists. -/
def Reach (F : Forest κ ν) (r k : κ) : Prop := Relation.ReflTransGen F.Edge r k

/-- `rank` grows along every edge that is not a self-loop. -/
def Ranked (F : Forest κ ν) (rank : κ → ℕ) : Prop :=
  ∀ p c, F.Edge p c → p ≠ c → rank p < rank c

namespace Reach

variable {r : κ}

theorem mem_keys (hclosed : ∀ {p c}, F.Edge p c → c ∈ F.keys) (hr : r ∈ F.keys)
    (h : F.Reach r k) : k ∈ F.keys := by
  induction h with
  | refl => exact hr
  | tail _ he _ => exact hclosed he

/-- **A self-looped key is not reached from an unlisted root**: its only lister
is itself, so a path could not enter it. -/
theorem not_self_loop (hw : F.WellFormed) (hr : F.Unlisted r) (h : F.Reach r k) :
    ¬ F.Edge k k := by
  induction h with
  | refl => exact hr r
  | tail _ he ih =>
      intro hloop
      have hbk := hw.parent_unique he hloop
      subst hbk
      exact ih hloop

theorem rank_lt (hw : F.WellFormed) (hr : F.Unlisted r) {rank : κ → ℕ}
    (hrank : F.Ranked rank) (h : F.Reach r p) (he : F.Edge p c) : rank p < rank c := by
  refine hrank p c he ?_
  rintro rfl
  exact h.not_self_loop hw hr he

/-- **Below an unlisted root there is no cycle.** -/
theorem irrefl (hw : F.WellFormed) (hr : F.Unlisted r) {rank : κ → ℕ}
    (hrank : F.Ranked rank) (h : F.Reach r k) : ¬ Relation.TransGen F.Edge k k := by
  have key : ∀ {a}, Relation.TransGen F.Edge k a → F.Reach r a ∧ rank k < rank a := by
    intro a ha
    induction ha with
    | single he =>
        exact ⟨h.tail he, h.rank_lt hw hr hrank he⟩
    | tail _ he ih =>
        exact ⟨ih.1.tail he, ih.2.trans (ih.1.rank_lt hw hr hrank he)⟩
  intro hcycle
  exact Nat.lt_irrefl _ (key hcycle).2

end Reach

/-- Two keys that list disjointly: what is reached from two children of one
acyclic key is reached from only one of them. -/
theorem WellFormed.reach_disjoint (hw : F.WellFormed)
    (hacyc : ∀ x, F.Reach p x → ¬ Relation.TransGen F.Edge x x)
    (hc : F.Edge p c) (hd : F.Edge p d) (hcx : F.Reach c q) (hdx : F.Reach d q) :
    c = d := by
  -- a path into `q` is unique backwards, so one of `c`, `d` is below the other
  have hchain : F.Reach c d ∨ F.Reach d c := by
    induction hcx with
    | refl => exact Or.inr hdx
    | @tail b x hcb hbx ih =>
        rcases Relation.ReflTransGen.cases_tail hdx with h | ⟨b', hdb', hb'x⟩
        · subst h
          exact Or.inl (hcb.tail hbx)
        · have := hw.parent_unique hbx hb'x
          subst this
          exact ih hdb'
  -- the lower one would be entered through `p`, which closes a cycle at `p`
  have hno : ∀ {a b}, F.Edge p a → F.Edge p b → F.Reach a b → a = b := by
    intro a b ha hb hab
    rcases Relation.ReflTransGen.cases_tail hab with h | ⟨m, ham, hmb⟩
    · exact h.symm
    · have := hw.parent_unique hb hmb
      subst this
      exact absurd (Relation.TransGen.head' ha ham) (hacyc p Relation.ReflTransGen.refl)
  rcases hchain with h | h
  · exact hno hc hd h
  · exact (hno hd hc h).symm

/-! ## §5. Acyclic graphs. -/

open Classical in
/-- **An acyclic graph can be ranked**, by the number of keys above a key. -/
theorem exists_ranked (F : Forest κ ν) (hacyc : ∀ k, ¬ Relation.TransGen F.Edge k k) :
    ∃ rank : κ → ℕ, ∀ p c, F.Edge p c → rank p < rank c := by
  refine ⟨fun k => (F.keys.filter fun a => Relation.TransGen F.Edge a k).card, ?_⟩
  intro p c he
  refine Finset.card_lt_card ((Finset.ssubset_iff_of_subset ?_).mpr ⟨p, ?_, ?_⟩)
  · intro a ha
    rw [Finset.mem_filter] at ha ⊢
    exact ⟨ha.1, ha.2.tail he⟩
  · rw [Finset.mem_filter]
    exact ⟨he.1, .single he⟩
  · intro hp
    exact hacyc p (Finset.mem_filter.mp hp).2

/-- **Where every key but the root is listed and edges go up in rank, the root
reaches every key.** -/
theorem reach_of_listed {F : Forest κ ν} {r : κ} {rank : κ → ℕ}
    (hrank : ∀ p c, F.Edge p c → rank p < rank c)
    (hlisted : ∀ k ∈ F.keys, k ≠ r → ∃ p, F.Edge p k) :
    ∀ k ∈ F.keys, F.Reach r k := by
  suffices key : ∀ n k, rank k = n → k ∈ F.keys → F.Reach r k from
    fun k hk => key (rank k) k rfl hk
  intro n
  induction n using Nat.strong_induction_on with
  | _ n ih =>
      intro k hn hk
      by_cases hkr : k = r
      · rw [hkr]
        exact .refl
      · obtain ⟨p, he⟩ := hlisted k hk hkr
        have hlt := hrank p k he
        exact (ih (rank p) (by omega) p rfl he.1).tail he

/-! ## §6. A new leaf. -/

section NewLeaf

variable [DecidableEq κ] {r p q k : κ} {v : ν}

/-- A new leaf gives no old key a new path. -/
theorem reach_insert_link_of_mem (hk : k ∉ F.keys) (hp : p ∈ F.keys) (hq : q ∈ F.keys) :
    ((F.insert k v).link p k).Reach r q ↔ F.Reach r q := by
  have hp' : p ∈ (F.insert k v).keys := mem_keys_insert.mpr (Or.inr hp)
  constructor
  · intro h
    induction h with
    | refl => exact .refl
    | tail _ he ih =>
        rcases (edge_link hp').mp he with he | ⟨-, rfl⟩
        · have hold := (edge_insert.mp he).2
          exact (ih hold.1).tail hold
        · exact absurd hq hk
  · intro h
    induction h with
    | refl => exact .refl
    | tail _ he ih =>
        have hne : ∀ {b}, b ∈ F.keys → b ≠ k := fun hb heq => hk (heq ▸ hb)
        exact (ih he.1).tail ((edge_link hp').mpr (Or.inl (edge_insert.mpr ⟨hne he.1, he⟩)))

/-- **A new leaf is reached exactly when its parent is.** -/
theorem reach_insert_link_self (hw : F.WellFormed) (hk : k ∉ F.keys) (hp : p ∈ F.keys)
    (hr : r ∈ F.keys) : ((F.insert k v).link p k).Reach r k ↔ F.Reach r p := by
  have hp' : p ∈ (F.insert k v).keys := mem_keys_insert.mpr (Or.inr hp)
  rw [← reach_insert_link_of_mem (v := v) hk hp hp]
  constructor
  · intro h
    rcases Relation.ReflTransGen.cases_tail h with heq | ⟨q, hrq, he⟩
    · exact absurd (heq ▸ hr) hk
    · -- the only key that lists the leaf is the parent
      rcases (edge_link hp').mp he with he | ⟨rfl, -⟩
      · exact absurd (edge_insert.mp he).2 (hw.unlisted_of_notMem hk q)
      · exact hrq
  · intro h
    exact h.tail ((edge_link hp').mpr (Or.inr ⟨rfl, rfl⟩))

end NewLeaf

end Forest

end ApiSyncer.Lib
