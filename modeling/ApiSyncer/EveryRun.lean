/-
  ApiSyncer.EveryRun
  ──────────────────
  **WHAT HOLDS IN EVERY STATE OF EVERY RUN.**

  Runs of `addNode`, `removeNode`, reads and restarts from empty tables, with
  any pattern of failing database calls and any restart whose constructor
  returns, cut short by an exception or not.

      Sound.of_run             the invariant
      children_live            every listed node is live and listed once
      apiTree_terminates       the recursion of `nodeToJson` ends
-/
import ApiSyncer.Invariant

namespace ApiSyncer

open ApiSyncer.Lib

variable {mysql : MySQL} {s s' : State}

/-! ## §1. Every step keeps the invariant. -/

/-- **What `addNode` does to the graph**: where it returns -1 nothing, or it
leaves a node that nobody lists; else the new node is under its parent. -/
theorem Holds.addExit {F : Forest Int String} {addr : Int → Addr} {rank : Int → ℕ} {bound : ℕ}
    {name : String} {parent_id r : Int} {env : Env} (h : Holds s F addr rank bound)
    (hexit : AddExit mysql name parent_id env s r s') :
    ∃ F' addr' rank' bound', Holds s' F' addr' rank' bound'
      ∧ (r = -1 ∧ (F' = F ∨ ∃ new_id, new_id ∉ F.keys ∧ F' = F.insert new_id name)
        ∨ r ≠ -1 ∧ r ∉ F.keys ∧ parent_id ∈ (F.insert r name).keys
          ∧ F' = (F.insert r name).link parent_id r) := by
  cases hexit with
  | insertRefused =>
      exact ⟨F, addr, rank, bound, (h.control rfl).control rfl, Or.inl ⟨rfl, Or.inl rfl⟩⟩
  | idLost hi =>
      -- the row is there and the map does not know its id
      exact ⟨_, _, _, _, h.inserted hi, Or.inl ⟨rfl, Or.inl rfl⟩⟩
  | relationshipRefused hi =>
      have hnew := h.new_id_notMem hi
      exact ⟨_, _, _, _, (h.stored hi).control rfl, Or.inl ⟨rfl, Or.inr ⟨_, hnew, rfl⟩⟩⟩
  | parentUnknown hi _ _ _ hadm =>
      have hnew := h.new_id_notMem hi
      exact ⟨_, _, _, _, (h.related hi hadm).control rfl, Or.inl ⟨rfl, Or.inr ⟨_, hnew, rfl⟩⟩⟩
  | linked hi _ _ _ hadm hfind =>
      obtain ⟨hp, hlinked⟩ := h.linked hi hadm hfind
      exact ⟨_, _, _, _, hlinked, Or.inr ⟨hi.new_id_ne, h.new_id_notMem hi, hp, rfl⟩⟩
  | rooted hi _ hpar hlock =>
      -- the -1 of "no parent" is the key of superRoot
      have hroot : superRootKey = parent_id := by rw [superRootKey_eq, hpar]
      have hrooted := h.rooted_exit hi hlock
      rw [hroot] at hrooted
      refine ⟨_, _, _, _, hrooted, Or.inr ⟨hi.new_id_ne, h.new_id_notMem hi, ?_, rfl⟩⟩
      rw [← hroot]
      exact Forest.mem_keys_insert.mpr (Or.inr h.rooted.mem_keys)

namespace Sound

/-- **Every exit of `addNode`.** -/
theorem addExit {name : String} {parent_id r : Int} {env : Env} (h : Sound s)
    (hexit : AddExit mysql name parent_id env s r s') : Sound s' := by
  obtain ⟨F, addr, rank, bound, h⟩ := h
  obtain ⟨F', addr', rank', bound', h', -⟩ := h.addExit hexit
  exact ⟨F', addr', rank', bound', h'⟩

/-- **Every exit of `removeNode`.** -/
theorem removeExit {id : Int} {env : Env} (h : Sound s)
    (hexit : RemoveExit mysql id env s s') : Sound s' := by
  obtain ⟨F, addr, rank, bound, h⟩ := h
  cases hexit with
  | notFound => exact ⟨F, addr, rank, bound, h⟩
  | hasChildren => exact ⟨F, addr, rank, bound, h⟩
  | queryFailed => exact ⟨F, addr, rank, bound, h.control rfl⟩
  | noParent => exact ⟨F, addr, rank, bound, h.control rfl⟩
  -- rolled back and autocommit on again
  | parentMissing =>
      exact ⟨F, addr, rank, bound, ((h.control rfl).control rfl).control rfl⟩
  | relationshipsKept hleaf _ hrow hfind =>
      -- memory has dropped the node from the list, the tables keep the row
      exact ⟨_, addr, rank, bound, ((h.unlinked hleaf hfind).control rfl).control rfl⟩
  | objectKept hleaf _ hrow hfind =>
      have hoff : Holds ⟨attempt mysql env (.setAutocommit false) s.db, s.unlinked _ _⟩
          _ addr rank bound := (h.unlinked hleaf hfind).control rfl
      exact ⟨_, addr, rank, bound, (hoff.deleted _).control rfl⟩
  | removed hleaf _ hrow hfind => exact ⟨_, addr, rank, bound, h.removed hleaf hrow hfind⟩

end Sound

/-- Tables over an allocation can be loaded. -/
theorem Ledger.loadable {allocated : List Int} {rank : Int → ℕ} {bound : ℕ} {T : Tables}
    (h : Ledger allocated rank T) (halloc : Allocation allocated rank bound) :
    Loadable T where
  ids_nodup := h.ids_nodup
  int_range i hi := halloc.int_range (Or.inr (h.allocated i hi))
  ids_ne hi := halloc.ne_superRootKey (h.allocated _ hi) rfl
  rows_ne r hr :=
    ⟨halloc.ne_superRootKey (h.allocated _ (h.foreign_keys r hr).1),
      halloc.ne_superRootKey (h.allocated _ (h.foreign_keys r hr).2)⟩

/-- **A load of the committed tables starts over from the invariant.** -/
theorem Holds.reload {F : Forest Int String} {addr : Int → Addr} {rank : Int → ℕ}
    {bound : ℕ} (h : Holds s F addr rank bound) {m : Memory} {G : Forest Int String}
    {addr' : Int → Addr} (hrep : Represents m G addr') (hroot : Rooted m G addr')
    (hpart : PartForest s.db.committed G) :
    Holds ⟨s.db.reconnected, m⟩ G addr' rank bound where
  represents := hrep
  rooted := hroot
  wellFormed := hpart.wellFormed fun p q c hp hq _ _ _ =>
    h.ledger.committed.one_parent p q c hp hq
  unlisted := hpart.unlisted_superRoot (h.ledger.committed.loadable h.allocation)
  ranked p c he hne := by
    rcases hpart.edge he with ⟨rfl, hc, -⟩ | ⟨hr, -, -⟩
    · rw [h.allocation.root]
      exact h.allocation.pos c (h.ledger.committed.allocated c hc)
    · exact h.ledger.committed.ranked p c hr hne
  keys k hk := (hpart.keys k hk).imp_right (h.ledger.committed.allocated k)
  allocation := h.allocation
  ledger := h.ledger.reopened
  agrees := by
    -- a row makes its child a child, so superRoot does not list it
    refine Session.Both.opened fun p c hr q he => ?_
    rcases hpart.edge he with ⟨-, -, hno⟩ | ⟨hr', -, -⟩
    · exact absurd hr (h.ledger.committed.foreign_keys.not_parented_iff.mp hno p)
    · exact h.ledger.committed.one_parent q p c hr' hr

namespace Sound

/-- **Every restart whose constructor returns.** -/
theorem restart {env : Startup} {hasConnected : Bool} (h : Sound s)
    (hstart : startup env s.db = .ok (s', hasConnected)) : Sound s' := by
  obtain ⟨F, addr, rank, bound, h⟩ := h
  obtain ⟨m, hload, rfl⟩ := startup_eq_ok hstart
  obtain ⟨G, addr', hrep, hroot, hpart⟩ := construct_part
    (h.ledger.committed.loadable h.allocation)
    h.ledger.committed.relationships_nodup hload
  exact ⟨G, addr', rank, bound, h.reload hrep hroot hpart⟩

/-- **Every action.** -/
theorem step {a : Action} {r : Option Response} (h : Sound s) (hact : Acts mysql a s r s') :
    Sound s' := by
  cases a with
  | request req =>
      obtain ⟨resp, -, hserve⟩ := hact
      rcases serves_cases hserve with ⟨_, _, _, _, -, -, hexit⟩ | ⟨_, _, -, -, hexit⟩ | ⟨-, heq⟩
      · exact h.addExit hexit
      · exact h.removeExit hexit
      · rw [heq]
        exact h
  | restart env => exact h.restart hact.2

/-- Empty tables and superRoot alone. -/
theorem initial : Holds State.initial startForest (fun _ => 0) (fun _ => 0) 1 where
  represents := represents_start
  rooted := ⟨Finset.mem_singleton_self _, rfl⟩
  wellFormed := by
    refine ⟨fun he => (List.not_mem_nil he.2).elim, fun _ _ => List.nodup_nil, ?_⟩
    intro p q c he
    exact (List.not_mem_nil he.2).elim
  unlisted _ he := (List.not_mem_nil he.2).elim
  ranked _ _ he := (List.not_mem_nil he.2).elim
  keys _ hk := Or.inl (Finset.mem_singleton.mp hk)
  allocation := Allocation.nil
  ledger := Session.Both.opened Ledger.empty
  agrees := Session.Both.opened Agrees.empty

/-- **Every state of every run.** -/
theorem of_run {steps : List (Step State Action (Option Response))}
    (h : Run (Acts mysql) State.initial steps s) : Sound s :=
  h.invariant ⟨_, _, _, _, initial⟩ fun _ _ _ _ hs hact => hs.step hact

end Sound

/-! ## §2. The pointer structure. -/

/-- **Every listed node is live and is listed once**, so `validate_tree` finds
nothing to complain about. -/
theorem children_live {steps : List (Step State Action (Option Response))}
    (h : Run (Acts mysql) State.initial steps s) :
    (∀ child ∈ s.mem.childPointers, s.mem.expired child = false)
      ∧ s.mem.childPointers.Nodup
      ∧ validateTree s.mem = true := by
  obtain ⟨F, addr, rank, bound, hs⟩ := Sound.of_run h
  exact ⟨fun child hc => hs.represents.not_expired hc,
    hs.represents.nodup_childPointers hs.wellFormed,
    hs.represents.validateTree_eq_true⟩

/-- A top-level `addNode` whose row is committed at once, and which then loses
the answer of LAST_INSERT_ID. -/
def Request.losingId : Request :=
  .addNode "a" (-1) (.failing [.autocommitOff, .lastInsertId] [1])

/-- The restart after it links the row that no caller knows about. -/
theorem children_live_after_lost_id :
    (State.initial.after readsA .losingId).restarted.mem.childPointers = [some 1]
      ∧ validateTree (State.initial.after readsA .losingId).restarted.mem = true := by
  have hadd : Acts readsA (.request .losingId) State.initial (some (.added (-1)))
      (State.initial.after readsA .losingId) := ⟨_, rfl, rfl⟩
  have hrestart : Acts readsA (.restart .whole) (State.initial.after readsA .losingId) none
      (State.initial.after readsA .losingId).restarted := ⟨rfl, rfl⟩
  exact ⟨rfl, (children_live ((Run.nil.snoc hadd).snoc hrestart)).2.2⟩

/-! ## §3. The tree ends. -/

namespace Holds

variable {F : Forest Int String} {addr : Int → Addr} {rank : Int → ℕ} {bound : ℕ}

theorem int_range (h : Holds s F addr rank bound) :
    ∀ k ∈ F.keys, Tables.intMin ≤ k ∧ k ≤ Tables.intMax :=
  fun k hk => h.allocation.int_range (h.keys k hk)

/-- The graph below superRoot has no cycle. -/
theorem acyclic (h : Holds s F addr rank bound) {k : Int}
    (hk : F.Reach superRootKey k) : ¬ Relation.TransGen F.Edge k k :=
  hk.irrefl h.wellFormed h.unlisted h.ranked

/-- The graph below superRoot unfolds. -/
theorem unfolds (h : Holds s F addr rank bound) :
    ∃ t, F.unfold (F.keys.card + 1) superRootKey = some t :=
  Forest.unfold_isSome h.wellFormed.closed h.rooted.mem_keys fun _ hk => h.acyclic hk

/-- With that much fuel `nodeToJson` returns the unfolded graph. -/
theorem nodeToJson_superRoot (h : Holds s F addr rank bound) {json : Json} {n fuel : ℕ}
    (hn : F.unfold n superRootKey = some json) (hle : n ≤ fuel) :
    nodeToJson s.mem fuel (addr superRootKey) = .ok json := by
  rw [h.represents.nodeToJson_eq h.int_range h.rooted.mem_keys,
    Forest.unfold_mono hle hn]

end Holds

/-- **`GET /api/tree` terminates**: below superRoot the child lists have no
cycle, and from some depth of recursion on `nodeToJson` returns, with one
result. -/
theorem apiTree_terminates {steps : List (Step State Action (Option Response))}
    (h : Run (Acts mysql) State.initial steps s) :
    (∀ a, s.mem.Reaches a → ¬ Relation.TransGen s.mem.Lists a a)
      ∧ ∃ root json depth, s.mem.lock s.mem.superRoot = some root
        ∧ ∀ fuel, depth ≤ fuel →
          nodeToJson s.mem fuel root = .ok json ∧ apiTree s.mem fuel = .ok (some json) := by
  obtain ⟨F, addr, rank, bound, hs⟩ := Sound.of_run h
  have hlock := hs.represents.lock_superRoot hs.rooted
  obtain ⟨json, hjson⟩ := hs.unfolds
  constructor
  -- a cycle of pointers below superRoot is a cycle of keys
  · intro a hreach hcycle
    obtain ⟨k, hk, hreach', rfl⟩ := (hs.represents.reaches_iff hs.rooted).mp hreach
    obtain ⟨c, hpath, hc, heq⟩ := hs.represents.transGen_lists hk hcycle
    have hkc := hs.represents.inj k hk c hc heq
    subst hkc
    exact hs.acyclic hreach' hpath
  · refine ⟨addr superRootKey, json, F.keys.card + 1, hlock, fun fuel hle => ?_⟩
    have hrender := hs.nodeToJson_superRoot hjson hle
    refine ⟨hrender, ?_⟩
    rw [apiTree_eq hlock, hrender]
    rfl

/-- A node that is its own parent: `addNode` is given the id that its row is
about to get.  The node lists itself, and superRoot does not reach it. -/
theorem apiTree_terminates_own_parent :
    (State.initial.after readsA (.adding 1 1)).mem.Lists 1 1
      ∧ ¬ (State.initial.after readsA (.adding 1 1)).mem.Reaches 1 := by
  have hadd : Acts readsA (.request (.adding 1 1)) State.initial (some (.added 1))
      (State.initial.after readsA (.adding 1 1)) := ⟨_, rfl, rfl⟩
  have hself : (State.initial.after readsA (.adding 1 1)).mem.Lists 1 1 :=
    ⟨List.mem_cons_self, rfl⟩
  refine ⟨hself, fun hreach => ?_⟩
  exact (apiTree_terminates (Run.nil.snoc hadd)).1 1 hreach (.single hself)

end ApiSyncer
