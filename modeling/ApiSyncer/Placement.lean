/-
  ApiSyncer.Placement
  ───────────────────
  **WHERE A SUCCESSFUL `addNode` PUTS THE NEW NODE.**

  Whether the parent exists is asked after the new node has entered both the
  table and the map, so the id that the row is about to get passes as a parent:
  the node becomes its own child, out of reach of superRoot, and so does
  everything that is added under it later.

      Placed               the node is where it was asked for
      addNode_places_iff   it holds exactly when superRoot reaches the parent
-/
import ApiSyncer.Atomicity
import ApiSyncer.FaithfulLoad
import ApiSyncer.Mirror

namespace ApiSyncer

open ApiSyncer.Lib

/-! ## §1. The property. -/

/-- The object whose list `addNode` is asked to extend: superRoot, or
`nodes[parent_id]`. -/
def Memory.target (m : Memory) (parent_id : Int) : SharedPtr :=
  if parent_id = -1 then m.lock m.superRoot else m.index parent_id

/-- `GET /api/tree` shows the id once, under that name. -/
def Memory.ShowsOnce (m : Memory) (id : Int) (name : String) : Prop :=
  ∃ json depth, (∀ fuel, depth ≤ fuel → apiTree m fuel = .ok (some json))
    ∧ (id, name) ∈ json.entries ∧ (json.entries.map Prod.fst).count id = 1

/-- The new node `r`, at `new`, is the last child of `parent` and of no other
object; all else is as it was, and the tree shows it. -/
structure PlacedAt (name : String) (parent_id r : Int) (s s' : State) (parent new : Addr) :
    Prop where
  target : s.mem.target parent_id = some parent
  fresh : s.mem.find r = none
  find : s'.mem.find r = some (some new)
  node : (s'.mem.heap new).getID = r ∧ (s'.mem.heap new).getName = name
    ∧ (s'.mem.heap new).getChildren = []
  appended : s'.mem.heap parent = (s.mem.heap parent).pushChild (some new)
  entries : ∀ k, k ≠ r → s'.mem.find k = s.mem.find k
  others : ∀ k a, s.mem.find k = some (some a) → a ≠ parent → s'.mem.heap a = s.mem.heap a
  unlisted : ∀ k a, s.mem.find k = some (some a) → some new ∉ (s.mem.heap a).getChildren
  reached : s'.mem.Reaches new
  shown : s'.mem.ShowsOnce r name

def Placed (name : String) (parent_id r : Int) (s s' : State) : Prop :=
  ∃ parent new, PlacedAt name parent_id r s s' parent new

/-! ## §2. In the graph. -/

section Graph

variable {m : Memory} {F : Forest Int String} {addr : Int → Addr} {parent_id : Int} {a : Addr}

/-- The object asked for is a node of the graph. -/
theorem Represents.target_eq_some (h : Represents m F addr) (hroot : Rooted m F addr) :
    m.target parent_id = some a ↔ parent_id ∈ F.keys ∧ a = addr parent_id := by
  unfold Memory.target
  by_cases hpar : parent_id = -1
  · -- superRoot is under the key -1
    rw [if_pos hpar, hpar, ← superRootKey_eq, h.lock_superRoot hroot]
    simp [hroot.mem_keys, eq_comm]
  · rw [if_neg hpar]
    unfold Memory.index
    rw [h.find]
    by_cases hk : parent_id ∈ F.keys
    · simp [hk, eq_comm]
    · simp [hk]

end Graph

namespace Holds

variable {s : State} {F : Forest Int String} {addr : Int → Addr} {rank : Int → ℕ} {bound : ℕ}
  {k parent_id r : Int} {a b : Addr} {name : String}

/-- What a node lists has an address of its own. -/
theorem child_lt (h : Holds s F addr rank bound) (hk : s.mem.find k = some (some a))
    (hb : some b ∈ (s.mem.heap a).children) : b < s.mem.next := by
  obtain ⟨hkF, rfl⟩ := h.represents.find_eq_some.mp hk
  rw [h.represents.children_eq hkF, List.mem_map] at hb
  obtain ⟨c, hc, hcb⟩ := hb
  rw [← Option.some.inj hcb]
  exact h.represents.bound c (h.represents.closed ⟨hkF, hc⟩)

/-- There is no parent, or superRoot reaches it. -/
theorem parent_reached_iff (h : Holds s F addr rank bound) :
    parent_id = -1 ∨ s.mem.ReachesObject parent_id
      ↔ parent_id ∈ F.keys ∧ F.Reach superRootKey parent_id := by
  constructor
  · intro hpar
    rcases hpar with hroot | hreached
    · rw [hroot, ← superRootKey_eq]
      exact ⟨h.rooted.mem_keys, .refl⟩
    · have hk : parent_id ∈ F.keys := by
        obtain ⟨node, hfind, -⟩ := hreached
        exact (h.represents.find_eq_some.mp hfind).1
      exact ⟨hk, (h.represents.reachesObject_iff h.rooted hk).mp hreached⟩
  · intro hpar
    obtain ⟨hk, hreach⟩ := hpar
    exact Or.inr ((h.represents.reachesObject_iff h.rooted hk).mpr hreach)

/-- **What superRoot reaches is in the tree once.** -/
theorem showsOnce (h : Holds s F addr rank bound) (hreach : F.Reach superRootKey k) :
    s.mem.ShowsOnce k (F.label k) := by
  obtain ⟨json, hjson⟩ := h.unfolds
  have hentry : (k, F.label k) ∈ json.entries :=
    (Forest.mem_entries_unfold h.wellFormed.closed h.rooted.mem_keys hjson k _).mpr ⟨hreach, rfl⟩
  refine ⟨json, F.keys.card + 1, fun fuel hle => ?_, hentry, ?_⟩
  · rw [apiTree_eq (h.represents.lock_superRoot h.rooted), h.nodeToJson_superRoot hjson hle]
    rfl
  · have hnodup := Forest.nodup_entries_unfold h.wellFormed h.rooted.mem_keys
      (fun x hx => h.acyclic hx) hjson
    exact List.count_eq_one_of_mem hnodup (List.mem_map_of_mem hentry)

/-- The object that `addNode` extends, once the new node is stored, is the one
asked for, if that was there before. -/
theorem target_stored (h : Holds s F addr rank bound) (hr : r ∉ F.keys)
    (hp : parent_id ∈ F.keys) (ha : (s.stored r name).target parent_id = some a) :
    a = addr parent_id := by
  have hne : ∀ {q}, q ∈ F.keys → q ≠ r := fun hq heq => hr (heq ▸ hq)
  -- the new node is in the map by now, listed by nobody
  have hrep := h.represents.store (h.wellFormed.unlisted_of_notMem hr) name
  have hroot : Rooted (s.stored r name) (F.insert r name)
      (Function.update addr r s.mem.next) := by
    refine ⟨Forest.mem_keys_insert.mpr (Or.inr h.rooted.mem_keys), ?_⟩
    rw [Function.update_of_ne (hne h.rooted.mem_keys)]
    exact h.rooted.pointer
  have haddr := ((hrep.target_eq_some hroot).mp ha).2
  rwa [Function.update_of_ne (hne hp)] at haddr

end Holds

/-! ## §3. In the memory. -/

section Push

variable {mysql : MySQL} {env : Env} {s s' : State} {F F' : Forest Int String}
  {addr addr' : Int → Addr} {rank rank' : Int → ℕ} {bound bound' : ℕ} {parent_id r : Int}
  {name : String} {a : Addr}

/-- **How a successful `addNode` leaves memory**: the new object is in the map,
and the object asked for, which may be the new one, lists it last. -/
theorem AddExit.mem_eq (hexit : AddExit mysql name parent_id env s r s') (hr : r ≠ -1) :
    ∃ a, s'.mem = (s.stored r name).modify a (·.pushChild (some s.mem.next))
      ∧ (s.stored r name).target parent_id = some a := by
  cases hexit with
  | insertRefused => exact absurd rfl hr
  | idLost => exact absurd rfl hr
  | relationshipRefused => exact absurd rfl hr
  | parentUnknown => exact absurd rfl hr
  | @linked new_id rows db a hi _ hpar _ _ hfind =>
      refine ⟨a, rfl, ?_⟩
      unfold Memory.target Memory.index
      rw [if_neg hpar, hfind]
      rfl
  | @rooted new_id rows db a hi _ hpar hlock =>
      refine ⟨a, rfl, ?_⟩
      unfold Memory.target
      rw [if_pos hpar]
      exact hlock

/-- Under a parent that superRoot reaches the node is where it was asked for. -/
theorem Holds.placed (h : Holds s F addr rank bound)
    (h' : Holds s' ((F.insert r name).link parent_id r) addr' rank' bound')
    (hmem : s'.mem = (s.stored r name).modify (addr parent_id) (·.pushChild (some s.mem.next)))
    (hr : r ∉ F.keys) (hp : parent_id ∈ F.keys) (hreach : F.Reach superRootKey parent_id) :
    Placed name parent_id r s s' := by
  -- the address of the new node is new
  have hold : ∀ {k b}, s.mem.find k = some (some b) → b ≠ s.mem.next := fun hk => by
    obtain ⟨hkF, rfl⟩ := h.represents.find_eq_some.mp hk
    exact Nat.ne_of_lt (h.represents.bound _ hkF)
  have hparent : addr parent_id ≠ s.mem.next := hold (h.represents.find_of_mem hp)
  have hkey : r ∈ ((F.insert r name).link parent_id r).keys := by
    rw [Forest.keys_link]
    exact Forest.mem_keys_insert.mpr (Or.inl rfl)
  have hfind : s'.mem.find r = some (some s.mem.next) := by
    rw [hmem, Memory.find_modify]
    exact Memory.find_store_self
  have hreach' : ((F.insert r name).link parent_id r).Reach superRootKey r :=
    (Forest.reach_insert_link_self h.wellFormed hr hp h.rooted.mem_keys).mpr hreach
  refine ⟨addr parent_id, s.mem.next, ?_⟩
  constructor
  · exact (h.represents.target_eq_some h.rooted).mpr ⟨hp, rfl⟩
  · exact h.represents.find_of_notMem hr
  · exact hfind
  · have hnode : s'.mem.heap s.mem.next = ObjectNode.ofInt r name := by
      rw [hmem, Memory.heap_modify_of_ne hparent.symm]
      exact Memory.heap_store_next
    obtain ⟨hlo, hhi⟩ := h'.int_range r hkey
    rw [hnode]
    exact ⟨toInt_toUInt hlo hhi, rfl, rfl⟩
  · rw [hmem, Memory.heap_modify_self]
    unfold State.stored
    rw [Memory.heap_store_of_ne hparent]
  · intro k hk
    rw [hmem, Memory.find_modify]
    exact Memory.find_store_of_ne hk
  · intro k b hk hne
    rw [hmem, Memory.heap_modify_of_ne hne]
    exact Memory.heap_store_of_ne (hold hk)
  · intro k b hk hlisted
    exact absurd (h.child_lt hk hlisted) (Nat.lt_irrefl _)
  · exact (h'.represents.reaches_iff h'.rooted).mpr
      ⟨r, hkey, hreach', (h'.represents.find_eq_some.mp hfind).2⟩
  · have honce := h'.showsOnce hreach'
    rwa [show ((F.insert r name).link parent_id r).label r = name from
      Forest.label_insert_self] at honce

/-- A node that is placed has a parent that superRoot reaches. -/
theorem Holds.reach_of_placed (h : Holds s F addr rank bound)
    (h' : Holds s' ((F.insert r name).link parent_id r) addr' rank' bound')
    (hr : r ∉ F.keys) (hplaced : Placed name parent_id r s s') :
    parent_id ∈ F.keys ∧ F.Reach superRootKey parent_id := by
  obtain ⟨parent, new, hat⟩ := hplaced
  have hp := ((h.represents.target_eq_some h.rooted).mp hat.target).1
  obtain ⟨hkey, hnew⟩ := h'.represents.find_eq_some.mp hat.find
  obtain ⟨k, hk, hreach, heq⟩ := (h'.represents.reaches_iff h'.rooted).mp hat.reached
  have hkr := h'.represents.inj k hk r hkey (heq.symm.trans hnew)
  subst hkr
  exact ⟨hp, (Forest.reach_insert_link_self h.wellFormed hr hp h.rooted.mem_keys).mp hreach⟩

/-- **A successful `addNode` puts the node where it was asked for if and only
if it was asked for a top-level node or for a parent that superRoot reaches.** -/
theorem addNode_places_iff {steps : List (Step State Action (Option Response))}
    (hrun : Run (Acts mysql) State.initial steps s) (name : String) (parent_id : Int)
    (env : Env) :
    ∃ r s', addNode mysql name parent_id env s = .ok (r, s')
      ∧ ((r ≠ -1 → Placed name parent_id r s s')
        ↔ (Admits mysql name parent_id env s → parent_id = -1 ∨ s.mem.ReachesObject parent_id)) := by
  obtain ⟨F, addr, rank, bound, hs⟩ := Sound.of_run hrun
  obtain ⟨root, hground⟩ := (Reachable.of_run hrun).grounded
  obtain ⟨r, s', hok, hexit⟩ := hground.addNode name parent_id env
  refine ⟨r, s', hok, ?_⟩
  rw [← hexit.succeeds_iff hground.issued]
  by_cases hr : r = -1
  · exact iff_of_true (fun hne => absurd hr hne) fun hne => absurd hr hne
  obtain ⟨F', addr', rank', bound', hs', hgraph⟩ := hs.addExit hexit
  obtain ⟨-, hnew, -, rfl⟩ := hgraph.resolve_left fun h => hr h.1
  rw [hs.parent_reached_iff]
  constructor
  · intro hplaced _
    exact hs.reach_of_placed hs' hnew (hplaced hr)
  · intro hreached _
    obtain ⟨hp, hreach⟩ := hreached hr
    obtain ⟨a, hmem, ha⟩ := hexit.mem_eq hr
    rw [hs.target_stored hnew hp ha] at hmem
    exact hs.placed hs' hmem hnew hp hreach

end Push

/-- A child of a top-level node is where it was asked for. -/
theorem addNode_places_child : Placed "a" 1 2 State.one State.two := by
  have hone : Acts readsA (.request (.adding (-1) 1)) State.initial (some (.added 1)) State.one :=
    ⟨_, rfl, serves_one⟩
  have hcall : addNode readsA "a" 1 (.allocating [2]) State.one = .ok (2, State.two) := rfl
  obtain ⟨r, s', hok, hiff⟩ := addNode_places_iff (Run.nil.snoc hone) "a" 1 (.allocating [2])
  obtain ⟨rfl, rfl⟩ := Prod.mk.inj (Except.ok.inj (hcall.symm.trans hok))
  have hreached : State.one.mem.ReachesObject 1 := ⟨1, rfl, 0, rfl, .single ⟨List.mem_cons_self, rfl⟩⟩
  exact hiff.mpr (fun _ => Or.inr hreached) (by decide)

/-- **On empty tables `addNode("a", 1)` succeeds, for a parent that was not
there: the row gets the id 1.** -/
theorem own_parent_accepted :
    ¬ ∀ (mysql : MySQL) (name : String) (parent_id r : Int) (env : Env) (s s' : State)
        (steps : List (Step State Request Response)),
      Run (Serves mysql) State.initial steps s → (∀ st ∈ steps, st.action.Healthy) →
      env.Healthy → addNode mysql name parent_id env s = .ok (r, s') → r ≠ -1 →
        Placed name parent_id r s s' := by
  intro hevery
  have hcall : addNode readsA "a" 1 (.allocating [1]) State.initial
      = .ok (1, State.initial.after readsA (.adding 1 1)) := rfl
  obtain ⟨parent, new, hat⟩ := hevery _ _ _ _ _ _ _ [] .nil
    (fun _ h => (List.not_mem_nil h).elim) (Env.allocating_healthy _) hcall (by decide)
  have htarget : State.initial.mem.target 1 = none := rfl
  rw [hat.target] at htarget
  cases htarget

end ApiSyncer
