/-
  ApiSyncer.Reachable
  ───────────────────
  **THE STATES OF THE PROGRAM, FROM WHATEVER TABLES IT STARTS ON.**

  A process may start on any tables that the schema admits, and its load may be
  cut short by an exception.  An object may then have several parents and a
  child list an expired pointer, so the graph of `Holds` is not available; what
  holds is about entries, addresses and ids.

      Reachable       a startup, then any run of requests and restarts
      Grounded        the invariant
      Reachable.grounded
-/
import ApiSyncer.NullSafety

namespace ApiSyncer

open ApiSyncer.Lib

/-! ## §1. Reachable states. -/

/-- A state of the program: after a startup on tables that the schema admits,
with ids as AUTO_INCREMENT gives them, and any run of requests and restarts. -/
def Reachable (mysql : MySQL) (s : State) : Prop :=
  ∃ (T : SchemaTables) (env : Startup) (s₀ : State)
    (steps : List (Step State Action (Option Response))),
    (∀ o ∈ T.objects, 0 < o.id) ∧ startup env (Db.opened T.toTables) = .ok (s₀, true)
      ∧ Run (Acts mysql) s₀ steps s

namespace Reachable

variable {mysql : MySQL} {s s' : State}

/-- Empty tables are tables. -/
theorem of_run {steps : List (Step State Action (Option Response))}
    (hrun : Run (Acts mysql) State.initial steps s) : Reachable mysql s :=
  ⟨SchemaTables.empty, .whole, State.initial, steps, fun _ h => (List.not_mem_nil h).elim,
    rfl, hrun⟩

theorem initial : Reachable mysql State.initial := of_run .nil

/-- One more request. -/
theorem serve {req : Request} {resp : Response} (h : Reachable mysql s)
    (hserve : Serves mysql req s resp s') : Reachable mysql s' := by
  obtain ⟨T, env, s₀, steps, hpos, hstart, hrun⟩ := h
  have hact : Acts mysql (.request req) s (some resp) s' := ⟨_, rfl, hserve⟩
  exact ⟨T, env, s₀, _, hpos, hstart, hrun.snoc hact⟩

theorem one : Reachable readsA State.one := initial.serve serves_one

theorem two : Reachable readsA State.two := one.serve serves_two

end Reachable

/-! ## §2. The invariant. -/

/-- The entries of the map are distinct objects, under the ids they carry, and
all ids but that of superRoot were handed out. -/
structure Indexed (m : Memory) (allocated : List Int) : Prop where
  bound : ∀ k a, m.find k = some (some a) → a < m.next
  distinct : ∀ k l a, m.find k = some (some a) → m.find l = some (some a) → k = l
  named : ∀ k a, m.find k = some (some a) → (m.heap a).id = toUInt k
  keys : ∀ k, m.find k ≠ none → k = superRootKey ∨ k ∈ allocated

/-- The ids handed out are positive `int`s, and the tables keep to them. -/
structure Issued (db : Db) : Prop where
  range : ∀ i ∈ db.allocated, 0 < i ∧ i ≤ Tables.intMax
  tables : Session.Both (Consistent db.allocated) db.session

/-- The invariant: superRoot at `root`, the map and the tables. -/
structure Grounded (s : State) (root : Addr) : Prop where
  anchored : Anchored s root
  indexed : Indexed s.mem s.db.allocated
  issued : Issued s.db

namespace Indexed

variable {m : Memory} {allocated allocated' : List Int} {k : Int} {a : Addr}
  {f : ObjectNode → ObjectNode}

theorem mono (h : Indexed m allocated) (hsub : ∀ i ∈ allocated, i ∈ allocated') :
    Indexed m allocated' :=
  ⟨h.bound, h.distinct, h.named, fun k hk => (h.keys k hk).imp_right (hsub k)⟩

/-- A new object under an id that was handed out. -/
theorem store (h : Indexed m allocated) (hk : k ∈ allocated) (name : String) :
    Indexed (m.store k (ObjectNode.ofInt k name)) allocated := by
  -- every other entry is an old one
  have hold : ∀ {l p}, l ≠ k → (m.store k (ObjectNode.ofInt k name)).find l = some p →
      m.find l = some p := by
    intro l p hl hfind
    rwa [Memory.find_store_of_ne hl] at hfind
  have hself : ∀ {b}, (m.store k (ObjectNode.ofInt k name)).find k = some (some b) →
      b = m.next := by
    intro b hfind
    rw [Memory.find_store_self] at hfind
    exact (Option.some.inj (Option.some.inj hfind)).symm
  constructor
  · intro l b hl
    rw [Memory.next_store]
    by_cases hlk : l = k
    · subst hlk
      rw [hself hl]
      exact Nat.lt_succ_self _
    · exact Nat.lt_succ_of_lt (h.bound l b (hold hlk hl))
  · intro l l' b hl hl'
    by_cases hlk : l = k
    · subst hlk
      by_cases hlk' : l' = l
      · exact hlk'.symm
      · have hlt := h.bound l' b (hold hlk' hl')
        rw [hself hl] at hlt
        exact absurd hlt (Nat.lt_irrefl _)
    · by_cases hlk' : l' = k
      · subst hlk'
        have hlt := h.bound l b (hold hlk hl)
        rw [hself hl'] at hlt
        exact absurd hlt (Nat.lt_irrefl _)
      · exact h.distinct l l' b (hold hlk hl) (hold hlk' hl')
  · intro l b hl
    by_cases hlk : l = k
    · subst hlk
      rw [hself hl, Memory.heap_store_next]
      rfl
    · have hb := hold hlk hl
      rw [Memory.heap_store_of_ne (Nat.ne_of_lt (h.bound l b hb))]
      exact h.named l b hb
  · intro l hl
    by_cases hlk : l = k
    · exact Or.inr (hlk ▸ hk)
    · rw [Memory.find_store_of_ne hlk] at hl
      exact h.keys l hl

/-- A change of one child list. -/
theorem modify (h : Indexed m allocated) (hf : ∀ node, (f node).id = node.id) :
    Indexed (m.modify a f) allocated := by
  refine ⟨h.bound, h.distinct, fun k b hb => ?_, h.keys⟩
  by_cases hba : b = a
  · subst hba
    rw [Memory.heap_modify_self, hf]
    exact h.named k b hb
  · rw [Memory.heap_modify_of_ne hba]
    exact h.named k b hb

theorem erase (h : Indexed m allocated) : Indexed (m.erase k) allocated := by
  have hold : ∀ {l}, (m.erase k).find l ≠ none → (m.erase k).find l = m.find l := by
    intro l hl
    by_cases hlk : l = k
    · subst hlk
      exact absurd Memory.find_erase_self hl
    · exact Memory.find_erase_of_ne hlk
  have hfind : ∀ {l b}, (m.erase k).find l = some (some b) → m.find l = some (some b) := by
    intro l b hl
    rwa [← hold (by rw [hl]; simp)]
  refine ⟨fun l b hl => h.bound l b (hfind hl), fun l l' b hl hl' =>
    h.distinct l l' b (hfind hl) (hfind hl'), fun l b hl => h.named l b (hfind hl),
    fun l hl => h.keys l ?_⟩
  rwa [← hold hl]

end Indexed

namespace Issued

variable {mysql : MySQL} {env : Env} {s : State} {db : Db} {name : String}
  {new_id parent_id : Int} {rows : List ObjectRow} {stmt : Statement}

theorem control (h : Issued db) (hc : stmt.isControl = true) :
    Issued (attempt mysql env stmt db) := by
  have halloc : (attempt mysql env stmt db).allocated = db.allocated := allocated_attempt hc
  refine ⟨?_, ?_⟩
  · rw [halloc]
    exact h.range
  · rw [halloc]
    exact both_attempt hc h.tables

/-- The first INSERT of `addNode`. -/
theorem inserted (h : Issued s.db) (hi : Inserted mysql name env s new_id rows db) :
    Issued db := by
  constructor
  · intro i hmem
    rw [hi.allocated_eq] at hmem
    rcases List.mem_append.mp hmem with hold | hnew
    · exact h.range i hold
    · exact ⟨(hi.fresh hnew).1, (hi.fresh hnew).2.1⟩
  · rw [hi.effect.session]
    -- the old rows keep to the old ids, so the new ones are not among them
    have hold : Session.Both (fun T => Consistent db.allocated T ∧ ∀ i ∈ T.ids, i ∈ s.db.allocated)
        (attempt mysql env (.setAutocommit false) s.db).session := by
      refine (both_attempt rfl h.tables).imp fun T hT => ⟨hT.mono fun i hi' => ?_, hT.allocated⟩
      rw [hi.allocated_eq]
      exact List.mem_append_left _ hi'
    refine (hold.imp fun T hT => hT.1).write fun hT => ?_
    refine hT.insertObjects hi.effect.nodup (fun r hr hmem => ?_) fun r hr => ?_
    · exact (hi.fresh (List.mem_map_of_mem hr)).2.2 (hold.view.2 _ hmem)
    · rw [hi.allocated_eq]
      exact List.mem_append_right _ (List.mem_map_of_mem hr)

theorem related (h : Issued db)
    (hadm : Db.admitsRelationship db.view ⟨parent_id, new_id⟩ = true) :
    Issued { db with session := db.session.write (.insertRelationship ⟨parent_id, new_id⟩) } :=
  ⟨h.range, h.tables.write fun hT => hT.insertRelationship hadm⟩

theorem deleted (h : Issued db) (p : Int) : Issued (db.deleted p) :=
  ⟨h.range, h.tables.write fun hT => hT.deleteRelationships p⟩

theorem deletedObject (h : Issued db) (id : Int) : Issued (db.deletedObject id) :=
  ⟨h.range, h.tables.write fun hT => hT.deleteObject id⟩

theorem reconnected (h : Issued db) : Issued db.reconnected := ⟨h.range, h.tables.reopened⟩

/-- The committed tables are tables that the schema admits. -/
def schemaTables (h : Issued db) : SchemaTables where
  toTables := db.committed
  ids_nodup := h.tables.committed.ids_nodup
  relationships_nodup := h.tables.committed.relationships_nodup
  int_range o ho := by
    have hrange := h.range o.id (h.tables.committed.allocated _ (List.mem_map_of_mem ho))
    have hmin : Tables.intMin = -2147483648 := rfl
    omega
  foreign_keys := h.tables.committed.foreign_keys

theorem positive (h : Issued db) {o : ObjectRow} (ho : o ∈ h.schemaTables.objects) :
    0 < o.id :=
  (h.range o.id (h.tables.committed.allocated _ (List.mem_map_of_mem ho))).1

end Issued

/-! ## §3. Every step keeps it. -/

namespace Grounded

variable {mysql : MySQL} {env : Env} {s s' : State} {root : Addr} {name : String}
  {parent_id r id new_id : Int} {rows : List ObjectRow} {db : Db}

theorem indexed_stored (h : Grounded s root) (hi : Inserted mysql name env s new_id rows db) :
    Indexed (s.stored new_id name) db.allocated := by
  rw [hi.allocated_eq]
  exact (h.indexed.mono fun _ hi' => List.mem_append_left _ hi').store
    (List.mem_append_right _ hi.new_id_mem) name

/-- **Every exit of `addNode`.** -/
theorem addExit (h : Grounded s root) (hexit : AddExit mysql name parent_id env s r s') :
    Grounded s' root := by
  refine ⟨h.anchored.addExit hexit, ?_, ?_⟩
  · cases hexit with
    | insertRefused =>
        rw [allocated_attempt rfl, allocated_attempt rfl]
        exact h.indexed
    | @idLost new_id rows db hi =>
        refine h.indexed.mono fun i hi' => ?_
        show i ∈ db.allocated
        rw [hi.allocated_eq]
        exact List.mem_append_left _ hi'
    | relationshipRefused hi =>
        rw [allocated_attempt rfl]
        exact h.indexed_stored hi
    | @parentUnknown new_id rows db hi =>
        rw [allocated_attempt rfl]
        show Indexed _ db.allocated
        exact h.indexed_stored hi
    | @linked new_id rows db a hi =>
        rw [allocated_attempt rfl]
        show Indexed _ db.allocated
        exact (h.indexed_stored hi).modify fun _ => rfl
    | rooted hi =>
        rw [allocated_attempt rfl]
        exact (h.indexed_stored hi).modify fun _ => rfl
  · cases hexit with
    | insertRefused => exact (h.issued.control rfl).control rfl
    | idLost hi => exact h.issued.inserted hi
    | relationshipRefused hi => exact (h.issued.inserted hi).control rfl
    | parentUnknown hi _ _ _ hadm => exact ((h.issued.inserted hi).related hadm).control rfl
    | linked hi _ _ _ hadm => exact ((h.issued.inserted hi).related hadm).control rfl
    | rooted hi => exact (h.issued.inserted hi).control rfl

/-- **Every exit of `removeNode`.** -/
theorem removeExit (h : Grounded s root) (hexit : RemoveExit mysql id env s s') :
    Grounded s' root := by
  have hoff : Issued (attempt mysql env (.setAutocommit false) s.db) := h.issued.control rfl
  have hunlink : ∀ parent node, Indexed (s.unlinked parent node) s.db.allocated :=
    fun _ _ => h.indexed.modify fun _ => rfl
  refine ⟨h.anchored.removeExit hexit, ?_, ?_⟩
  · cases hexit with
    | notFound => exact h.indexed
    | hasChildren => exact h.indexed
    | queryFailed | noParent =>
        rw [allocated_attempt rfl]
        exact h.indexed
    | parentMissing =>
        rw [allocated_attempt rfl, allocated_attempt rfl, allocated_attempt rfl]
        exact h.indexed
    | relationshipsKept =>
        rw [allocated_attempt rfl, allocated_attempt rfl]
        exact hunlink _ _
    | objectKept =>
        rw [allocated_attempt rfl]
        unfold Db.deleted
        rw [allocated_attempt rfl]
        exact hunlink _ _
    | removed =>
        rw [allocated_attempt rfl, allocated_attempt rfl]
        unfold Db.deletedObject Db.deleted
        rw [allocated_attempt rfl]
        exact (hunlink _ _).erase
  · cases hexit with
    | notFound => exact h.issued
    | hasChildren => exact h.issued
    | queryFailed => exact hoff
    | noParent => exact hoff
    | parentMissing => exact (hoff.control rfl).control rfl
    | relationshipsKept => exact hoff.control rfl
    | objectKept => exact (hoff.deleted _).control rfl
    | removed => exact (((hoff.deleted _).deletedObject _).control rfl).control rfl

end Grounded

/-- The keys of the map are `int`s. -/
theorem Grounded.key_range {s : State} {root : Addr} {k : Int} (h : Grounded s root)
    (hk : s.mem.find k ≠ none) : Tables.intMin ≤ k ∧ k ≤ Tables.intMax := by
  have hlo : Tables.intMin = -2147483648 := rfl
  have hhi : Tables.intMax = 2147483647 := rfl
  rcases h.indexed.keys k hk with rfl | hal
  · rw [superRootKey_eq]
    omega
  · have := h.issued.range k hal
    omega

/-- A startup indexes what it has loaded. -/
theorem startup_indexed {env : Startup} {db : Db} {T : SchemaTables} {s : State}
    {hasConnected : Bool} (hT : db.committed = T.toTables)
    (hpos : ∀ o ∈ T.objects, 0 < o.id) (halloc : ∀ i ∈ T.ids, i ∈ db.allocated)
    (hstart : startup env db = .ok (s, hasConnected)) : Indexed s.mem s.db.allocated := by
  obtain ⟨m, hcons, rfl⟩ := startup_eq_ok hstart
  rw [hT] at hcons
  obtain ⟨F, addr, hrep, -, hpart⟩ :=
    construct_part (T.keyed hpos).loadable T.relationships_nodup hcons
  constructor
  · intro k a hk
    obtain ⟨hkF, rfl⟩ := hrep.find_eq_some.mp hk
    exact hrep.bound k hkF
  · intro k l a hk hl
    obtain ⟨hkF, rfl⟩ := hrep.find_eq_some.mp hk
    obtain ⟨hlF, heq⟩ := hrep.find_eq_some.mp hl
    exact hrep.inj k hkF l hlF heq
  · intro k a hk
    obtain ⟨hkF, rfl⟩ := hrep.find_eq_some.mp hk
    rw [hrep.node k hkF]
  · intro k hk
    have hkF : k ∈ F.keys := by
      by_contra hkF
      exact hk (hrep.find_of_notMem hkF)
    exact (hpart.keys k hkF).imp_right (halloc k)

/-- **Every startup on admissible tables.** -/
theorem startup_grounded {env : Startup} {db : Db} {T : SchemaTables} {s : State}
    {hasConnected : Bool} (hT : db.committed = T.toTables)
    (hpos : ∀ o ∈ T.objects, 0 < o.id) (hdb : Issued db.reconnected)
    (hstart : startup env db = .ok (s, hasConnected)) : ∃ root, Grounded s root := by
  obtain ⟨root, hanch⟩ := startup_anchored hT hpos hstart
  have hidx := startup_indexed hT hpos (fun i hi => hdb.tables.committed.allocated i ?_) hstart
  · obtain ⟨m, -, rfl⟩ := startup_eq_ok hstart
    exact ⟨root, hanch, hidx, hdb⟩
  · show i ∈ db.committed.ids
    rw [hT]
    exact hi

/-- **Every action.** -/
theorem Grounded.step {mysql : MySQL} {a : Action} {s s' : State} {root : Addr}
    {r : Option Response} (h : Grounded s root) (hact : Acts mysql a s r s') :
    ∃ root, Grounded s' root := by
  cases a with
  | request req =>
      obtain ⟨resp, -, hserve⟩ := hact
      rcases serves_cases hserve with ⟨_, _, _, _, -, -, hexit⟩ | ⟨_, _, -, -, hexit⟩ | ⟨-, heq⟩
      · exact ⟨root, h.addExit hexit⟩
      · exact ⟨root, h.removeExit hexit⟩
      · exact ⟨root, heq ▸ h⟩
  | restart env =>
      exact startup_grounded (T := h.issued.schemaTables) rfl (fun o ho => h.issued.positive ho)
        h.issued.reconnected hact.2

/-- **Every reachable state.** -/
theorem Reachable.grounded {mysql : MySQL} {s : State} (h : Reachable mysql s) :
    ∃ root, Grounded s root := by
  obtain ⟨T, env, s₀, steps, hpos, hstart, hrun⟩ := h
  refine hrun.invariant (I := fun s => ∃ root, Grounded s root) ?_ ?_
  · refine startup_grounded (T := T) rfl hpos ⟨?_, Session.Both.opened ?_⟩ hstart
    · intro i hi
      obtain ⟨o, ho, rfl⟩ := List.mem_map.mp hi
      exact ⟨hpos o ho, (T.int_range o ho).2⟩
    · exact ⟨T.ids_nodup, fun _ hi => hi, T.foreign_keys, T.relationships_nodup⟩
  · intro s a r s' hs hact
    obtain ⟨root, hs⟩ := hs
    exact hs.step hact

end ApiSyncer
