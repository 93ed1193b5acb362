/-
  ApiSyncer.Invariant
  ───────────────────
  **THE INVARIANT OF EVERY RUN, WHATEVER FAILS.**

  `Holds s F addr rank bound`: the memory is the graph `F`, the tables keep the
  ledger, and the two agree in the one way that survives every failure: a row
  of `relationships`, committed or not, names the only key that may list its
  child.  That is what `removeNode` rests on when it asks the database for the
  list to unlink from.

      Holds.store / link / unlink / erase / setDb   the pieces of a request
      Holds.linked / rooted_exit / removed          the exits that change both sides
-/
import ApiSyncer.Ledger
import ApiSyncer.CompleteLoad

namespace ApiSyncer

open ApiSyncer.Lib

/-! ## §1. The invariant. -/

/-- A row names the only key that may list its child. -/
def Agrees (F : Forest Int String) (T : Tables) : Prop :=
  ∀ p c, ⟨p, c⟩ ∈ T.relationships → ∀ q, F.Edge q c → q = p

/-- Memory and tables, under the graph `F`, the addresses `addr` and a rank. -/
structure Holds (s : State) (F : Forest Int String) (addr : Int → Addr) (rank : Int → ℕ)
    (bound : ℕ) : Prop where
  represents : Represents s.mem F addr
  rooted : Rooted s.mem F addr
  wellFormed : F.WellFormed
  unlisted : F.Unlisted superRootKey
  ranked : F.Ranked rank
  keys : ∀ k ∈ F.keys, k = superRootKey ∨ k ∈ s.db.allocated
  allocation : Allocation s.db.allocated rank bound
  ledger : Session.Both (Ledger s.db.allocated rank) s.db.session
  agrees : Session.Both (Agrees F) s.db.session

/-- The invariant holds under some graph. -/
def Sound (s : State) : Prop := ∃ F addr rank bound, Holds s F addr rank bound

theorem Agrees.empty {F : Forest Int String} : Agrees F Tables.empty :=
  fun _ _ h => (List.not_mem_nil h).elim

/-- Fewer rows, fewer edges. -/
theorem Agrees.mono {F G : Forest Int String} {T U : Tables} (h : Agrees F T)
    (hrows : ∀ r ∈ U.relationships, r ∈ T.relationships)
    (hedges : ∀ p c, G.Edge p c → F.Edge p c) : Agrees G U :=
  fun p c hr q he => h p c (hrows _ hr) q (hedges q c he)

namespace Holds

variable {mysql : MySQL} {env : Env} {s : State} {F : Forest Int String}
  {addr : Int → Addr} {rank : Int → ℕ} {bound : ℕ} {k p c : Int} {db : Db}

/-! ## §2. The pieces of a request. -/

/-- Another server state over the same memory. -/
theorem setDb (h : Holds s F addr rank bound) (halloc : db.allocated = s.db.allocated)
    (hledger : Session.Both (Ledger s.db.allocated rank) db.session)
    (hagrees : Session.Both (Agrees F) db.session) :
    Holds ⟨db, s.mem⟩ F addr rank bound where
  represents := h.represents
  rooted := h.rooted
  wellFormed := h.wellFormed
  unlisted := h.unlisted
  ranked := h.ranked
  keys k hk := by
    rw [halloc]
    exact h.keys k hk
  allocation := by
    rw [halloc]
    exact h.allocation
  ledger := by
    rw [halloc]
    exact hledger
  agrees := hagrees

/-- A control statement, failing or not. -/
theorem control {stmt : Statement} {m : Memory} (h : Holds ⟨db, m⟩ F addr rank bound)
    (hc : stmt.isControl = true) :
    Holds ⟨attempt mysql env stmt db, m⟩ F addr rank bound :=
  h.setDb (allocated_attempt hc) (both_attempt hc h.ledger) (both_attempt hc h.agrees)

/-- A node under an allocated key that the map does not hold. -/
theorem store (h : Holds s F addr rank bound) (hk : k ∉ F.keys)
    (hal : k ∈ s.db.allocated) (name : String) :
    Holds ⟨s.db, s.mem.store k (ObjectNode.ofInt k name)⟩ (F.insert k name)
      (Function.update addr k s.mem.next) rank bound where
  represents := h.represents.store (h.wellFormed.unlisted_of_notMem hk) name
  rooted := by
    have hne : superRootKey ≠ k := (h.allocation.ne_superRootKey hal).symm
    refine ⟨Forest.mem_keys_insert.mpr (Or.inr h.rooted.mem_keys), ?_⟩
    rw [Function.update_of_ne hne]
    exact h.rooted.pointer
  wellFormed := h.wellFormed.insert hk name
  unlisted q he := h.unlisted q (Forest.edge_insert.mp he).2
  ranked q d he := h.ranked q d (Forest.edge_insert.mp he).2
  keys q hq := by
    rcases Forest.mem_keys_insert.mp hq with rfl | hq
    · exact Or.inr hal
    · exact h.keys q hq
  allocation := h.allocation
  ledger := h.ledger
  agrees := h.agrees.imp fun _ hT => hT.mono (fun _ hr => hr)
    fun q d he => (Forest.edge_insert.mp he).2

/-- A child that nobody lists, where its rows name the new lister. -/
theorem link (h : Holds s F addr rank bound) (hp : p ∈ F.keys) (hc : c ∈ F.keys)
    (hu : F.Unlisted c) (hne : c ≠ superRootKey) (hrank : p ≠ c → rank p < rank c)
    (hrows : Session.Both (fun T => ∀ q, ⟨q, c⟩ ∈ T.relationships → q = p) s.db.session) :
    Holds ⟨s.db, s.mem.modify (addr p) (·.pushChild (some (addr c)))⟩ (F.link p c) addr
      rank bound where
  represents := h.represents.link hp hc
  rooted := ⟨h.rooted.mem_keys, h.rooted.pointer⟩
  wellFormed := h.wellFormed.link hp hc hu
  unlisted q he := by
    rcases (Forest.edge_link hp).mp he with he | ⟨-, heq⟩
    · exact h.unlisted q he
    · exact hne heq.symm
  ranked q d he hqd := by
    rcases (Forest.edge_link hp).mp he with he | ⟨rfl, rfl⟩
    · exact h.ranked q d he hqd
    · exact hrank hqd
  keys := h.keys
  allocation := h.allocation
  ledger := h.ledger
  agrees := (h.agrees.and hrows).imp fun T hT q d hr q' he => by
    rcases (Forest.edge_link hp).mp he with he | ⟨rfl, rfl⟩
    · exact hT.1 q d hr q' he
    · exact (hT.2 q hr).symm

theorem unlink (h : Holds s F addr rank bound) (hp : p ∈ F.keys) (hc : c ∈ F.keys) :
    Holds ⟨s.db, s.mem.modify (addr p) (·.removeChild s.mem.lock (some (addr c)))⟩
      (F.unlink p c) addr rank bound where
  represents := h.represents.unlink hp hc
  rooted := ⟨h.rooted.mem_keys, h.rooted.pointer⟩
  wellFormed := h.wellFormed.unlink p c
  unlisted q he := h.unlisted q (Forest.edge_unlink.mp he).1
  ranked q d he := h.ranked q d (Forest.edge_unlink.mp he).1
  keys := h.keys
  allocation := h.allocation
  ledger := h.ledger
  agrees := h.agrees.imp fun _ hT => hT.mono (fun _ hr => hr)
    fun _ _ he => (Forest.edge_unlink.mp he).1

theorem erase (h : Holds s F addr rank bound) (hu : F.Unlisted k)
    (hne : superRootKey ≠ k) :
    Holds ⟨s.db, s.mem.erase k⟩ (F.erase k) addr rank bound where
  represents := h.represents.erase hu
  rooted := ⟨Forest.mem_keys_erase.mpr ⟨hne, h.rooted.mem_keys⟩, h.rooted.pointer⟩
  wellFormed := h.wellFormed.erase hu
  unlisted q he := h.unlisted q (Forest.edge_erase.mp he).2
  ranked q d he := h.ranked q d (Forest.edge_erase.mp he).2
  keys q hq := h.keys q (Forest.mem_keys_erase.mp hq).2
  allocation := h.allocation
  ledger := h.ledger
  agrees := h.agrees.imp fun _ hT => hT.mono (fun _ hr => hr)
    fun _ _ he => (Forest.edge_erase.mp he).2

/-! ## §3. The exits of `addNode`. -/

section AddNode

variable {name : String} {new_id parent_id : Int} {rows : List ObjectRow}

/-- The graph, the addresses and the rank once the node is in the map. -/
abbrev addrStored (addr : Int → Addr) (s : State) (new_id : Int) : Int → Addr :=
  Function.update addr new_id s.mem.next

theorem new_id_notMem (h : Holds s F addr rank bound)
    (hi : Inserted mysql name env s new_id rows db) : new_id ∉ F.keys := by
  intro hk
  rcases h.keys _ hk with heq | hal
  · exact hi.new_id_ne_superRootKey heq
  · exact (hi.fresh hi.new_id_mem).2.2 hal

theorem extendRank_key (h : Holds s F addr rank bound)
    (hi : Inserted mysql name env s new_id rows db) (hk : k ∈ F.keys) :
    extendRank rank bound new_id (rows.map (·.id)) k = rank k := by
  rcases h.keys k hk with rfl | hal
  · exact hi.extendRank_root
  · exact hi.extendRank_old hal

/-- The first INSERT went through. -/
theorem inserted (h : Holds s F addr rank bound)
    (hi : Inserted mysql name env s new_id rows db) :
    Holds ⟨db, s.mem⟩ F addr (extendRank rank bound new_id (rows.map (·.id)))
      (bound + 2) where
  represents := h.represents
  rooted := h.rooted
  wellFormed := h.wellFormed
  unlisted := h.unlisted
  ranked p c he hne := by
    rw [h.extendRank_key hi he.1, h.extendRank_key hi (h.wellFormed.closed he)]
    exact h.ranked p c he hne
  keys k hk := by
    rw [hi.allocated_eq]
    exact (h.keys k hk).imp_right (List.mem_append_left _)
  allocation := hi.allocation h.allocation
  ledger := (hi.ledger bound h.ledger).imp fun T hT => hT.1
  agrees := by
    rw [hi.effect.session]
    exact Session.Both.write (both_attempt rfl h.agrees) fun hT => hT

/-- The new node is in the map, and nothing lists it yet. -/
theorem stored (h : Holds s F addr rank bound)
    (hi : Inserted mysql name env s new_id rows db) :
    Holds ⟨db, s.stored new_id name⟩ (F.insert new_id name) (addrStored addr s new_id)
      (extendRank rank bound new_id (rows.map (·.id))) (bound + 2) := by
  refine (h.inserted hi).store (h.new_id_notMem hi) ?_ name
  rw [hi.allocated_eq]
  exact List.mem_append_right _ hi.new_id_mem

/-- The INSERT of the relationship went through. -/
theorem related (h : Holds s F addr rank bound)
    (hi : Inserted mysql name env s new_id rows db)
    (hadm : Db.admitsRelationship db.view ⟨parent_id, new_id⟩ = true) :
    Holds ⟨{ db with session := db.session.write (.insertRelationship ⟨parent_id, new_id⟩) },
        s.stored new_id name⟩ (F.insert new_id name) (addrStored addr s new_id)
      (extendRank rank bound new_id (rows.map (·.id))) (bound + 2) := by
  have hs := h.stored hi
  refine hs.setDb rfl (hi.ledger_relationship h.allocation h.ledger hadm) ?_
  refine Session.Both.write hs.agrees fun hT p c hr q he => ?_
  -- an old row says what it said; the new one is about the new node
  rcases List.mem_append.mp hr with hold | hnew
  · exact hT p c hold q he
  · -- nobody lists the new node yet
    obtain ⟨-, rfl⟩ := RelationshipRow.mk.inj (List.mem_singleton.mp hnew)
    exact absurd (Forest.edge_insert.mp he).2
      (h.wellFormed.unlisted_of_notMem (h.new_id_notMem hi) q)

/-- The new node under `p`, a key whose row it has or superRoot. -/
theorem push (h : Holds s F addr rank bound)
    (hi : Inserted mysql name env s new_id rows db) {db' : Db}
    (hs : Holds ⟨db', s.stored new_id name⟩ (F.insert new_id name)
      (addrStored addr s new_id) (extendRank rank bound new_id (rows.map (·.id))) (bound + 2))
    (hp : p ∈ (F.insert new_id name).keys)
    (hrows : Session.Both (fun T => ∀ q, ⟨q, new_id⟩ ∈ T.relationships → q = p)
      db'.session) :
    Holds ⟨db', (s.stored new_id name).modify (addrStored addr s new_id p)
        (·.pushChild (some s.mem.next))⟩ ((F.insert new_id name).link p new_id)
      (addrStored addr s new_id) (extendRank rank bound new_id (rows.map (·.id)))
      (bound + 2) := by
  have hself : addrStored addr s new_id new_id = s.mem.next := Function.update_self ..
  have hu : (F.insert new_id name).Unlisted new_id := fun q he =>
    h.wellFormed.unlisted_of_notMem (h.new_id_notMem hi) q (Forest.edge_insert.mp he).2
  have hlink := hs.link hp (Forest.mem_keys_insert.mpr (Or.inl rfl)) hu
    hi.new_id_ne_superRootKey ?_ hrows
  · rw [hself] at hlink
    exact hlink
  · -- every other key ranks below the new one
    intro hne
    have hpF : p ∈ F.keys := (Forest.mem_keys_insert.mp hp).resolve_left hne
    rw [h.extendRank_key hi hpF, extendRank_self]
    have := h.allocation.rank_lt (h.keys p hpF)
    omega

/-- **Success under a parent.** -/
theorem linked (h : Holds s F addr rank bound)
    (hi : Inserted mysql name env s new_id rows db)
    (hadm : Db.admitsRelationship db.view ⟨parent_id, new_id⟩ = true) {a : Addr}
    (hfind : (s.stored new_id name).find parent_id = some (some a)) :
    parent_id ∈ (F.insert new_id name).keys
      ∧ Holds ⟨attempt mysql env (.setAutocommit true)
            { db with session := db.session.write (.insertRelationship ⟨parent_id, new_id⟩) },
          (s.stored new_id name).modify a (·.pushChild (some s.mem.next))⟩
        ((F.insert new_id name).link parent_id new_id) (addrStored addr s new_id)
        (extendRank rank bound new_id (rows.map (·.id))) (bound + 2) := by
  have hs := h.related hi hadm
  obtain ⟨hp, rfl⟩ := hs.represents.find_eq_some.mp hfind
  refine ⟨hp, ?_⟩
  refine (h.push hi hs hp ?_).control rfl
  -- of the rows of the new node there is now exactly one
  have hno := (hi.ledger bound h.ledger).imp fun T hT => hT.2
  have hone : Session.Both (fun T => ∀ q, ⟨q, new_id⟩ ∈ T.relationships → q = parent_id)
      db.session := hno.imp fun T hT q hq => absurd hq (hT q)
  refine hone.write fun hT q hq => ?_
  rcases List.mem_append.mp hq with hold | hnew
  · exact hT q hold
  · exact (RelationshipRow.mk.inj (List.mem_singleton.mp hnew)).1

/-- **Success without a parent.** -/
theorem rooted_exit (h : Holds s F addr rank bound)
    (hi : Inserted mysql name env s new_id rows db) {a : Addr}
    (hlock : (s.stored new_id name).lock s.mem.superRoot = some a) :
    Holds ⟨attempt mysql env (.setAutocommit true) db,
        (s.stored new_id name).modify a (·.pushChild (some s.mem.next))⟩
      ((F.insert new_id name).link superRootKey new_id) (addrStored addr s new_id)
      (extendRank rank bound new_id (rows.map (·.id))) (bound + 2) := by
  have hs := h.stored hi
  have hroot := hs.represents.lock_superRoot hs.rooted
  have ha : addrStored addr s new_id superRootKey = a :=
    Option.some.inj (hroot.symm.trans hlock)
  rw [← ha]
  refine (h.push hi hs hs.rooted.mem_keys ?_).control rfl
  exact (hi.ledger bound h.ledger).imp fun T hT q hq => absurd hq (hT.2 q)

end AddNode

/-! ## §4. The exits of `removeNode`. -/

section RemoveNode

variable {id parent_id : Int} {node parent : Addr}

/-- A leaf and its parent row, in the graph. -/
theorem leaf_keys (h : Holds s F addr rank bound) (hleaf : Leaf s id node)
    (hfind : s.mem.find parent_id = some (some parent)) :
    id ∈ F.keys ∧ node = addr id ∧ F.kids id = []
      ∧ parent_id ∈ F.keys ∧ parent = addr parent_id := by
  obtain ⟨hid, rfl⟩ := h.represents.find_eq_some.mp hleaf.find
  obtain ⟨hp, rfl⟩ := h.represents.find_eq_some.mp hfind
  exact ⟨hid, rfl, (h.represents.children_eq_nil hid).mp hleaf.childless, hp, rfl⟩

/-- The leaf has left the list of its parent. -/
theorem unlinked (h : Holds s F addr rank bound) (hleaf : Leaf s id node)
    (hfind : s.mem.find parent_id = some (some parent)) :
    Holds ⟨s.db, s.unlinked parent node⟩ (F.unlink parent_id id) addr rank bound := by
  obtain ⟨hid, rfl, -, hp, rfl⟩ := h.leaf_keys hleaf hfind
  exact h.unlink hp hid

/-- A DELETE takes rows away. -/
theorem deleted (h : Holds s F addr rank bound) (parent_id : Int) :
    Holds ⟨s.db.deleted parent_id, s.mem⟩ F addr rank bound := by
  refine h.setDb rfl (h.ledger.write fun hT => hT.deleteRelationships parent_id) ?_
  refine h.agrees.write fun hT => hT.mono (fun r hr => ?_) (fun _ _ he => he)
  exact (Tables.mem_relationships_deleteRelationships.mp hr).1

theorem deletedObject (h : Holds s F addr rank bound) (id : Int) :
    Holds ⟨s.db.deletedObject id, s.mem⟩ F addr rank bound := by
  refine h.setDb rfl (h.ledger.write fun hT => hT.deleteObject id) ?_
  refine h.agrees.write fun hT => hT.mono (fun r hr => ?_) (fun _ _ he => he)
  exact (Tables.mem_relationships_deleteObject.mp hr).1

/-- The row that `removeNode` reads names a non-superRoot child, and after the
unlinking nobody lists that child. -/
theorem unlisted_row (h : Holds s F addr rank bound)
    (hrow : ⟨parent_id, id⟩ ∈ s.db.view.relationships) :
    superRootKey ≠ id ∧ (F.unlink parent_id id).Unlisted id := by
  have hal := h.ledger.view.allocated _ (h.ledger.view.child_mem_ids hrow)
  exact ⟨(h.allocation.ne_superRootKey hal).symm,
    Forest.WellFormed.unlisted_unlink (h.agrees.view _ _ hrow)⟩

/-- **The leaf is gone from the map and from its list.** -/
theorem removed (h : Holds s F addr rank bound) (hleaf : Leaf s id node)
    (hrow : ⟨parent_id, id⟩ ∈ s.db.view.relationships)
    (hfind : s.mem.find parent_id = some (some parent)) :
    Holds ⟨attempt mysql env (.setAutocommit true) (attempt mysql env .commit
          (((attempt mysql env (.setAutocommit false) s.db).deleted parent_id).deletedObject
            id)),
        (s.unlinked parent node).erase id⟩
      ((F.unlink parent_id id).erase id) addr rank bound := by
  obtain ⟨hne, hu⟩ := h.unlisted_row hrow
  have hoff : Holds ⟨attempt mysql env (.setAutocommit false) s.db, s.unlinked parent node⟩
      (F.unlink parent_id id) addr rank bound := (h.unlinked hleaf hfind).control rfl
  have herased := ((hoff.deleted parent_id).deletedObject id).erase hu hne
  exact (herased.control rfl).control rfl

end RemoveNode

end Holds

end ApiSyncer
