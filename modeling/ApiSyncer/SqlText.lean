/-
  ApiSyncer.SqlText
  ─────────────────
  **THE TEXT OF THE FIRST INSERT, AS THE SERVER READS IT.**

  `addNode` pastes the name between two quotes.  MySQL in its default mode
  reads the literal with doubled quotes and backslash sequences, so a name with
  a quote ends the literal early or loses one quote, and one with a backslash
  denotes something else, or swallows the closing quote.

      insertLiteral       the literal of the statement, if the text is one
      insert_carries_iff  which names arrive as they are
-/
import ApiSyncer.Lib.Quoting
import ApiSyncer.Placement
import ApiSyncer.Restart

namespace ApiSyncer

open ApiSyncer.Lib

/-! ## §1. String literals of MySQL. -/

/-- What a backslash sequence stands for, by its second character.  The two
sequences for patterns keep their backslash, and any character that is not
listed stands for itself. -/
def sqlDecode : Char → List Char
  | '0' => ['\x00']
  | 'b' => ['\x08']
  | 'n' => ['\n']
  | 'r' => ['\r']
  | 't' => ['\t']
  | 'Z' => ['\x1a']
  | '%' => ['\\', '%']
  | '_' => ['\\', '_']
  | c => [c]

theorem sqlDecode_eq_self {c : Char} : sqlDecode c = ['\\', c] ↔ c = '%' ∨ c = '_' := by
  constructor
  · intro h
    unfold sqlDecode at h
    split at h <;> simp_all
  · intro h
    rcases h with rfl | rfl <;> rfl

/-- Literals between single quotes, with backslash sequences. -/
def sqlQuoting : Quoting Char where
  quote := '\''
  esc := '\\'
  decode := sqlDecode
  quote_ne_esc := by decide
  decode_length c := by
    unfold sqlDecode
    split <;> simp
  decode_quote := by decide
  decode_esc := by decide

theorem sqlQuoting_inert_iff {s : List Char} :
    sqlQuoting.Inert s ↔ '\'' ∉ s ∧ ∀ pre post, s = pre ++ '\\' :: post →
      post.head? = some '%' ∨ post.head? = some '_' := by
  constructor
  · intro h
    refine ⟨h.quote, fun pre post heq => ?_⟩
    obtain ⟨c, rest, rfl, hc⟩ := h.esc pre post heq
    rcases sqlDecode_eq_self.mp hc with rfl | rfl
    · exact Or.inl rfl
    · exact Or.inr rfl
  · intro h
    refine ⟨h.1, fun pre post heq => ?_⟩
    rcases h.2 pre post heq with hc | hc
    · obtain ⟨rest, rfl⟩ := List.head?_eq_some_iff.mp hc
      exact ⟨'%', rest, rfl, rfl⟩
    · obtain ⟨rest, rfl⟩ := List.head?_eq_some_iff.mp hc
      exact ⟨'_', rest, rfl, rfl⟩

/-! ## §2. The statement. -/

/-- The text before the name. -/
def insertHead : List Char := "INSERT INTO objects (name) VALUES ('".toList

/-- What the literal denotes, when the text is one statement
`INSERT INTO objects (name) VALUES (literal)`. -/
def insertLiteral (text : String) : Option String :=
  match text.toList.dropPrefix? insertHead with
  | none => none
  | some body =>
      match sqlQuoting.read body with
      | some (literal, rest) => if rest = [')'] then some (String.ofList literal) else none
      | none => none

theorem toList_insertObjectQuery (name : String) :
    (insertObjectQuery name).toList = insertHead ++ (name.toList ++ ['\'', ')']) := by
  unfold insertObjectQuery insertHead
  rw [String.toList_append, String.toList_append, List.append_assoc]
  rfl

/-- **The text of `addNode` carries the name exactly when the name, pasted, is
read back.** -/
theorem insertLiteral_read (name : String) :
    insertLiteral (insertObjectQuery name) = some name
      ↔ sqlQuoting.read (name.toList ++ ['\'', ')']) = some (name.toList, [')']) := by
  have hdrop : (insertHead ++ (name.toList ++ ['\'', ')'])).dropPrefix? insertHead
      = some (name.toList ++ ['\'', ')']) := List.dropPrefix?_append_of_beq _ (by simp)
  unfold insertLiteral
  rw [toList_insertObjectQuery, hdrop]
  cases hread : sqlQuoting.read (name.toList ++ ['\'', ')']) with
  | none => simp [hread]
  | some r =>
      obtain ⟨literal, rest⟩ := r
      simp only [hread, Option.some.injEq, Prod.mk.injEq]
      constructor
      · intro h
        split at h
        next hrest =>
            refine ⟨?_, hrest⟩
            rw [← Option.some.inj h, String.toList_ofList]
        next => cases h
      · intro h
        obtain ⟨rfl, rfl⟩ := h
        rw [if_pos rfl, String.ofList_toList]

/-- The names that are read back. -/
theorem insertLiteral_query (name : String) :
    insertLiteral (insertObjectQuery name) = some name
      ↔ '\'' ∉ name.toList ∧ ∀ pre post, name.toList = pre ++ '\\' :: post →
        post.head? = some '%' ∨ post.head? = some '_' := by
  have hclose : [')'].head? ≠ some sqlQuoting.quote := by decide
  rw [insertLiteral_read, ← sqlQuoting_inert_iff, ← Quoting.read_append_iff hclose name.toList]
  exact Iff.rfl

/-! ## §3. Which names arrive as they are. -/

/-- The server reads literals in that way: a text that is one INSERT of a
literal is, if accepted, one row with what the literal denotes. -/
def MySQL.Lexes (mysql : MySQL) : Prop :=
  ∀ text literal, insertLiteral text = some literal →
    ∀ names, mysql.valuesOf text = some names → names = [literal]

/-- The text denotes the name; and with a server that reads it so, the object
stored and the node in memory have that name. -/
structure Carried (name : String) : Prop where
  literal : insertLiteral (insertObjectQuery name) = some name
  stored : ∀ (mysql : MySQL) (parent_id r : Int) (env : Env) (s s' : State), mysql.Lexes →
    addNode mysql name parent_id env s = .ok (r, s') → r ≠ -1 →
      ⟨r, name⟩ ∈ s'.db.view.objects
        ∧ ∃ node, s'.mem.find r = some (some node) ∧ (s'.mem.heap node).getName = name

section Stored

variable {mysql : MySQL} {env : Env} {s s' : State} {name : String} {parent_id r : Int}
  {rows : List ObjectRow} {db : Db}

/-- One literal, one row. -/
theorem Inserted.row_mem (hi : Inserted mysql name env s r rows db) (hlex : mysql.Lexes)
    (hliteral : insertLiteral (insertObjectQuery name) = some name) :
    ⟨r, name⟩ ∈ db.view.objects := by
  obtain ⟨row, rest, rfl, rfl⟩ := hi.effect.head
  have hnames := hlex _ _ hliteral _ hi.effect.names_eq
  obtain ⟨hname, -⟩ := List.cons.inj hnames
  rw [hi.view_eq, Tables.objects_insertObjects, ← hname]
  exact List.mem_append_right _ List.mem_cons_self

/-- **A successful `addNode` stores the object under the name.** -/
theorem AddExit.row_mem (hexit : AddExit mysql name parent_id env s r s') (hr : r ≠ -1)
    (hlex : mysql.Lexes) (hliteral : insertLiteral (insertObjectQuery name) = some name) :
    ⟨r, name⟩ ∈ s'.db.view.objects := by
  obtain ⟨rows, db, db', hi, hdb, hobjects, -, -⟩ := hexit.exists_inserted hr
  rw [hdb, view_setAutocommit, hobjects]
  exact hi.row_mem hlex hliteral

/-- The node in memory is constructed with the name. -/
theorem AddExit.node_name (hexit : AddExit mysql name parent_id env s r s') (hr : r ≠ -1) :
    ∃ node, s'.mem.find r = some (some node) ∧ (s'.mem.heap node).getName = name := by
  obtain ⟨a, hmem, -⟩ := hexit.mem_eq hr
  refine ⟨s.mem.next, ?_, ?_⟩
  · rw [hmem, Memory.find_modify]
    exact Memory.find_store_self
  · rw [hmem]
    have hnode : (s.stored r name).heap s.mem.next = ObjectNode.ofInt r name :=
      Memory.heap_store_next
    by_cases ha : s.mem.next = a
    · rw [← ha, Memory.heap_modify_self, hnode]
      rfl
    · rw [Memory.heap_modify_of_ne ha, hnode]
      rfl

end Stored

/-- **The name arrives as it is if and only if it has no quote, and in it every
backslash stands before a `%` or a `_`.** -/
theorem insert_carries_iff (name : String) :
    Carried name ↔ '\'' ∉ name.toList ∧ ∀ pre post, name.toList = pre ++ '\\' :: post →
      post.head? = some '%' ∨ post.head? = some '_' := by
  rw [← insertLiteral_query]
  constructor
  · intro h
    exact h.literal
  · intro hliteral
    refine ⟨hliteral, fun mysql parent_id r env s s' hlex hok hr => ?_⟩
    have hexit := addNode_exit hok
    exact ⟨hexit.row_mem hr hlex hliteral, hexit.node_name hr⟩

/-- **The name `C:\new` denotes a text with a line break in it.** -/
theorem backslash_name_changed : ¬ ∀ name, Carried name := by
  intro hevery
  have hliteral := (hevery "C:\\new").literal
  have hother : insertLiteral (insertObjectQuery "C:\\new") = some "C:\new" := by decide
  rw [hother] at hliteral
  exact absurd hliteral (by decide)

/-- Such a server reads plain names as the restart theorem asks for. -/
theorem MySQL.Lexes.readsPlain {mysql : MySQL} (h : mysql.Lexes) : mysql.ReadsPlain := by
  intro name hplain names hnames
  have hliteral := (insertLiteral_query name).mpr ⟨hplain.1, fun pre post heq => ?_⟩
  · exact h _ _ hliteral names hnames
  · exact absurd (heq ▸ List.mem_append_right _ List.mem_cons_self) hplain.2

end ApiSyncer
