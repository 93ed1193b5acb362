/-
  ApiSyncer.Bodies
  ────────────────
  **THE BODIES OF REQUESTS AND RESPONSES, AS TEXT.**

  The handlers load the body, look their fields up and answer with a text that
  Crow writes.  Here the fields come from the text of a request, through Crow's
  parser and accessors, and the payload of a response becomes a text.

      AddBody.ofText, RemoveBody.ofText   from the text to the fields
      field_object                        the fields of an object, key by key
      decode_error_iff                    when they have no defined reading
      addBody_written                     what Crow writes is understood
      HttpResponse.body                   the text of a response
-/
import ApiSyncer.Crow.Access
import ApiSyncer.Handlers

namespace ApiSyncer

open ApiSyncer.Lib ApiSyncer.Crow

/-! ## §1. Fields. -/

/-- What an accessor throws, Crow answers; the field has no value. -/
def caught {α : Type} : Except Failure (Field α) → Except Failure (Field α)
  | .error .thrown => .ok .mistyped
  | r => r

/-- `body[key].t() != Null`, and then the accessor on `body[key]`. -/
def valueField {α : Type} (accessor : RValue → Except Failure α) :
    RValue → Except Failure (Field α)
  | .null => .ok .null
  | v => (accessor v).map .given

/-- The field of a body: `body.has(key)`, and then its value. -/
def field {α : Type} (sort : MemberSort) (key : List Char) (accessor : RValue → Except Failure α)
    (body : RValue) : Except Failure (Field α) :=
  caught do
    if ← body.has sort key then valueField accessor (← body.index sort key)
    else return .missing

def nameKey : List Char := ['n', 'a', 'm', 'e']

def parentKey : List Char := ['p', 'a', 'r', 'e', 'n', 't', '_', 'i', 'd']

def idKey : List Char := ['i', 'd']

/-- `s()`, into a `std::string`. -/
def readString (v : RValue) : Except Failure String := v.s.map String.ofList

/-- The fields of `/api/add_node`.  Without a name it answers before it looks at
`parent_id`. -/
def AddBody.decode (sort : MemberSort) (body : RValue) : Except Failure AddBody := do
  match ← field sort nameKey readString body with
  | .given name => return ⟨.given name, ← field sort parentKey RValue.i body⟩
  | name => return ⟨name, .missing⟩

/-- The field of `/api/remove_node`. -/
def RemoveBody.decode (sort : MemberSort) (body : RValue) : Except Failure RemoveBody := do
  return ⟨← field sort idKey RValue.i body⟩

/-- The text of a body, loaded and read; `none` when it is not valid JSON. -/
def bodyOfText {β : Type} (decode : RValue → Except Failure β) (text : List Char) :
    Except Failure (Option β) :=
  match load text with
  | .ok body => (decode body).map some
  | .error _ => .ok none

def AddBody.ofText (sort : MemberSort) (text : List Char) : Except Failure (Option AddBody) :=
  bodyOfText (AddBody.decode sort) text

def RemoveBody.ofText (sort : MemberSort) (text : List Char) :
    Except Failure (Option RemoveBody) :=
  bodyOfText (RemoveBody.decode sort) text

/-! ## §2. Texts of responses. -/

def JsonValue.toWValue : JsonValue → WValue
  | .string value => .string value.toList
  | .int value => .int value

/-- A `wvalue` with the fields, in the order in which the iteration of the
`unordered_map` meets them. -/
def objectOf (iteration : Order) (fields : List (String × JsonValue)) : WValue :=
  .object (iteration.arrange (fields.map fun f => (f.1.toList, f.2.toWValue)))

/-- The body of the `crow::response`. -/
def HttpResponse.body (iteration : Order) (resp : HttpResponse) : List Char :=
  match resp.payload with
  | .empty => []
  | .text message => message.toList
  | .json fields => dump (objectOf iteration fields)

/-! ## §3. The fields of an object. -/

section Fields

variable {α : Type} (sort : MemberSort) {key : List Char} {accessor : RValue → Except Failure α}
  {members : List (List Char × RValue)} {v : RValue}

/-- **The field of an object is the member under the key.** -/
theorem field_object : field sort key accessor (.object members)
    = match sort.find key members with
      | none => .ok .missing
      | some v => caught (valueField accessor v) := by
  cases hfind : sort.find key members with
  | none =>
      simp only [field, RValue.has, hfind]
      rfl
  | some v =>
      simp only [field, RValue.has, RValue.index, hfind]
      rfl

/-- A list without items has no member; in a list with items the keys are not
initialised. -/
theorem field_list (items : List RValue) : field sort key accessor (.list items)
    = if items = [] then .ok .missing else .error .undefined := by
  cases items with
  | nil => rfl
  | cons v vs => rfl

end Fields

/-! ## §4. Which bodies have a defined reading. -/

section Defined

variable {sort : MemberSort} {text : List Char} {v : RValue} {members : List (List Char × RValue)}

/-- A list with items. -/
def NonemptyList (v : RValue) : Prop := ∃ item items, v = .list (item :: items)

/-- Under the key the value is a string of blanks. -/
def BlankUnder (sort : MemberSort) (key : List Char) (v : RValue) : Prop :=
  ∃ members raw, v = .object members ∧ sort.find key members = some (.string raw)
    ∧ ∀ c ∈ raw, isSpace c = Bool.true

/-- Under the key the value is a string. -/
def StringUnder (sort : MemberSort) (key : List Char) (v : RValue) : Prop :=
  ∃ members raw, v = .object members ∧ sort.find key members = some (.string raw)

/-- The numbers of a document have the text of one. -/
theorem number_of_document (hdoc : Document 5000 (.object members) text) :
    ∀ m ∈ members, ∀ t, m.2 = .number t → NumberText t := by
  obtain ⟨pre, body, post, -, -, -, hbody⟩ := hdoc
  obtain ⟨n, -, hmembers⟩ := phrase_object.mp hbody
  rintro ⟨key, w⟩ hm t rfl
  obtain ⟨u, raw, w₁, w₂, u', -, -, -, -, -, hphrase⟩ := hmembers.exists_text _ hm
  exact (phrase_number.mp hphrase).2

/-- A name is read from a string alone. -/
theorem nameField (w : RValue) : caught (valueField readString w)
    = match w with
      | .null => .ok .null
      | .string raw => .ok (.given (String.ofList (stringValue raw)))
      | _ => .ok .mistyped := by
  cases w <;> rfl

/-- A number is read from the text of a number or of a string. -/
theorem intField (w : RValue) : caught (valueField RValue.i w)
    = match w with
      | .null => .ok .null
      | .number t | .string t =>
          match lexicalCast t with
          | some v => .ok (.given v)
          | none => .error .undefined
      | _ => .ok .mistyped := by
  cases w with
  | number t => cases h : lexicalCast t <;> simp [valueField, RValue.i, h, caught, Except.map]
  | string t => cases h : lexicalCast t <;> simp [valueField, RValue.i, h, caught, Except.map]
  | _ => rfl

theorem intField_error_iff {w : RValue} (hnumber : ∀ t, w = .number t → NumberText t) :
    (∃ f, caught (valueField RValue.i w) = .error f)
      ↔ ∃ raw, w = .string raw ∧ ∀ c ∈ raw, isSpace c = Bool.true := by
  rw [intField]
  cases w with
  | number t =>
      obtain ⟨v, hv⟩ := lexicalCast_number (hnumber t rfl)
      simp [hv]
  | string t =>
      have hblank := @lexicalCast_eq_none_iff t
      constructor
      · rintro ⟨f, hf⟩
        refine ⟨t, rfl, hblank.mp ?_⟩
        cases hcast : lexicalCast t with
        | none => rfl
        | some v => simp [hcast] at hf
      · rintro ⟨raw, heq, hall⟩
        cases heq
        exact ⟨.undefined, by simp [hblank.mpr hall]⟩
  | _ => simp

/-- The field of an id has no defined reading where it is a string of blanks. -/
theorem field_i_error_iff {key : List Char} (hdoc : Document 5000 (.object members) text) :
    (∃ f, field sort key RValue.i (.object members) = .error f)
      ↔ BlankUnder sort key (.object members) := by
  rw [field_object]
  cases hfind : sort.find key members with
  | none => simp [BlankUnder, hfind]
  | some w =>
      have hnumber := number_of_document hdoc _ (mem_of_find sort hfind)
      simp only [intField_error_iff hnumber, BlankUnder]
      constructor
      · rintro ⟨raw, rfl, hblank⟩
        exact ⟨members, raw, rfl, hfind, hblank⟩
      · rintro ⟨members', raw, heq, hfind', hblank⟩
        cases heq
        rw [hfind] at hfind'
        exact ⟨raw, Option.some.inj hfind', hblank⟩

/-- The fields of an object, member by member. -/
theorem decode_object : AddBody.decode sort (.object members)
    = match sort.find nameKey members with
      | none => .ok ⟨.missing, .missing⟩
      | some .null => .ok ⟨.null, .missing⟩
      | some (.string raw) =>
          (field sort parentKey RValue.i (.object members)).map fun parent_id =>
            ⟨.given (String.ofList (stringValue raw)), parent_id⟩
      | some _ => .ok ⟨.mistyped, .missing⟩ := by
  unfold AddBody.decode
  rw [field_object]
  cases sort.find nameKey members with
  | none => rfl
  | some w =>
      simp only [nameField]
      cases w with
      | string raw =>
          show (field sort parentKey RValue.i (.object members) >>= _) = _
          cases field sort parentKey RValue.i (.object members) <;> rfl
      | _ => rfl

theorem map_error_iff {ε α β : Type} {x : Except ε α} {g : α → β} :
    (∃ f, x.map g = .error f) ↔ ∃ f, x = .error f := by
  cases x <;> simp [Except.map]

/-- **The fields of `/api/add_node` have no defined reading** in a list with
items, and with a name and a `parent_id` that is a string of blanks. -/
theorem decode_error_iff (hdoc : Document 5000 v text) :
    (∃ f, AddBody.decode sort v = .error f)
      ↔ NonemptyList v ∨ StringUnder sort nameKey v ∧ BlankUnder sort parentKey v := by
  cases v with
  | object members =>
      have hlist : ¬ NonemptyList (.object members) := by
        rintro ⟨item, items, heq⟩
        cases heq
      have hstring : StringUnder sort nameKey (.object members)
          ↔ ∃ raw, sort.find nameKey members = some (.string raw) := by
        constructor
        · rintro ⟨members', raw, heq, hfind⟩
          cases heq
          exact ⟨raw, hfind⟩
        · rintro ⟨raw, hfind⟩
          exact ⟨members, raw, rfl, hfind⟩
      rw [decode_object, hstring]
      split
      next hfind => simp [hlist, hfind]
      next hfind => simp [hlist, hfind]
      next raw hfind =>
          rw [map_error_iff, field_i_error_iff hdoc]
          simp [hlist, hfind]
      next w hnull hnot hfind =>
          have hnone : ¬ ∃ raw, sort.find nameKey members = some (.string raw) := by
            rintro ⟨raw, heq⟩
            rw [hfind] at heq
            exact hnot raw (Option.some.inj heq)
          simp [hlist, hnone]
  | list items =>
      have hstring : ¬ StringUnder sort nameKey (.list items) := by
        rintro ⟨members, raw, heq, -⟩
        cases heq
      cases items with
      | nil =>
          have hlist : ¬ NonemptyList (.list []) := by
            rintro ⟨item, items, heq⟩
            cases heq
          have hread : AddBody.decode sort (.list []) = .ok ⟨.missing, .missing⟩ := rfl
          simp [hread, hlist, hstring]
      | cons item items =>
          have hread : AddBody.decode sort (.list (item :: items)) = .error .undefined := rfl
          exact ⟨fun _ => Or.inl ⟨item, items, rfl⟩, fun _ => ⟨.undefined, hread⟩⟩
  | _ =>
      constructor
      · rintro ⟨f, hf⟩
        have hok : Except.ok (⟨.mistyped, .missing⟩ : AddBody) = .error f := hf
        cases hok
      · rintro (⟨item, items, heq⟩ | ⟨⟨members, raw, heq, -⟩, -⟩) <;> cases heq

/-- When a document has no defined reading as an `/api/remove_node` body. -/
theorem decode_remove_error_iff (hdoc : Document 5000 v text) :
    (∃ f, RemoveBody.decode sort v = .error f) ↔ NonemptyList v ∨ BlankUnder sort idKey v := by
  have hdecode : RemoveBody.decode sort v = (field sort idKey RValue.i v).map RemoveBody.mk := by
    show (field sort idKey RValue.i v >>= _) = _
    cases field sort idKey RValue.i v <;> rfl
  rw [hdecode, map_error_iff]
  cases v with
  | object members =>
      have hlist : ¬ NonemptyList (.object members) := by
        rintro ⟨item, items, heq⟩
        cases heq
      rw [field_i_error_iff hdoc]
      simp [hlist]
  | list items =>
      have hblank : ¬ BlankUnder sort idKey (.list items) := by
        rintro ⟨members, raw, heq, -⟩
        cases heq
      cases items with
      | nil =>
          have hlist : ¬ NonemptyList (.list []) := by
            rintro ⟨item, items, heq⟩
            cases heq
          rw [field_list]
          simp [hlist, hblank]
      | cons item items =>
          rw [field_list]
          simp [NonemptyList]
  | _ =>
      constructor
      · rintro ⟨f, hf⟩
        have hok : Except.ok (.mistyped : Field Int64) = .error f := hf
        cases hok
      · rintro (⟨item, items, heq⟩ | ⟨members, raw, heq, -⟩) <;> cases heq

/-- A text has no defined reading where the document that it is has none. -/
theorem bodyOfText_error_iff {β : Type} {decode : RValue → Except Failure β}
    {Undefined : RValue → Prop}
    (hdecode : ∀ v, Document 5000 v (untilNul text) →
      ((∃ f, decode v = .error f) ↔ Undefined v)) :
    (∃ f, bodyOfText decode text = .error f)
      ↔ ∃ v, Document 5000 v (untilNul text) ∧ Undefined v := by
  unfold bodyOfText
  cases hload : load text with
  | error e =>
      have hnone : ¬ ∃ v, Document 5000 v (untilNul text) := by
        rintro ⟨v, hdoc⟩
        rw [load_ok_iff.mpr hdoc] at hload
        cases hload
      constructor
      · rintro ⟨f, hf⟩
        cases hf
      · rintro ⟨v, hdoc, -⟩
        exact absurd ⟨v, hdoc⟩ hnone
  | ok v =>
      have hdoc := load_ok_iff.mp hload
      show (∃ f, (decode v).map some = .error f) ↔ _
      rw [map_error_iff, hdecode v hdoc]
      constructor
      · intro h
        exact ⟨v, hdoc, h⟩
      · rintro ⟨v', hdoc', h⟩
        rwa [document_unique hdoc hdoc']

end Defined

/-! ## §5. Bodies that Crow has written. -/

section Written

variable {sort : MemberSort} {iteration : Order} {fields : List (String × JsonValue)}

theorem height_toWValue (x : JsonValue) : x.toWValue.height = 0 := by
  cases x <;> rfl

/-- The members of an object that was written, as they are read back. -/
def membersOf (iteration : Order) (fields : List (String × JsonValue)) :
    List (List Char × RValue) :=
  (iteration.arrange (fields.map fun f => (f.1.toList, f.2.toWValue))).map
    fun m => (m.1, m.2.readBack)

theorem load_objectOf : load (dump (objectOf iteration fields))
    = .ok (.object (membersOf iteration fields)) := by
  have hheight : (objectOf iteration fields).height ≤ 5000 := by
    have hscalar : WValue.heightMembers
        (iteration.arrange (fields.map fun f => (f.1.toList, f.2.toWValue))) ≤ 0 := by
      rw [heightMembers_le]
      intro m hm
      obtain ⟨f, -, rfl⟩ := List.mem_map.mp ((iteration.perm _).mem_iff.mp hm)
      exact (height_toWValue f.2).le
    show WValue.heightMembers _ + 1 ≤ 5000
    omega
  rw [load_dump, if_pos hheight]
  show Except.ok (RValue.object (WValue.readBackMembers _)) = _
  rw [readBackMembers_eq]
  rfl

theorem membersOf_perm (iteration : Order) (fields : List (String × JsonValue)) :
    (membersOf iteration fields).Perm
      (fields.map fun f => (f.1.toList, f.2.toWValue.readBack)) := by
  have := (iteration.perm (fields.map fun f => (f.1.toList, f.2.toWValue))).map
    fun m => (m.1, m.2.readBack)
  rwa [List.map_map] at this

/-- **Each field is found again**, whatever the order of the writer and the sort
of the reader are. -/
theorem find_membersOf (hnodup : (fields.map Prod.fst).Nodup) {key : String} {x : JsonValue}
    (hmem : (key, x) ∈ fields) :
    sort.find key.toList (membersOf iteration fields) = some x.toWValue.readBack := by
  have hperm := membersOf_perm iteration fields
  have hinj : Function.Injective String.toList := fun _ _ => String.toList_inj.mp
  have hkeys : ((membersOf iteration fields).map Prod.fst).Nodup := by
    rw [(hperm.map Prod.fst).nodup_iff, List.map_map]
    have hmap : (Prod.fst ∘ fun f : String × JsonValue => (f.1.toList, f.2.toWValue.readBack))
        = String.toList ∘ Prod.fst := rfl
    rw [hmap, ← List.map_map]
    exact hnodup.map hinj
  exact find_eq_some sort hkeys (hperm.mem_iff.mpr (List.mem_map.mpr ⟨_, hmem, rfl⟩))

theorem find_membersOf_none {key : String} (hmem : key ∉ fields.map Prod.fst) :
    sort.find key.toList (membersOf iteration fields) = none := by
  rw [find_eq_none_iff]
  intro hkey
  obtain ⟨m, hm, hfst⟩ := List.mem_map.mp hkey
  obtain ⟨f, hf, rfl⟩ := List.mem_map.mp ((membersOf_perm iteration fields).mem_iff.mp hm)
  exact hmem (List.mem_map.mpr ⟨f, hf, String.toList_inj.mp hfst⟩)

/-- A number of 64 bits comes back as it was. -/
theorem clamp_int64 (v : Int64) : clamp v.toInt = v :=
  Int64.toInt_inj.mp (clamp_toInt (Int64.minValue_le_toInt v) (Int64.toInt_le v))

/-- A number that was written, in the accessor of the handlers. -/
theorem intField_written (v : Int64) :
    caught (valueField RValue.i (JsonValue.int v.toInt).toWValue.readBack) = .ok (.given v) := by
  have hread : (JsonValue.int v.toInt).toWValue.readBack = .number (toString v.toInt) := rfl
  rw [hread, intField]
  simp only [lexicalCast_toString, clamp_int64]

/-- The fields of a request to add a node, with or without a parent. -/
def addFields (name : String) (parent_id : Option Int64) : List (String × JsonValue) :=
  ("name", .string name) :: parent_id.toList.map fun v => ("parent_id", .int v.toInt)

def Field.ofOption {α : Type} : Option α → Field α
  | none => .missing
  | some a => .given a

/-- What was written under the keys of the handler is read. -/
theorem addBody_written (name : String) (parent_id : Option Int64) :
    AddBody.ofText sort (dump (objectOf iteration (addFields name parent_id)))
      = .ok (some ⟨.given name, .ofOption parent_id⟩) := by
  have hnodup : ((addFields name parent_id).map Prod.fst).Nodup := by
    cases parent_id <;> simp [addFields]
  have hname : sort.find nameKey (membersOf iteration (addFields name parent_id))
      = some (.string (escape name.toList)) := find_membersOf hnodup List.mem_cons_self
  have hparent : field sort parentKey RValue.i
      (.object (membersOf iteration (addFields name parent_id))) = .ok (.ofOption parent_id) := by
    rw [field_object]
    cases parent_id with
    | none =>
        have hnone : sort.find parentKey (membersOf iteration (addFields name none)) = none :=
          @find_membersOf_none sort iteration _ "parent_id" (by simp [addFields])
        rw [hnone]
        rfl
    | some v =>
        have hsome : sort.find parentKey (membersOf iteration (addFields name (some v)))
            = some (JsonValue.int v.toInt).toWValue.readBack :=
          find_membersOf hnodup (List.mem_cons_of_mem _ List.mem_cons_self)
        rw [hsome]
        exact intField_written v
  unfold AddBody.ofText bodyOfText
  rw [load_objectOf]
  simp only [decode_object, hname, hparent]
  rw [stringValue_eq, unescape_escape, String.ofList_toList]
  rfl

theorem removeBody_written (id : Int64) :
    RemoveBody.ofText sort (dump (objectOf iteration [("id", .int id.toInt)]))
      = .ok (some ⟨.given id⟩) := by
  have hfind : sort.find idKey (membersOf iteration [("id", .int id.toInt)])
      = some (JsonValue.int id.toInt).toWValue.readBack := by
    have hnodup : (([("id", .int id.toInt)] : List (String × JsonValue)).map Prod.fst).Nodup := by
      simp
    exact find_membersOf hnodup List.mem_cons_self
  have hfield : field sort idKey RValue.i (.object (membersOf iteration [("id", .int id.toInt)]))
      = .ok (.given id) := by
    rw [field_object, hfind]
    exact intField_written id
  unfold RemoveBody.ofText bodyOfText
  rw [load_objectOf]
  simp only [RemoveBody.decode, hfield]
  rfl

/-- The parent that a request to add a node asks for. -/
def parentArgument : Option Int64 → Int
  | none => -1
  | some v => narrow v

theorem arguments_ofOption {name : String} (parent_id : Option Int64) :
    (AddBody.mk (.given name) (.ofOption parent_id)).arguments
      = .ok (name, parentArgument parent_id) := by
  cases parent_id <;> rfl

/-- The text is one of an object with the id and the name. -/
def Names (sort : MemberSort) (text : List Char) (id : Int) (name : String) : Prop :=
  ∃ v idv namev, load text = .ok v
    ∧ v.index sort idKey = .ok idv ∧ idv.i.map Int64.toInt = .ok id
    ∧ v.index sort nameKey = .ok namev ∧ readString namev = .ok name

/-- The answer to an `addNode` names the node, and no other. -/
theorem names_added {k id : Int} {name name' : String}
    (hint : Tables.intMin ≤ k ∧ k ≤ Tables.intMax) :
    Names sort ((HttpResponse.added k name).body iteration) id name' ↔ id = k ∧ name' = name := by
  let fields : List (String × JsonValue) :=
    [("message", .string "Node added successfully"), ("id", .int k), ("name", .string name)]
  have hload : load ((HttpResponse.added k name).body iteration)
      = .ok (.object (membersOf iteration fields)) := load_objectOf
  have hnodup : (fields.map Prod.fst).Nodup := by
    show ["message", "id", "name"].Nodup
    decide
  have hfindId : sort.find idKey (membersOf iteration fields)
      = some (JsonValue.int k).toWValue.readBack :=
    @find_membersOf sort iteration fields hnodup "id" (.int k) (by simp [fields])
  have hfindName : sort.find nameKey (membersOf iteration fields)
      = some (JsonValue.string name).toWValue.readBack :=
    @find_membersOf sort iteration fields hnodup "name" (.string name) (by simp [fields])
  have hid : (JsonValue.int k).toWValue.readBack.i.map Int64.toInt = .ok k := by
    have hclamp : (clamp k).toInt = k := by
      refine clamp_toInt (Int.le_trans ?_ hint.1) (Int.le_trans hint.2 ?_) <;> decide
    show (RValue.i (.number (Crow.toString k))).map Int64.toInt = _
    simp only [RValue.i, lexicalCast_toString]
    show Except.ok (clamp k).toInt = _
    rw [hclamp]
  have hname : readString (JsonValue.string name).toWValue.readBack = .ok name := by
    show Except.ok (String.ofList (stringValue (escape name.toList))) = _
    rw [stringValue_eq, unescape_escape, String.ofList_toList]
  have hindexId : (RValue.object (membersOf iteration fields)).index sort idKey
      = .ok (JsonValue.int k).toWValue.readBack := by simp only [RValue.index, hfindId]
  have hindexName : (RValue.object (membersOf iteration fields)).index sort nameKey
      = .ok (JsonValue.string name).toWValue.readBack := by simp only [RValue.index, hfindName]
  constructor
  · rintro ⟨v, idv, namev, hv, hidv, hi, hnamev, hs⟩
    obtain rfl := Except.ok.inj (hload.symm.trans hv)
    obtain rfl := Except.ok.inj (hindexId.symm.trans hidv)
    obtain rfl := Except.ok.inj (hindexName.symm.trans hnamev)
    exact ⟨Except.ok.inj (hi.symm.trans hid), Except.ok.inj (hs.symm.trans hname)⟩
  · rintro ⟨rfl, rfl⟩
    exact ⟨_, _, _, hload, hindexId, hid, hindexName, hname⟩

end Written

end ApiSyncer
