/-
  ApiSyncer.Lib.Session
  ─────────────────────
  **ONE SESSION OF A TRANSACTIONAL STORE.**

  A session sees the committed tables through the list of its own writes that
  are not committed yet.  With `autocommit` on every write is committed at
  once; with it off writes wait for `commit` (or for `autocommit` to be turned
  on again) and `rollback` discards them.  The `log` keeps what the session
  did, so that a property can name the writes that a rollback discarded.

  The tables and the writes are parameters: `Applies W T` says what a write
  does to the tables.

      view_write       a write is visible to its own session at once
      Both             "true of the committed tables AND of the session's view"
      Both.*           which every session command preserves
      Wrote            the session made this write since then
      InBlock          writes made one after the other with autocommit off
      Ends             a block that was committed or rolled back as a whole
-/
import Mathlib.Data.List.Basic

namespace ApiSyncer.Lib

universe u v

/-- Writes of type `W` act on tables of type `T`. -/
class Applies (W : Type u) (T : outParam (Type v)) where
  apply : T → W → T

/-- What a session did, in order. -/
inductive Event (W : Type u) where
  | write (w : W)
  | commit (ws : List W)
  | rollback (ws : List W)

/-- The writes among the events. -/
def Event.writes {W : Type u} : List (Event W) → List W
  | [] => []
  | .write w :: es => w :: Event.writes es
  | .commit _ :: es => Event.writes es
  | .rollback _ :: es => Event.writes es

theorem Event.writes_append {W : Type u} (es fs : List (Event W)) :
    Event.writes (es ++ fs) = Event.writes es ++ Event.writes fs := by
  induction es with
  | nil => rfl
  | cons e es ih =>
      cases e with
      | write w => exact congrArg (w :: ·) ih
      | commit _ => exact ih
      | rollback _ => exact ih

theorem Event.writes_map_write {W : Type u} (ws : List W) :
    Event.writes (ws.map .write) = ws := by
  induction ws with
  | nil => rfl
  | cons w ws ih => exact congrArg (w :: ·) ih

/-- A session: the committed tables, its own uncommitted writes, its mode and
its log.  Outside a transaction nothing waits for a commit. -/
structure Session (W : Type u) (T : Type v) where
  committed : T
  pending : List W
  autocommit : Bool
  log : List (Event W)
  settled : autocommit = true → pending = []

variable {W : Type u} {T : Type v} [Applies W T]

namespace Session

/-! ## §1. The commands. -/

/-- A session just opened on the committed tables `t`. -/
def opened (t : T) : Session W T :=
  ⟨t, [], true, [], fun _ => rfl⟩

/-- What the session reads: the committed tables under its own writes. -/
def view (s : Session W T) : T :=
  s.pending.foldl Applies.apply s.committed

/-- `COMMIT`. -/
def commit (s : Session W T) : Session W T :=
  { s with committed := s.view, pending := [], log := s.log ++ [.commit s.pending],
           settled := fun _ => rfl }

/-- `ROLLBACK`. -/
def rollback (s : Session W T) : Session W T :=
  { s with pending := [], log := s.log ++ [.rollback s.pending], settled := fun _ => rfl }

/-- `SET AUTOCOMMIT`: turning it on commits the open transaction. -/
def setAutocommit (on : Bool) (s : Session W T) : Session W T :=
  if on then { s.commit with autocommit := true, settled := fun _ => rfl }
  else { s with autocommit := false, settled := fun h => by cases h }

/-- One write. -/
def write (w : W) (s : Session W T) : Session W T :=
  if h : s.autocommit = true then
    -- a transaction of one write
    { s with committed := Applies.apply s.committed w,
             log := s.log ++ [.write w, .commit [w]], settled := s.settled }
  else
    { s with pending := s.pending ++ [w], log := s.log ++ [.write w],
             settled := fun h' => absurd h' h }

/-- The connection closes and a new one opens: the store discards what was not
committed. -/
def reopened (s : Session W T) : Session W T := opened s.committed

/-! ## §2. What each command does to the committed tables and to the view. -/

theorem view_eq_committed {s : Session W T} (h : s.pending = []) :
    s.view = s.committed := by
  unfold view
  rw [h]
  rfl

@[simp] theorem log_commit (s : Session W T) :
    s.commit.log = s.log ++ [.commit s.pending] := rfl

omit [Applies W T] in
@[simp] theorem log_rollback (s : Session W T) :
    s.rollback.log = s.log ++ [.rollback s.pending] := rfl

@[simp] theorem committed_setAutocommit_true (s : Session W T) :
    (s.setAutocommit true).committed = s.view := rfl

@[simp] theorem log_setAutocommit_true (s : Session W T) :
    (s.setAutocommit true).log = s.log ++ [.commit s.pending] := rfl

@[simp] theorem log_setAutocommit_false (s : Session W T) :
    (s.setAutocommit false).log = s.log := rfl

/-- **A write is visible to its own session at once**, in either mode. -/
@[simp] theorem view_write (w : W) (s : Session W T) :
    (s.write w).view = Applies.apply s.view w := by
  unfold write
  split
  next h =>
      show s.pending.foldl Applies.apply (Applies.apply s.committed w) = _
      rw [view_eq_committed (s.settled h), s.settled h]
      rfl
  next =>
      show (s.pending ++ [w]).foldl Applies.apply s.committed = _
      rw [List.foldl_append]
      rfl

/-- A write is committed at once, or not yet. -/
theorem committed_write (w : W) (s : Session W T) :
    (s.write w).committed
      = if s.autocommit = true then (s.write w).view else s.committed := by
  rw [view_write]
  unfold write
  split
  next h =>
      show Applies.apply s.committed w = _
      rw [view_eq_committed (s.settled h)]
  next => rfl

theorem committed_write_of_off {s : Session W T} (h : s.autocommit = false) (w : W) :
    (s.write w).committed = s.committed := by
  rw [committed_write, h]
  rfl

theorem pending_write_of_off {s : Session W T} (h : s.autocommit = false) (w : W) :
    (s.write w).pending = s.pending ++ [w] := by
  unfold write
  rw [dif_neg (by simp [h])]

theorem log_write_of_off {s : Session W T} (h : s.autocommit = false) (w : W) :
    (s.write w).log = s.log ++ [.write w] := by
  unfold write
  rw [dif_neg (by simp [h])]

@[simp] theorem autocommit_write (w : W) (s : Session W T) :
    (s.write w).autocommit = s.autocommit := by
  unfold write
  split <;> rfl

/-! ## §3. Facts about both the committed tables and the view. -/

/-- `P` holds of the committed tables and of what the session reads. -/
structure Both (P : T → Prop) (s : Session W T) : Prop where
  committed : P s.committed
  view : P s.view

variable {P Q : T → Prop} {s : Session W T}

theorem Both.imp (h : Both P s) (himp : ∀ t, P t → Q t) : Both Q s :=
  ⟨himp _ h.committed, himp _ h.view⟩

theorem Both.and (hP : Both P s) (hQ : Both Q s) : Both (fun t => P t ∧ Q t) s :=
  ⟨⟨hP.committed, hQ.committed⟩, ⟨hP.view, hQ.view⟩⟩

theorem Both.opened {t : T} (h : P t) : Both P (Session.opened t : Session W T) :=
  ⟨h, h⟩

theorem Both.commit (h : Both P s) : Both P s.commit := ⟨h.view, h.view⟩

theorem Both.rollback (h : Both P s) : Both P s.rollback := ⟨h.committed, h.committed⟩

theorem Both.setAutocommit (h : Both P s) (on : Bool) : Both P (s.setAutocommit on) := by
  cases on with
  | true => exact ⟨h.view, h.view⟩
  | false => exact ⟨h.committed, h.view⟩

theorem Both.reopened (h : Both P s) : Both P s.reopened := ⟨h.committed, h.committed⟩

/-- **The write rule**: what a write preserves of the view it preserves of
both, whatever the mode. -/
theorem Both.write (h : Both P s) {w : W} (hw : P s.view → P (Applies.apply s.view w)) :
    Both P (s.write w) := by
  have hview : P (s.write w).view := by
    rw [view_write]
    exact hw h.view
  refine ⟨?_, hview⟩
  rw [committed_write]
  split
  · exact hview
  · exact h.committed

/-! ## §4. What a session did since an earlier state of it. -/

/-- `s'` is `s` further on. -/
def Extends (s s' : Session W T) : Prop := ∃ events, s'.log = s.log ++ events

/-- Since `s` the session made the write `w`. -/
def Wrote (s s' : Session W T) (w : W) : Prop :=
  ∃ events, s'.log = s.log ++ events ∧ .write w ∈ events

omit [Applies W T] in
theorem Extends.refl (s : Session W T) : Extends s s := ⟨[], (List.append_nil _).symm⟩

omit [Applies W T] in
theorem Extends.trans {s s' s'' : Session W T} (h : Extends s s') (h' : Extends s' s'') :
    Extends s s'' := by
  obtain ⟨es, hes⟩ := h
  obtain ⟨fs, hfs⟩ := h'
  exact ⟨es ++ fs, by rw [hfs, hes, List.append_assoc]⟩

theorem log_write (w : W) (s : Session W T) :
    ∃ events, (s.write w).log = s.log ++ .write w :: events := by
  unfold Session.write
  split
  · exact ⟨[.commit [w]], rfl⟩
  · exact ⟨[], rfl⟩

theorem Extends.write (s : Session W T) (w : W) : Extends s (s.write w) := by
  obtain ⟨events, h⟩ := log_write w s
  exact ⟨_, h⟩

theorem Extends.commit (s : Session W T) : Extends s s.commit := ⟨_, rfl⟩

omit [Applies W T] in
theorem Extends.rollback (s : Session W T) : Extends s s.rollback := ⟨_, rfl⟩

theorem Extends.setAutocommit (s : Session W T) (on : Bool) :
    Extends s (s.setAutocommit on) := by
  cases on with
  | true => exact ⟨_, rfl⟩
  | false => exact Extends.refl s

theorem Extends.wrote {s s' : Session W T} (h : Extends s s') (w : W) :
    Wrote s (s'.write w) w := by
  obtain ⟨es, hes⟩ := h
  obtain ⟨fs, hfs⟩ := log_write w s'
  refine ⟨es ++ .write w :: fs, by rw [hfs, hes, List.append_assoc], ?_⟩
  exact List.mem_append_right _ List.mem_cons_self

omit [Applies W T] in
theorem Wrote.mono {s s' s'' : Session W T} {w : W} (h : Wrote s s' w)
    (h' : Extends s' s'') : Wrote s s'' w := by
  obtain ⟨es, hes, hmem⟩ := h
  obtain ⟨fs, hfs⟩ := h'
  exact ⟨es ++ fs, by rw [hfs, hes, List.append_assoc], List.mem_append_left _ hmem⟩

/-! ## §5. Blocks of writes. -/

/-- `s'` has autocommit off and holds the writes `ws` made since `s`. -/
structure InBlock (s s' : Session W T) (ws : List W) : Prop where
  autocommit : s'.autocommit = false
  committed : s'.committed = s.committed
  pending : s'.pending = ws
  log : s'.log = s.log ++ ws.map .write

/-- How a request left the session: nothing waits for a commit, a rollback has
discarded all writes of the request and no others, and without one they are
all committed. -/
structure Ends (s s' : Session W T) (ws : List W) (undone : Bool) : Prop where
  pending : s'.pending = []
  committed : s'.committed = if undone then s.committed else ws.foldl Applies.apply s.committed
  log : ∃ events, s'.log = s.log ++ events ∧ Event.writes events = ws
    ∧ ∀ us, .rollback us ∈ events → us = ws

namespace InBlock

variable {s s' : Session W T} {ws : List W}

theorem start (h : s.pending = []) : InBlock s (s.setAutocommit false) [] where
  autocommit := rfl
  committed := rfl
  pending := h
  log := by simp

theorem write (h : InBlock s s' ws) (w : W) : InBlock s (s'.write w) (ws ++ [w]) where
  autocommit := by rw [autocommit_write, h.autocommit]
  committed := by rw [committed_write_of_off h.autocommit, h.committed]
  pending := by rw [pending_write_of_off h.autocommit, h.pending]
  log := by rw [log_write_of_off h.autocommit, h.log]; simp

theorem view (h : InBlock s s' ws) : s'.view = ws.foldl Applies.apply s.committed := by
  unfold Session.view
  rw [h.pending, h.committed]

/-- Nothing was written. -/
theorem ends (h : InBlock s s' []) : Ends s s' [] false where
  pending := h.pending
  committed := h.committed
  log := ⟨[], h.log, rfl, fun _ hmem => (List.not_mem_nil hmem).elim⟩

theorem rollback (h : InBlock s s' ws) : Ends s s'.rollback ws true where
  pending := rfl
  committed := h.committed
  log := by
    refine ⟨ws.map .write ++ [.rollback ws], ?_, ?_, ?_⟩
    · rw [log_rollback, h.log, h.pending, List.append_assoc]
    · rw [Event.writes_append, Event.writes_map_write]
      exact List.append_nil ws
    · intro us hmem
      rcases List.mem_append.mp hmem with hmem | hmem
      · obtain ⟨w, -, hw⟩ := List.mem_map.mp hmem
        cases hw
      · cases List.mem_singleton.mp hmem
        rfl

/-- `COMMIT`, or autocommit turned on. -/
theorem commit (h : InBlock s s' ws) : Ends s s'.commit ws false where
  pending := rfl
  committed := h.view
  log := by
    refine ⟨ws.map .write ++ [.commit ws], ?_, ?_, ?_⟩
    · rw [log_commit, h.log, h.pending, List.append_assoc]
    · rw [Event.writes_append, Event.writes_map_write]
      exact List.append_nil ws
    · intro us hmem
      rcases List.mem_append.mp hmem with hmem | hmem
      · obtain ⟨w, -, hw⟩ := List.mem_map.mp hmem
        cases hw
      · cases List.mem_singleton.mp hmem

theorem autocommitOn (h : InBlock s s' ws) : Ends s (s'.setAutocommit true) ws false where
  pending := rfl
  committed := h.commit.committed
  log := h.commit.log

end InBlock

namespace Ends

variable {s s' : Session W T} {ws : List W} {undone : Bool}

theorem refl (h : s.pending = []) : Ends s s [] false where
  pending := h
  committed := rfl
  log := ⟨[], (List.append_nil _).symm, rfl, fun _ hmem => (List.not_mem_nil hmem).elim⟩

/-- Autocommit turned on when nothing waits. -/
theorem autocommitOn (h : Ends s s' ws undone) :
    Ends s (s'.setAutocommit true) ws undone where
  pending := rfl
  committed := by
    rw [committed_setAutocommit_true, view_eq_committed h.pending, h.committed]
  log := by
    obtain ⟨events, hlog, hwrites, hown⟩ := h.log
    refine ⟨events ++ [.commit []], ?_, ?_, ?_⟩
    · rw [log_setAutocommit_true, hlog, h.pending, List.append_assoc]
    · rw [Event.writes_append, hwrites]
      exact List.append_nil ws
    · intro us hmem
      rcases List.mem_append.mp hmem with hmem | hmem
      · exact hown us hmem
      · cases List.mem_singleton.mp hmem

end Ends

end Session

end ApiSyncer.Lib
