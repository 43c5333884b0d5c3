import Dodo.Persist.Sqlite

/-!
# `Persist.KVStore` — a store of texts

The functions of `KVStore` on texts bind a prepared statement, step it and reset it. For each of them there is a
lemma that says what it returns and what it makes of the table, from a session in which all statements can be
bound (`Session.prepared`). A statement that throws half way is not reset.
-/

namespace Dodo.Persist

open Common

namespace KVStore

variable {σ : Type} [Sqlite σ] (limit : Nat)

def deleteKey (key : Str) : Sql σ Bool := do
  DML.bind limit .stmt_delete 1 key
  let affected ← DML.execute .stmt_delete
  Statement.reset .stmt_delete
  return affected == 1

def exists_ (key : Str) : Sql σ Bool := do
  DML.bind limit .stmt_exists 1 key
  let _ ← Query.step .stmt_exists
  let count ← Query.getInt .stmt_exists 0
  Statement.reset .stmt_exists
  return count == 1

/-- `getValue` of a text: what it writes to `value`, unless it returns false. -/
def getValue (key : Str) : Sql σ (Option Str) := do
  DML.bind limit .stmt_getvalue 1 key
  let row ← Query.step .stmt_getvalue
  let value ← if row then some <$> Query.getText .stmt_getvalue 0 else pure none
  Statement.reset .stmt_getvalue
  return value

def insertKey (key value : Str) : Sql σ Bool := do
  DML.bind limit .stmt_insert 1 key
  DML.bind limit .stmt_insert 2 value
  let count ← DML.execute .stmt_insert
  Statement.reset .stmt_insert
  return count == 1

def setKey (key value : Str) : Sql σ Bool := do
  DML.bind limit .stmt_update 1 value
  DML.bind limit .stmt_update 2 key
  let rows ← DML.execute .stmt_update
  Statement.reset .stmt_update
  return rows == 1

def ensureWithDefault (key default : Str) : Sql σ Str := do
  match ← getValue limit key with
  | some result => return result
  | none =>
    let _ ← insertKey limit key default
    return default

end KVStore

/-! ## Running a call -/

section Running

variable {limit n m : Nat} {t t' : Table} {stmt : Stmt} {parameter : Nat → Value} {key value x y : Str}
  {σ α β : Type} {p : Sql σ α} {f : α → Sql σ β}

section Sql

variable {s s' : σ}

theorem Sql.bind_ok {a : α} (h : p.run s = .ok a s') : (p >>= f).run s = (f a).run s' := by
  rw [EStateM.run_bind, h]

theorem Sql.bind_error {e : SqlException} (h : p.run s = .error e s') : (p >>= f).run s = .error e s' := by
  rw [EStateM.run_bind, h]

theorem Sql.map_ok {g : α → β} {a : α} (h : p.run s = .ok a s') : (g <$> p).run s = .ok (g a) s' := by
  rw [map_eq_pure_bind, bind_ok h, EStateM.run_pure]

theorem Sql.map_error {g : α → β} {e : SqlException} (h : p.run s = .error e s') :
    (g <$> p).run s = .error e s' := by
  rw [map_eq_pure_bind, bind_error h]

theorem Sql.map_throws {g : α → β} {e : SqlException} (h : ∃ s', p.run s = .error e s') :
    ∃ s', (g <$> p).run s = .error e s' := by
  obtain ⟨s', hs'⟩ := h
  exact ⟨s', map_error hs'⟩

theorem Sql.check_ok {f : σ → Code × σ} (h : f s = (.ok, s')) : (Sql.check f).run s = .ok () s' := by
  rw [EStateM.run, Sql.check, h]

theorem Sql.check_error {f : σ → Code × σ} {code : Code} (h : f s = (code, s')) (hcode : code ≠ .ok) :
    (Sql.check f).run s = .error ⟨code⟩ s' := by
  rw [EStateM.run, Sql.check, h]
  cases code <;> first | rfl | exact absurd rfl hcode

end Sql

variable {s s' : Session}

/-- All statements can be bound. -/
def Session.prepared (t : Table) (n : Nat) : Session := { table := t, store := { changes := n } }

/-- The same, with parameters of one statement. -/
def Session.bound (t : Table) (n : Nat) (stmt : Stmt) (parameter : Nat → Value) : Session :=
  (Session.prepared t n).setStatement stmt { bindings := parameter }

theorem Session.prepared_eq_bound (t : Table) (n : Nat) (stmt : Stmt) :
    Session.prepared t n = Session.bound t n stmt fun _ => .null := by
  rw [bound, setStatement, show (Statement.mk (fun _ => .null) .ready []) = (prepared t n).store.stmts stmt from rfl,
    Function.update_eq_self]

@[simp] theorem Session.statement_setStatement (s : Session) (stmt : Stmt) (statement : Statement) :
    (s.setStatement stmt statement).statement stmt = statement :=
  Function.update_self ..

@[simp] theorem Session.setStatement_setStatement (s : Session) (stmt : Stmt) (first second : Statement) :
    (s.setStatement stmt first).setStatement stmt second = s.setStatement stmt second := by
  simp only [setStatement, Function.update_idem]

/-- A `reset` brings the statement back. -/
theorem reset_stepped {statement : Statement} (h : statement.progress = .stepped) :
    (Statement.reset stmt).run ((Session.prepared t n).setStatement stmt statement) = .ok () (.prepared t n) := by
  have hreset : ((Session.prepared t n).setStatement stmt statement).reset stmt = (.ok, .prepared t n) := by
    rw [Session.reset, Session.statement_setStatement, h, Session.setStatement_setStatement]
    exact congrArg _ (Session.prepared_eq_bound t n stmt).symm
  exact Sql.check_ok hreset

theorem bindValue_bound (v : Value) (position : Nat) :
    (DML.bindValue (some v) stmt position).run (Session.bound t n stmt parameter) =
      .ok () (.bound t n stmt (Function.update parameter position v)) := by
  have hbind : (Session.bound t n stmt parameter).bind stmt position (some v) =
      (.ok, .bound t n stmt (Function.update parameter position v)) := by
    rw [Session.bind, Session.bound, Session.statement_setStatement]
    dsimp only
    rw [Session.setStatement_setStatement, Session.bound]
  exact Sql.check_ok hbind

theorem bindValue_toobig (t : Table) (n : Nat) (stmt : Stmt) (parameter : Nat → Value) (position : Nat) :
    ∃ s', (DML.bindValue none stmt position).run (Session.bound t n stmt parameter) = .error ⟨.toobig⟩ s' := by
  have hbind : ∃ s', (Session.bound t n stmt parameter).bind stmt position none = (.toobig, s') := by
    rw [Session.bind, Session.bound, Session.statement_setStatement]
    exact ⟨_, rfl⟩
  obtain ⟨s', hs'⟩ := hbind
  exact ⟨s', Sql.check_error hs' (by decide)⟩

/-- A statement that has not been reset cannot be bound. -/
theorem bindValue_misuse (value : Option Value) (position : Nat) (h : (s.statement stmt).progress ≠ .ready) :
    (DML.bindValue value stmt position).run s = .error ⟨.misuse⟩ s := by
  have hbind : s.bind stmt position value = (.misuse, s) := by
    unfold Session.bind
    dsimp only
    split
    case h_1 hready => exact absurd hready h
    case h_2 => rfl
  exact Sql.check_error hbind (by decide)

theorem bind_bound (position : Nat) (h : DML.textOf limit value = some x) :
    (DML.bind limit stmt position value).run (Session.bound t n stmt parameter) =
      .ok () (.bound t n stmt (Function.update parameter position (.text x))) := by
  rw [DML.bind, h]
  exact bindValue_bound (.text x) position

theorem bind_toobig (t : Table) (n : Nat) (stmt : Stmt) (parameter : Nat → Value) (position : Nat)
    (h : DML.textOf limit value = none) :
    ∃ s', (DML.bind limit stmt position value).run (Session.bound t n stmt parameter) = .error ⟨.toobig⟩ s' := by
  rw [DML.bind, h]
  exact bindValue_toobig t n stmt parameter position

/-- A text within the limit is bound as it is. -/
theorem DML.textOf_of_short (hlimit : limit < 2 ^ 31) (h : value.length ≤ limit) :
    DML.textOf limit value = some value := by
  have hlength : asInt value.length = value.length := asInt_eq (by omega)
  have hnonneg : ¬ (value.length : Int) < 0 := by omega
  rw [textOf, bindableText, hlength, if_neg hnonneg, Int.toNat_natCast, List.take_length, if_pos h]

/-! One parameter and two. -/

theorem bind_one (p : Sql Session α) (h : DML.textOf limit key = some x) :
    (do
      DML.bind limit stmt 1 key
      p).run (Session.prepared t n) = p.run (Session.bound t n stmt (Function.update (fun _ => .null) 1 (.text x))) := by
  rw [Session.prepared_eq_bound t n stmt, Sql.bind_ok (bind_bound 1 h)]

theorem bind_one_toobig (p : Sql Session α) (h : DML.textOf limit key = none) :
    ∃ s', (do
      DML.bind limit stmt 1 key
      p).run (Session.prepared t n) = .error ⟨.toobig⟩ s' := by
  obtain ⟨s', hs'⟩ := bind_toobig t n stmt (fun _ => .null) 1 h
  rw [Session.prepared_eq_bound t n stmt, Sql.bind_error hs']
  exact ⟨s', rfl⟩

theorem bind_two (p : Sql Session α) (h : DML.textOf limit key = some x) (h' : DML.textOf limit value = some y) :
    (do
      DML.bind limit stmt 1 key
      DML.bind limit stmt 2 value
      p).run (Session.prepared t n) =
    p.run (Session.bound t n stmt (Function.update (Function.update (fun _ => .null) 1 (.text x)) 2 (.text y))) := by
  rw [bind_one _ h, Sql.bind_ok (bind_bound 2 h')]

theorem bind_two_toobig (p : Sql Session α) (h : DML.textOf limit key = none ∨ DML.textOf limit value = none) :
    ∃ s', (do
      DML.bind limit stmt 1 key
      DML.bind limit stmt 2 value
      p).run (Session.prepared t n) = .error ⟨.toobig⟩ s' := by
  match hkey : DML.textOf limit key with
  | none => exact bind_one_toobig _ hkey
  | some x =>
      have hvalue : DML.textOf limit value = none := h.resolve_left (by rw [hkey]; nofun)
      obtain ⟨s', hs'⟩ := bind_toobig t n stmt (Function.update (fun _ => .null) 1 (.text x)) 2 hvalue
      rw [bind_one _ hkey, Sql.bind_error hs']
      exact ⟨s', rfl⟩

/-! A step, and what it leaves. -/

theorem Session.sqlite_step (stmt : Stmt) (s : Session) : Sqlite.step stmt s = s.step stmt := rfl

theorem step_bound (t : Table) (n : Nat) (stmt : Stmt) (parameter : Nat → Value) :
    (Session.bound t n stmt parameter).step stmt =
      match stmt.effect parameter t with
      | .row columns => (.row, (Session.prepared t n).setStatement stmt ⟨parameter, .stepped, columns⟩)
      | .done => (.done, (Session.prepared t n).setStatement stmt ⟨parameter, .stepped, []⟩)
      | .changed t' m => (.done, (Session.prepared t' m).setStatement stmt ⟨parameter, .stepped, []⟩)
      | .error code => (code, (Session.prepared t n).setStatement stmt ⟨parameter, .failed code, []⟩) := by
  rw [Session.step, Session.bound, Session.statement_setStatement]
  simp only [Session.setStatement_setStatement]
  rfl

/-- A statement that changes the table, and its `reset`. -/
theorem execute_reset (h : stmt.effect parameter t = .changed t' m) (f : Nat → α) :
    (do
      let count ← DML.execute stmt
      Statement.reset stmt
      return f count).run (Session.bound t n stmt parameter) = .ok (f m) (.prepared t' m) := by
  have hexecute : (DML.execute stmt).run (Session.bound t n stmt parameter) =
      .ok m ((Session.prepared t' m).setStatement stmt ⟨parameter, .stepped, []⟩) := by
    rw [EStateM.run, DML.execute, Session.sqlite_step, step_bound, h]
    rfl
  rw [Sql.bind_ok hexecute, Sql.bind_ok (reset_stepped rfl), EStateM.run_pure]

/-- A statement that fails is not reset. -/
theorem execute_error {code : Code} (h : stmt.effect parameter t = .error code) (hcode : code ≠ .done) :
    (DML.execute stmt).run (Session.bound t n stmt parameter) = .error ⟨code⟩
      ((Session.prepared t n).setStatement stmt ⟨parameter, .failed code, []⟩) := by
  rw [EStateM.run, DML.execute, Session.sqlite_step, step_bound, h]
  cases code <;> first | rfl | exact absurd rfl hcode

/-- A query that has a row. -/
theorem step_row {columns : List Value} (h : stmt.effect parameter t = .row columns) :
    (Query.step stmt).run (Session.bound t n stmt parameter) =
      .ok true ((Session.prepared t n).setStatement stmt ⟨parameter, .stepped, columns⟩) := by
  rw [EStateM.run, Query.step, Session.sqlite_step, step_bound, h]

theorem step_done (h : stmt.effect parameter t = .done) :
    (Query.step stmt).run (Session.bound t n stmt parameter) =
      .ok false ((Session.prepared t n).setStatement stmt ⟨parameter, .stepped, []⟩) := by
  rw [EStateM.run, Query.step, Session.sqlite_step, step_bound, h]

theorem column_zero {statement : Statement} {v : Value} (h : statement.columns = [v]) :
    (Query.column stmt 0).run (s.setStatement stmt statement) = .ok v (s.setStatement stmt statement) := by
  have hvalue : Sqlite.column stmt 0 (s.setStatement stmt statement) = v := by
    show ((s.setStatement stmt statement).statement stmt).columns.getD 0 .null = v
    rw [Session.statement_setStatement, h]
    rfl
  rw [EStateM.run, Query.column, hvalue]

theorem getInt_zero {statement : Statement} {v : Value} (h : statement.columns = [v]) :
    (Query.getInt stmt 0).run (s.setStatement stmt statement) = .ok v.columnInt (s.setStatement stmt statement) := by
  rw [Query.getInt, Sql.bind_ok (column_zero h), EStateM.run_pure]

theorem getText_zero {statement : Statement} {v : Value} {c : Str} (h : statement.columns = [v])
    (hv : v.columnText = some c) :
    (Query.getText stmt 0).run (s.setStatement stmt statement) = .ok (cstr c) (s.setStatement stmt statement) := by
  rw [Query.getText, Sql.bind_ok (column_zero h), hv, EStateM.run_pure]

end Running

namespace KVStore

variable {limit n : Nat} {t t' : Table} {key value x y : Str}

theorem deleteKey_eq (h : DML.textOf limit key = some x) :
    ∃ m, (deleteKey limit key).run (Session.prepared t n) =
      .ok (decide (t.lookup (.text x) ≠ none)) (.prepared (t.delete (.text x)) m) := by
  refine ⟨(t.matching (.text x)).length, ?_⟩
  rw [deleteKey, bind_one _ h, execute_reset (f := fun affected => affected == 1) rfl, Function.update_self,
    Table.matching_length]
  split_ifs with hnone <;> simp [hnone]

theorem exists_eq (h : DML.textOf limit key = some x) :
    (exists_ limit key).run (Session.prepared t n) = .ok (decide (t.lookup (.text x) ≠ none)) (.prepared t n) := by
  rw [exists_, bind_one _ h, Sql.bind_ok (step_row rfl), Sql.bind_ok (getInt_zero rfl),
    Sql.bind_ok (reset_stepped rfl), EStateM.run_pure, Function.update_self, Table.matching_length]
  split_ifs with hnone <;> simp [hnone, Value.columnInt]

/-- A text is read up to its first zero octet. -/
theorem getValue_eq (h : DML.textOf limit key = some x) :
    (getValue limit key).run (Session.prepared t n) =
      .ok ((t.lookup (.text x)).bind fun v => v.columnText.map cstr) (.prepared t n) := by
  rw [getValue, bind_one _ h]
  match hlookup : t.lookup (.text x) with
  | none =>
      have heffect : Stmt.effect .stmt_getvalue (Function.update (fun _ => .null) 1 (.text x)) t = .done := by
        rw [Stmt.effect, Function.update_self, hlookup]
      rw [Sql.bind_ok (step_done heffect), if_neg Bool.false_ne_true, pure_bind, Sql.bind_ok (reset_stepped rfl),
        EStateM.run_pure]
      rfl
  | some v =>
      have heffect : Stmt.effect .stmt_getvalue (Function.update (fun _ => .null) 1 (.text x)) t = .row [v] := by
        rw [Stmt.effect, Function.update_self, hlookup]
      obtain ⟨c, hc⟩ : ∃ c, v.columnText = some c := by
        cases v with
        | null => exact absurd hlookup (t.lookup_ne_null _)
        | integer n => exact ⟨_, rfl⟩
        | text c => exact ⟨c, rfl⟩
        | blob c => exact ⟨c, rfl⟩
      rw [Sql.bind_ok (step_row heffect), if_pos rfl, map_eq_pure_bind, bind_assoc,
        Sql.bind_ok (getText_zero rfl hc), pure_bind, Sql.bind_ok (reset_stepped rfl), EStateM.run_pure,
        Option.bind_some, hc]
      rfl

theorem insertKey_ok (h : DML.textOf limit key = some x) (h' : DML.textOf limit value = some y)
    (hinsert : t.insert ⟨.text x, .text y⟩ = .ok t') :
    (insertKey limit key value).run (Session.prepared t n) = .ok true (.prepared t' 1) := by
  have heffect : Stmt.effect .stmt_insert
      (Function.update (Function.update (fun _ => .null) 1 (.text x)) 2 (.text y)) t = .changed t' 1 := by
    rw [Stmt.effect, Function.update_self, Function.update_of_ne (by decide), Function.update_self, hinsert]
  rw [insertKey, bind_two _ h h', execute_reset heffect]
  rfl

/-- The key is there: the statement fails and stays as it is. -/
theorem insertKey_refused (h : DML.textOf limit key = some x) (h' : DML.textOf limit value = some y)
    (hpresent : t.lookup (.text x) ≠ none) :
    ∃ s', (insertKey limit key value).run (Session.prepared t n) = .error ⟨.constraint⟩ s' ∧ s'.table = t ∧
      (s'.statement .stmt_insert).progress = .failed .constraint := by
  have heffect : Stmt.effect .stmt_insert
      (Function.update (Function.update (fun _ => .null) 1 (.text x)) 2 (.text y)) t = .error .constraint := by
    rw [Stmt.effect, Function.update_self, Function.update_of_ne (by decide), Function.update_self,
      Table.insert_of_present hpresent]
  rw [insertKey, bind_two _ h h', Sql.bind_error (execute_error heffect (by decide))]
  refine ⟨_, rfl, rfl, ?_⟩
  rw [Session.statement_setStatement]

/-- From then on every `insertKey` of this `KVStore` throws. -/
theorem insertKey_misuse {s : Session} (h : (s.statement .stmt_insert).progress ≠ .ready) :
    (insertKey limit key value).run s = .error ⟨.misuse⟩ s := by
  exact Sql.bind_error (bindValue_misuse _ 1 h)

theorem setKey_ok (h : DML.textOf limit key = some x) (h' : DML.textOf limit value = some y)
    (hupdate : t.update (.text x) (.text y) = .ok t') :
    ∃ m, (setKey limit key value).run (Session.prepared t n) =
      .ok (decide (t.lookup (.text x) ≠ none)) (.prepared t' m) := by
  have heffect : Stmt.effect .stmt_update
      (Function.update (Function.update (fun _ => .null) 1 (.text y)) 2 (.text x)) t =
        .changed t' (t.matching (.text x)).length := by
    rw [Stmt.effect, Function.update_self, Function.update_of_ne (by decide), Function.update_self, hupdate]
  refine ⟨(t.matching (.text x)).length, ?_⟩
  rw [setKey, bind_two _ h' h, execute_reset heffect fun rows => rows == 1, Table.matching_length]
  split_ifs with hnone <;> simp [hnone]

section ensureWithDefault

variable {s s' s'' : Session} {default : Str} {e : SqlException}

/-- The key is there, and its text is returned. -/
theorem ensureWithDefault_found {result : Str} (h : (getValue limit key).run s = .ok (some result) s') :
    (ensureWithDefault limit key default).run s = .ok result s' := by
  rw [ensureWithDefault, Sql.bind_ok h, EStateM.run_pure]

/-- The key is missing, and inserted. -/
theorem ensureWithDefault_missing {inserted : Bool} (h : (getValue limit key).run s = .ok none s')
    (h' : (insertKey limit key default).run s' = .ok inserted s'') :
    (ensureWithDefault limit key default).run s = .ok default s'' := by
  rw [ensureWithDefault, Sql.bind_ok h, Sql.bind_ok h', EStateM.run_pure]

theorem ensureWithDefault_refused (h : (getValue limit key).run s = .ok none s')
    (h' : (insertKey limit key default).run s' = .error e s'') :
    (ensureWithDefault limit key default).run s = .error e s'' := by
  rw [ensureWithDefault, Sql.bind_ok h, Sql.bind_error h']

theorem ensureWithDefault_throws (h : (getValue limit key).run s = .error e s') :
    (ensureWithDefault limit key default).run s = .error e s' := by
  rw [ensureWithDefault, Sql.bind_error h]

end ensureWithDefault

/-- A text that SQLite does not take. -/
theorem getValue_toobig (h : DML.textOf limit key = none) :
    ∃ s', (getValue limit key).run (Session.prepared t n) = .error ⟨.toobig⟩ s' := bind_one_toobig _ h

theorem deleteKey_toobig (h : DML.textOf limit key = none) :
    ∃ s', (deleteKey limit key).run (Session.prepared t n) = .error ⟨.toobig⟩ s' := bind_one_toobig _ h

theorem exists_toobig (h : DML.textOf limit key = none) :
    ∃ s', (exists_ limit key).run (Session.prepared t n) = .error ⟨.toobig⟩ s' := bind_one_toobig _ h

theorem setKey_toobig (h : DML.textOf limit key = none ∨ DML.textOf limit value = none) :
    ∃ s', (setKey limit key value).run (Session.prepared t n) = .error ⟨.toobig⟩ s' := bind_two_toobig _ h.symm

theorem insertKey_toobig (h : DML.textOf limit key = none ∨ DML.textOf limit value = none) :
    ∃ s', (insertKey limit key value).run (Session.prepared t n) = .error ⟨.toobig⟩ s' := bind_two_toobig _ h

end KVStore
end Dodo.Persist
