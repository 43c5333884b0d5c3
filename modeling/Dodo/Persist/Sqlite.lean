import Mathlib.Data.List.Nodup
import Mathlib.Logic.Function.Basic
import Dodo.Common.Text

/-!
# `Persist.Sqlite` — prepared statements on the table of the store

The code of the store is written against the functions of `Sqlite`. `Session` is an instance of them in which no step
fails but for a constraint: a step of a statement that violates a constraint of the table returns an error and changes
nothing. A statement that was stepped must be reset before it is bound again, otherwise the bind fails. A text is stored
octet for octet, unless it is longer than the limit of the connection; a text bound with a negative length ends at its
first zero octet.
-/

namespace Dodo.Persist

open Common

/-- A value of a column or of a parameter. -/
inductive Value where
  | null
  | integer (n : Int)
  | text (octets : Str)
  | blob (octets : Str)
deriving DecidableEq, Repr

namespace Value

/-- `sqlite3_column_int`, of a column that holds an integer. -/
def columnInt : Value → Int
  | .integer n => n
  | _ => 0

/-- The octets `sqlite3_column_text` points to; for `NULL` it is a null pointer. -/
def columnText : Value → Option Str
  | .null => none
  | .integer n => some ((if n < 0 then lit "-" else []) ++ decimal n.natAbs)
  | .text octets => some octets
  | .blob octets => some octets

end Value

/-- The result codes. -/
inductive Code where
  | ok
  | row
  | done
  | constraint
  | misuse
  | toobig
  /-- Any other error, such as `SQLITE_BUSY`, `SQLITE_FULL` or `SQLITE_IOERR`. -/
  | other (code : Nat)
deriving DecidableEq, Repr

/-! ## The table -/

structure Row where
  key : Value
  value : Value
deriving DecidableEq, Repr

/-- `kvstore ( key TEXT NOT NULL PRIMARY KEY, value NOT NULL )` -/
structure Table where
  rows : List Row
  unique : (rows.map Row.key).Nodup
  notNull : ∀ row ∈ rows, row.key ≠ .null ∧ row.value ≠ .null

namespace Table

def empty : Table := ⟨[], by simp, by simp⟩

/-- The rows `WHERE key = ?`. -/
def matching (t : Table) (key : Value) : List Row := t.rows.filter fun row => row.key = key

/-- The value of the first of them. -/
def lookup (t : Table) (key : Value) : Option Value := (t.matching key).head?.map Row.value

def insert (t : Table) (row : Row) : Except Code Table :=
  if h : (row.key ≠ .null ∧ row.value ≠ .null) ∧ row.key ∉ t.rows.map Row.key then
    .ok {
      rows := row :: t.rows
      unique := by
        rw [List.map_cons, List.nodup_cons]
        exact ⟨h.2, t.unique⟩
      notNull := by
        intro r hr
        rcases List.mem_cons.mp hr with rfl | hr
        · exact h.1
        · exact t.notNull r hr }
  else .error .constraint

def delete (t : Table) (key : Value) : Table where
  rows := t.rows.filter fun row => row.key ≠ key
  unique := t.unique.sublist (List.filter_sublist.map Row.key)
  notNull := fun row hrow => t.notNull row (List.mem_of_mem_filter hrow)

/-- The row with its value set, if its key is the one. -/
def setRow (key value : Value) (row : Row) : Row := if row.key = key then { row with value := value } else row

theorem setRow_key (key value : Value) (row : Row) : (setRow key value row).key = row.key := by
  rw [setRow]
  split <;> rfl

def update (t : Table) (key value : Value) : Except Code Table :=
  if h : value = .null ∧ t.matching key ≠ [] then .error .constraint
  else .ok {
    rows := t.rows.map (setRow key value)
    unique := by
      rw [List.map_map, show Row.key ∘ setRow key value = Row.key from funext (setRow_key key value)]
      exact t.unique
    notNull := by
      intro row hrow
      obtain ⟨r, hr, rfl⟩ := List.mem_map.mp hrow
      rw [setRow_key]
      refine ⟨(t.notNull r hr).1, ?_⟩
      rw [setRow]
      split
      case isTrue hkey =>
        intro hnull
        exact h ⟨hnull, List.ne_nil_of_mem (List.mem_filter.mpr ⟨hr, decide_eq_true hkey⟩)⟩
      case isFalse => exact (t.notNull r hr).2 }

variable {t t' : Table} {key key' value : Value} {row : Row}

/-- A key has at most one row. -/
theorem matching_cases (t : Table) (key : Value) : t.matching key = [] ∨ ∃ value, t.matching key = [⟨key, value⟩] := by
  have hkey : ∀ row ∈ t.matching key, row.key = key := fun row hrow => of_decide_eq_true (List.mem_filter.mp hrow).2
  have hnodup : ((t.matching key).map Row.key).Nodup := t.unique.sublist (List.filter_sublist.map Row.key)
  match h : t.matching key with
  | [] => exact .inl rfl
  | [row] =>
      rw [h] at hkey
      obtain ⟨key', value⟩ := row
      obtain rfl : key' = key := hkey _ List.mem_cons_self
      exact .inr ⟨value, rfl⟩
  | row :: row' :: rows =>
      rw [h] at hkey hnodup
      have hsame : row.key = row'.key := by
        rw [hkey row List.mem_cons_self, hkey row' (List.mem_cons_of_mem _ List.mem_cons_self)]
      rw [List.map_cons, List.map_cons, List.nodup_cons] at hnodup
      exact absurd (hsame ▸ List.mem_cons_self) hnodup.1

theorem matching_eq_nil_iff : t.matching key = [] ↔ t.lookup key = none := by
  rw [lookup, Option.map_eq_none_iff, List.head?_eq_none_iff]

/-- What is counted and what is changed: the rows of the key. -/
theorem matching_length (t : Table) (key : Value) :
    (t.matching key).length = if t.lookup key = none then 0 else 1 := by
  rcases matching_cases t key with h | ⟨value, h⟩
  · rw [if_pos (matching_eq_nil_iff.mp h), h, List.length_nil]
  · rw [lookup, h]
    rfl

theorem mem_keys_iff : key ∈ t.rows.map Row.key ↔ t.lookup key ≠ none := by
  rw [Ne, ← matching_eq_nil_iff, matching, List.filter_eq_nil_iff]
  simp only [decide_eq_true_eq, List.mem_map, not_forall, not_not, exists_prop]

theorem lookup_ne_null (t : Table) (key : Value) : t.lookup key ≠ some .null := by
  intro h
  obtain ⟨row, hrow, hnull⟩ := Option.map_eq_some_iff.mp h
  exact (t.notNull row (List.mem_of_mem_filter (List.mem_of_head? hrow))).2 hnull

theorem insert_of_missing (row : Row) (hkey : row.key ≠ .null) (hvalue : row.value ≠ .null) (h : t.lookup row.key = none) :
    ∃ t', t.insert row = .ok t' := by
  have hmem : row.key ∉ t.rows.map Row.key := fun hmem => mem_keys_iff.mp hmem h
  rw [insert, dif_pos ⟨⟨hkey, hvalue⟩, hmem⟩]
  exact ⟨_, rfl⟩

theorem insert_of_present (h : t.lookup row.key ≠ none) : t.insert row = .error .constraint := by
  rw [insert, dif_neg fun hand => hand.2 (mem_keys_iff.mpr h)]

theorem lookup_insert (h : t.insert row = .ok t') (key : Value) :
    t'.lookup key = if key = row.key then some row.value else t.lookup key := by
  rw [insert] at h
  split at h
  case isTrue =>
    rw [← Except.ok.inj h, lookup, matching]
    dsimp only
    by_cases hkey : row.key = key
    · rw [List.filter_cons, if_pos (decide_eq_true hkey), if_pos hkey.symm]
      rfl
    · rw [List.filter_cons, if_neg (by simpa using hkey), if_neg (Ne.symm hkey)]
      rfl
  case isFalse => cases h

theorem lookup_delete (t : Table) (key key' : Value) :
    (t.delete key).lookup key' = if key' = key then none else t.lookup key' := by
  rw [lookup, matching, delete, List.filter_filter]
  split
  case isTrue hkey =>
    subst hkey
    rw [List.filter_eq_nil_iff.mpr (by simp)]
    rfl
  case isFalse hkey =>
    have hfilter : (t.rows.filter fun row => decide (row.key = key') && decide (row.key ≠ key)) = t.matching key' := by
      apply List.filter_congr
      intro row _
      by_cases hrow : row.key = key'
      · simp [hrow, hkey]
      · simp [hrow]
    rw [hfilter, lookup]

theorem update_ok (t : Table) (key : Value) (hvalue : value ≠ .null) : ∃ t', t.update key value = .ok t' := by
  rw [update, dif_neg fun hand => hvalue hand.1]
  exact ⟨_, rfl⟩

theorem lookup_update (h : t.update key value = .ok t') (key' : Value) :
    t'.lookup key' = if key' = key then (t.lookup key').map fun _ => value else t.lookup key' := by
  rw [update] at h
  split at h
  case isTrue => cases h
  case isFalse =>
    have hmatching : t'.matching key' = (t.matching key').map (setRow key value) := by
      rw [← Except.ok.inj h, matching, matching, List.filter_map]
      refine congrArg (List.map _) (List.filter_congr fun row _ => ?_)
      rw [Function.comp_apply, setRow_key]
    rw [lookup, hmatching]
    rcases matching_cases t key' with hnil | ⟨value', hone⟩
    · rw [lookup, hnil]
      split <;> rfl
    · rw [lookup, hone]
      by_cases hkey : key' = key
      · rw [if_pos hkey, List.map_singleton, setRow, if_pos hkey]
        rfl
      · rw [if_neg hkey, List.map_singleton, setRow, if_neg hkey]

end Table

/-! ## Statements -/

/-- How far a statement is. -/
inductive Progress where
  /-- It can be bound and stepped. -/
  | ready
  | stepped
  /-- The last step returned an error. -/
  | failed (code : Code)
deriving DecidableEq, Repr

/-- A prepared statement: its parameters, and the columns of its current row. -/
structure Statement where
  bindings : Nat → Value := fun _ => .null
  progress : Progress := .ready
  columns : List Value := []

/-- The statements of `prepareSQL`. -/
inductive Stmt where
  /-- `SELECT COUNT(1) FROM kvstore WHERE key = ?` -/
  | stmt_exists
  /-- `SELECT value FROM kvstore WHERE key = ?` -/
  | stmt_getvalue
  /-- `INSERT INTO kvstore ( key, value ) VALUES ( ?, ? )` -/
  | stmt_insert
  /-- `DELETE FROM kvstore WHERE key = ?` -/
  | stmt_delete
  /-- `UPDATE kvstore SET value = ?, .. WHERE key = ?` -/
  | stmt_update
deriving DecidableEq, Repr

/-- What a step of a statement does to the table. -/
inductive Effect where
  | row (columns : List Value)
  /-- The end of a query. -/
  | done
  | changed (table : Table) (changes : Nat)
  | error (code : Code)

/-- The first step of a statement with these parameters. -/
def Stmt.effect (stmt : Stmt) (parameter : Nat → Value) (t : Table) : Effect :=
  match stmt with
  | .stmt_exists => .row [.integer (t.matching (parameter 1)).length]
  | .stmt_getvalue =>
    match t.lookup (parameter 1) with
    | none => .done
    | some value => .row [value]
  | .stmt_insert =>
    match t.insert ⟨parameter 1, parameter 2⟩ with
    | .ok t' => .changed t' 1
    | .error code => .error code
  | .stmt_delete => .changed (t.delete (parameter 1)) (t.matching (parameter 1)).length
  | .stmt_update =>
    match t.update (parameter 2) (parameter 1) with
    | .ok t' => .changed t' (t.matching (parameter 2)).length
    | .error code => .error code

/-! ## The functions of SQLite -/

/-- The functions of SQLite on the prepared statements of a connection. -/
class Sqlite (σ : Type) where
  /-- `sqlite3_bind_text` and `sqlite3_bind_blob64`; `none` is more than the limit of the connection. -/
  bind : Stmt → Nat → Option Value → σ → Code × σ
  /-- `sqlite3_step` -/
  step : Stmt → σ → Code × σ
  /-- A column of the current row. -/
  column : Stmt → Nat → σ → Value
  /-- `sqlite3_changes` -/
  changes : σ → Nat
  /-- `sqlite3_clear_bindings` and `sqlite3_reset` -/
  reset : Stmt → σ → Code × σ

/-- `common::Exception` with the message for this code. -/
structure SqlException where
  code : Code
deriving DecidableEq, Repr

/-- Code that may throw; what has been changed before stays changed. -/
abbrev Sql (σ : Type) := EStateM SqlException σ

/-- `if ( r != SQLITE_OK ) throw_Exception( .. )` -/
def Sql.check {σ : Type} (f : σ → Code × σ) : Sql σ Unit := fun s =>
  match f s with
  | (.ok, s') => .ok () s'
  | (code, s') => .error ⟨code⟩ s'

/-- What `sqlite3_bind_text` makes of the `length` octets; `none` where they are more than the `limit`. -/
def bindableText (limit : Nat) (octets : Str) (length : Int) : Option Str :=
  let text := if length < 0 then cstr octets else octets.take length.toNat
  if text.length ≤ limit then some text else none

section

variable {σ : Type} [Sqlite σ]

namespace DML

/-- The text that SQLite gets. The number of its octets is cast to an `int`. -/
def textOf (limit : Nat) (value : Str) : Option Str := bindableText limit value (asInt value.length)

/-- A value, or none, is bound to the parameter. -/
def bindValue (value : Option Value) (stmt : Stmt) (position : Nat) : Sql σ Unit :=
  Sql.check (Sqlite.bind stmt position value)

/-- `bind` of a text -/
def bind (limit : Nat) (stmt : Stmt) (position : Nat) (value : Str) : Sql σ Unit :=
  bindValue ((textOf limit value).map .text) stmt position

def execute (stmt : Stmt) : Sql σ Nat := fun s =>
  match Sqlite.step stmt s with
  | (.done, s') => .ok (Sqlite.changes s') s'
  | (code, s') => .error ⟨code⟩ s'

end DML

namespace Query

def step (stmt : Stmt) : Sql σ Bool := fun s =>
  match Sqlite.step stmt s with
  | (.row, s') => .ok true s'
  | (.done, s') => .ok false s'
  | (code, s') => .error ⟨code⟩ s'

def column (stmt : Stmt) (col : Nat) : Sql σ Value := fun s => .ok (Sqlite.column stmt col s) s

def getInt (stmt : Stmt) (col : Nat) : Sql σ Int := return (← column stmt col).columnInt

/-- The text ends at its first zero octet. -/
def getText (stmt : Stmt) (col : Nat) : Sql σ Str := do
  match (← column stmt col).columnText with
  | some c => return cstr c
  | none => return []

end Query

/-- `reset`, which clears the parameters. -/
def Statement.reset (stmt : Stmt) : Sql σ Unit := Sql.check (Sqlite.reset stmt)

end

/-! ## Statements that fail for a constraint only -/

/-- A `KVStore`: the prepared statements and the number of changes of the last one on its connection. -/
structure KVStore where
  stmts : Stmt → Statement := fun _ => {}
  changes : Nat := 0

/-- A `KVStore` and the table in the database it is connected to. -/
structure Session where
  table : Table
  store : KVStore := {}

namespace Session

def statement (s : Session) (stmt : Stmt) : Statement := s.store.stmts stmt

def setStatement (s : Session) (stmt : Stmt) (statement : Statement) : Session :=
  { s with store := { s.store with stmts := Function.update s.store.stmts stmt statement } }

/-- A statement has to be reset before it is bound again. -/
def bind (stmt : Stmt) (position : Nat) (value : Option Value) (s : Session) : Code × Session :=
  let statement := s.statement stmt
  match statement.progress with
  | .ready =>
    match value with
    | some value =>
      (.ok, s.setStatement stmt { statement with bindings := Function.update statement.bindings position value })
    | none =>
      (.toobig, s.setStatement stmt { statement with bindings := Function.update statement.bindings position .null })
  | _ => (.misuse, s)

/-- A statement has to be reset before it is run again. -/
def step (s : Session) (stmt : Stmt) : Code × Session :=
  let statement := s.statement stmt
  match statement.progress with
  | .ready =>
    match stmt.effect statement.bindings s.table with
    | .row columns => (.row, s.setStatement stmt { statement with progress := .stepped, columns := columns })
    | .done => (.done, s.setStatement stmt { statement with progress := .stepped, columns := [] })
    | .changed table changes =>
      (.done, { s.setStatement stmt { statement with progress := .stepped } with
        table := table, store.changes := changes })
    | .error code => (code, s.setStatement stmt { statement with progress := .failed code })
  | _ => (.misuse, s)

/-- A `reset` returns the error of a step that failed. -/
def reset (stmt : Stmt) (s : Session) : Code × Session :=
  match (s.statement stmt).progress with
  | .failed code => (code, s.setStatement stmt {})
  | _ => (.ok, s.setStatement stmt {})

instance : Sqlite Session where
  bind := bind
  step stmt s := s.step stmt
  column stmt col s := (s.statement stmt).columns.getD col .null
  changes s := s.store.changes
  reset := reset

end Session
end Dodo.Persist
