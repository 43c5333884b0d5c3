import Dodo.Lib.Service
import Dodo.Persist.KeyMap
import Dodo.Persist.Values

/-!
# `Persist.Connection` — a store with its transactions and its destructor

A program calls a `KVStore` in any order, catches what the calls throw, and destroys the store in the end. SQLite is a
parameter, a `Library`. What is assumed of it are the laws `Sqlite.Lawful` of the prepared statements and
`Library.Lawful` of the rest.

A step may fail although the rows allow it: the disk is full, another process has locked the database, a row is larger
than the limit. So every call comes with its `Fate`, which says what fails in it. The error of a step may roll the
transaction back.

`Statement::close` throws when `sqlite3_finalize` returns an error, and the destructors call it. A destructor that throws
ends the program by `std::terminate`.
-/

namespace Dodo.Persist

open Common Lib

/-! ## What SQLite does -/

/-- A step that fails for another reason than a constraint. -/
structure Fault where
  code : Code
  /-- The transaction is rolled back. -/
  rollsBack : Bool := false
  error : code ≠ .ok ∧ code ≠ .row ∧ code ≠ .done

/-- What fails in a call. -/
structure Fate where
  /-- The steps of the prepared statements. -/
  step : Stmt → Option Fault := fun _ => none
  /-- The statement without parameters. -/
  fails : Bool := false
  /-- The checkpoint, although no transaction is open. -/
  checkpointFails : Bool := false

/-- The statements without parameters. -/
inductive Ddl where
  | beginTransaction
  | commit
  | rollback
  /-- `PRAGMA optimize` -/
  | optimize
deriving DecidableEq, Repr

/-- What is seen of a connection: the rows, the rows at the start of the transaction, if there is one, and how far the
    prepared statements are. -/
structure Seen where
  table : Table
  begun : Option Table := none
  progress : Stmt → Progress := fun _ => .ready

namespace Seen

def set (v : Seen) (stmt : Stmt) (progress : Progress) : Seen :=
  { v with progress := Function.update v.progress stmt progress }

/-- The transaction is rolled back, if there is one. -/
def undone (v : Seen) : Seen :=
  match v.begun with
  | some t => { v with table := t, begun := none }
  | none => v

/-- A step has failed. -/
def faulted (v : Seen) (stmt : Stmt) (fault : Fault) : Seen :=
  (if fault.rollsBack then v.undone else v).set stmt (.failed fault.code)

/-- Where a statement without parameters is allowed, and what it does. -/
def execute (v : Seen) : Ddl → Option Seen
  | .beginTransaction =>
    match v.begun with
    | none => some { v with begun := some v.table }
    | some _ => none
  | .commit => v.begun.map fun _ => { v with begun := none }
  | .rollback => v.begun.map fun t => { v with table := t, begun := none }
  | .optimize => some v

end Seen

/-- The laws of the functions on prepared statements, in a call with this fate; `parameter` are the parameters of the
    statements. -/
structure Sqlite.Lawful {σ : Type} [Sqlite σ] (fate : Fate) (seen : σ → Seen) (parameter : σ → Stmt → Nat → Value) :
    Prop where
  bind_some {s : σ} {stmt : Stmt} (position : Nat) (value : Value) (ready : (seen s).progress stmt = .ready) :
    ∃ s', Sqlite.bind stmt position (some value) s = (.ok, s') ∧ seen s' = seen s ∧
      parameter s' stmt = Function.update (parameter s stmt) position value
  bind_none {s : σ} {stmt : Stmt} (position : Nat) (ready : (seen s).progress stmt = .ready) :
    ∃ s', Sqlite.bind stmt position none s = (.toobig, s') ∧ seen s' = seen s
  /-- A statement has to be reset before it is bound again. -/
  bind_misuse {s : σ} {stmt : Stmt} (position : Nat) (value : Option Value)
    (busy : (seen s).progress stmt ≠ .ready) :
    ∃ s', Sqlite.bind stmt position value s = (.misuse, s') ∧ seen s' = seen s
  step_fault {s : σ} {stmt : Stmt} {fault : Fault} (ready : (seen s).progress stmt = .ready)
    (hfault : fate.step stmt = some fault) :
    ∃ s', Sqlite.step stmt s = (fault.code, s') ∧ seen s' = (seen s).faulted stmt fault
  step_row {s : σ} {stmt : Stmt} {columns : List Value} (ready : (seen s).progress stmt = .ready)
    (smooth : fate.step stmt = none) (effect : stmt.effect (parameter s stmt) (seen s).table = .row columns) :
    ∃ s', Sqlite.step stmt s = (.row, s') ∧ seen s' = (seen s).set stmt .stepped ∧
      ∀ col, Sqlite.column stmt col s' = columns.getD col .null
  step_done {s : σ} {stmt : Stmt} (ready : (seen s).progress stmt = .ready) (smooth : fate.step stmt = none)
    (effect : stmt.effect (parameter s stmt) (seen s).table = .done) :
    ∃ s', Sqlite.step stmt s = (.done, s') ∧ seen s' = (seen s).set stmt .stepped
  step_changed {s : σ} {stmt : Stmt} {table : Table} {changes : Nat} (ready : (seen s).progress stmt = .ready)
    (smooth : fate.step stmt = none)
    (effect : stmt.effect (parameter s stmt) (seen s).table = .changed table changes) :
    ∃ s', Sqlite.step stmt s = (.done, s') ∧ seen s' = { (seen s).set stmt .stepped with table := table } ∧
      Sqlite.changes s' = changes
  /-- A step that violates a constraint changes nothing. -/
  step_error {s : σ} {stmt : Stmt} {code : Code} (ready : (seen s).progress stmt = .ready)
    (smooth : fate.step stmt = none) (effect : stmt.effect (parameter s stmt) (seen s).table = .error code) :
    ∃ s', Sqlite.step stmt s = (code, s') ∧ seen s' = (seen s).set stmt (.failed code)
  reset {s : σ} {stmt : Stmt} (stepped : (seen s).progress stmt = .stepped) :
    ∃ s', Sqlite.reset stmt s = (.ok, s') ∧ seen s' = (seen s).set stmt .ready

/-- SQLite, with connections of type `σ`. -/
structure Library (σ : Type) where
  /-- The functions on prepared statements, in a call with this fate. -/
  calls : Fate → Sqlite σ
  /-- What `sqlite3_step` of a statement without parameters returns, once it is prepared, and `sqlite3_finalize` behind
      it. -/
  execute : Fate → Ddl → σ → (Code × Code) × σ
  /-- `sqlite3_finalize` of a prepared statement. -/
  finalize : Stmt → σ → Code
  /-- `sqlite3_wal_checkpoint_v2` -/
  checkpoint : Fate → σ → Code
  seen : σ → Seen
  parameter : σ → Stmt → Nat → Value

structure Library.Lawful {σ : Type} (L : Library σ) : Prop where
  calls (fate : Fate) : @Sqlite.Lawful σ (L.calls fate) fate L.seen L.parameter
  executes {fate : Fate} {ddl : Ddl} {s : σ} {v : Seen} (smooth : fate.fails = false)
    (allowed : (L.seen s).execute ddl = some v) : ∃ s', L.execute fate ddl s = ((.done, .ok), s') ∧ L.seen s' = v
  /-- `sqlite3_finalize` returns the error of the step. -/
  refuses {fate : Fate} {ddl : Ddl} {s : σ} (h : fate.fails = true ∨ (L.seen s).execute ddl = none) :
    (L.execute fate ddl s).1.1 ≠ .done ∧ (L.execute fate ddl s).1.2 ≠ .ok
  finalize_ready {stmt : Stmt} {s : σ} (ready : (L.seen s).progress stmt = .ready) : L.finalize stmt s = .ok
  finalize_failed {stmt : Stmt} {s : σ} {code : Code} (failed : (L.seen s).progress stmt = .failed code) :
    L.finalize stmt s = code
  /-- A checkpoint fails in a transaction that has read. `BEGIN` reads nothing, but `PRAGMA optimize` reads the schema. -/
  checkpoint_iff {fate : Fate} {s s' : σ} (optimized : L.execute fate .optimize s = ((.done, .ok), s')) :
    L.checkpoint fate s' = .ok ↔ fate.checkpointFails = false ∧ (L.seen s').begun = none

/-! ## The calls -/

/-- A call that reads or writes a key. -/
inductive Access where
  | insertKey (key : Str) (d : Datum)
  | setKey (key : Str) (d : Datum)
  | deleteKey (key : Str)
  | exists_ (key : Str)
  | getValue (key : Str)
  | ensureWithDefault (key default : Str)

def Access.run {σ : Type} [Sqlite σ] (limit : Nat) : Access → Sql σ Result
  | .insertKey key d => .bool <$> d.insertKey limit key
  | .setKey key d => .bool <$> d.setKey limit key
  | .deleteKey key => .bool <$> KVStore.deleteKey limit key
  | .exists_ key => .bool <$> KVStore.exists_ limit key
  | .getValue key => .found <$> KVStore.getValue limit key
  | .ensureWithDefault key default => .text <$> KVStore.ensureWithDefault limit key default

inductive Operation where
  | access (a : Access)
  | startTransaction
  | commitTransaction
  | rollbackTransaction

/-- How a call ends. -/
inductive Ending where
  /-- It returns, and has no result. -/
  | done
  | returned (r : Result)
  | threw (e : SqlException)
  /-- `std::terminate` is called. -/
  | terminated
deriving DecidableEq, Repr

def Ending.of : Except SqlException Result → Ending
  | .ok r => .returned r
  | .error e => .threw e

/-- What a call ends with, and the connection that it leaves. -/
def Sql.ends {σ α : Type} (p : Sql σ α) (s : σ) : Except SqlException α × σ :=
  match p.run s with
  | .ok a s' => (.ok a, s')
  | .error e s' => (.error e, s')

/-- `Statement::close`, by what `sqlite3_finalize` returns. -/
def Statement.close (code : Code) : Except SqlException Unit := if code = .ok then .ok () else .error ⟨code⟩

namespace Library

variable {σ : Type} (L : Library σ) (limit : Nat)

/-- `DDL ddl( *db_ ); ddl.prepare( .. ); ddl.execute();` and the destructor of `ddl`. -/
def ddl (fate : Fate) (statement : Ddl) (s : σ) : Ending × Option σ :=
  let ((code, finalized), s') := L.execute fate statement s
  match Statement.close finalized with
  -- a destructor throws, if only on the way out of another exception
  | .error _ => (.terminated, none)
  | .ok () => if code = .done then (.done, some s') else (.threw ⟨code⟩, some s')

def call (s : σ) : Operation × Fate → Ending × Option σ
  | (.access a, fate) =>
    let (x, s') := (@Access.run σ (L.calls fate) limit a).ends s
    (.of x, some s')
  | (.startTransaction, fate) => L.ddl fate .beginTransaction s
  | (.commitTransaction, fate) => L.ddl fate .commit s
  | (.rollbackTransaction, fate) => L.ddl fate .rollback s

/-- `~KVStore` of the statements that are used here. -/
def destroy (fate : Fate) (s : σ) : Ending :=
  let closed := [Stmt.stmt_update, .stmt_delete, .stmt_insert, .stmt_getvalue, .stmt_exists].forM fun stmt =>
    Statement.close (L.finalize stmt s)
  match closed with
  | .error _ => .terminated
  | .ok () =>
    match L.ddl fate .optimize s with
    | (.done, some s') => if L.checkpoint fate s' = .ok then .done else .terminated
    | _ => .terminated

/-- How the calls end, and the destructor behind them, unless the program has ended before. -/
def life (s : σ) (calls : List (Operation × Fate)) (fate : Fate) : List Ending :=
  let (endings, s') := Service.run (L.call limit) s calls
  endings ++ (s'.map (L.destroy fate)).toList

end Library

/-! ## What the store is for -/

/-- The values of the keys that are texts. -/
def Table.contents (t : Table) (x : Str) : Option Value := t.lookup (.text x)

/-- A map, the map at the start of the transaction, and the statements that have failed and are never reset. -/
structure Store where
  contents : Str → Option Value
  begun : Option (Str → Option Value) := none
  failed : Finset Stmt := ∅

namespace Store

/-- A value as a text, up to the first zero octet. -/
def text (a : Store) (x : Str) : Option Str := (a.contents x).bind fun v => v.columnText.map cstr

/-- The transaction is rolled back, if there is one. -/
def undone (a : Store) : Store :=
  match a.begun with
  | some contents => { a with contents := contents, begun := none }
  | none => a

def fail (a : Store) (stmt : Stmt) (rollsBack : Bool) : Store :=
  let a' := if rollsBack then a.undone else a
  { a' with failed := insert stmt a'.failed }

/-- A statement is used with parameters that SQLite takes, or not. It gives a result and a new map, or violates a
    constraint. -/
def use {α β : Type} (a : Store) (fate : Fate) (stmt : Stmt) (bound : Option β)
    (f : β → Option (α × (Str → Option Value))) : Except SqlException α × Store :=
  if stmt ∈ a.failed then (.error ⟨.misuse⟩, a)
  else
    match bound with
    | none => (.error ⟨.toobig⟩, a)
    | some b =>
      match fate.step stmt with
      | some fault => (.error ⟨fault.code⟩, a.fail stmt fault.rollsBack)
      | none =>
        match f b with
        | none => (.error ⟨.constraint⟩, a.fail stmt false)
        | some (r, contents) => (.ok r, { a with contents := contents })

/-- Two parameters. -/
def both (key : Option Str) (value : Option Value) : Option (Str × Value) :=
  key.bind fun x => value.map fun v => (x, v)

theorem both_eq_some {key : Option Str} {value : Option Value} {b : Str × Value} :
    both key value = some b ↔ key = some b.1 ∧ value = some b.2 := by
  cases key <;> cases value <;> simp [both, Prod.ext_iff]

theorem both_eq_none {key : Option Str} {value : Option Value} :
    both key value = none ↔ key = none ∨ value = none := by
  cases key <;> cases value <;> simp [both]

def insertKey (a : Store) (fate : Fate) (key : Option Str) (value : Option Value) : Except SqlException Bool × Store :=
  a.use fate .stmt_insert (both key value) fun (x, v) =>
    if v = .null ∨ a.contents x ≠ none then none else some (true, Function.update a.contents x (some v))

def setKey (a : Store) (fate : Fate) (key : Option Str) (value : Option Value) : Except SqlException Bool × Store :=
  a.use fate .stmt_update (both key value) fun (x, v) =>
    if a.contents x = none then some (false, a.contents)
    else if v = .null then none
    else some (true, Function.update a.contents x (some v))

def deleteKey (a : Store) (fate : Fate) (key : Option Str) : Except SqlException Bool × Store :=
  a.use fate .stmt_delete key fun x => some (decide (a.contents x ≠ none), Function.update a.contents x none)

def exists_ (a : Store) (fate : Fate) (key : Option Str) : Except SqlException Bool × Store :=
  a.use fate .stmt_exists key fun x => some (decide (a.contents x ≠ none), a.contents)

def getValue (a : Store) (fate : Fate) (key : Option Str) : Except SqlException (Option Str) × Store :=
  a.use fate .stmt_getvalue key fun x => some (a.text x, a.contents)

def ensureWithDefault (a : Store) (fate : Fate) (key : Option Str) (default : Str) (bound : Option Value) :
    Except SqlException Str × Store :=
  match a.getValue fate key with
  | (.error e, a') => (.error e, a')
  | (.ok (some value), a') => (.ok value, a')
  | (.ok none, a') => (a'.insertKey fate key bound).map (Except.map fun _ => default) id

def access (limit : Nat) (a : Store) (fate : Fate) : Access → Except SqlException Result × Store
  | .insertKey key d => (a.insertKey fate (DML.textOf limit key) (d.bound limit)).map (Except.map .bool) id
  | .setKey key d => (a.setKey fate (DML.textOf limit key) (d.bound limit)).map (Except.map .bool) id
  | .deleteKey key => (a.deleteKey fate (DML.textOf limit key)).map (Except.map .bool) id
  | .exists_ key => (a.exists_ fate (DML.textOf limit key)).map (Except.map .bool) id
  | .getValue key => (a.getValue fate (DML.textOf limit key)).map (Except.map .found) id
  | .ensureWithDefault key default =>
    (a.ensureWithDefault fate (DML.textOf limit key) default ((DML.textOf limit default).map .text)).map
      (Except.map .text) id

/-- A statement without parameters. -/
def execute (a : Store) (fate : Fate) (statement : Ddl) : Ending × Option Store :=
  if fate.fails then (.terminated, none)
  else
    match statement, a.begun with
    | .beginTransaction, none => (.done, some { a with begun := some a.contents })
    | .commit, some _ => (.done, some { a with begun := none })
    | .rollback, some contents => (.done, some { a with contents := contents, begun := none })
    | .optimize, _ => (.done, some a)
    | _, _ => (.terminated, none)

def call (limit : Nat) (a : Store) : Operation × Fate → Ending × Option Store
  | (.access c, fate) =>
    let (x, a') := a.access limit fate c
    (.of x, some a')
  | (.startTransaction, fate) => a.execute fate .beginTransaction
  | (.commitTransaction, fate) => a.execute fate .commit
  | (.rollbackTransaction, fate) => a.execute fate .rollback

def destroy (fate : Fate) (a : Store) : Ending :=
  if a.failed = ∅ ∧ a.begun = none ∧ fate.fails = false ∧ fate.checkpointFails = false then .done else .terminated

def life (limit : Nat) (a : Store) (calls : List (Operation × Fate)) (fate : Fate) : List Ending :=
  let (endings, a') := Service.run (call limit) a calls
  endings ++ (a'.map (destroy fate)).toList

end Store

/-! ## An instance -/

/-- A `KVStore` with its connection; `begun` is the table at the start of the transaction, if there is one. -/
structure Connection where
  session : Session
  begun : Option Table := none

namespace Connection

/-- The constructor, on a database with this table. -/
def opened (t : Table) : Connection := { session := { table := t } }

/-- A function that concerns the statements only. -/
def lift (f : Session → Code × Session) (c : Connection) : Code × Connection :=
  let (code, session) := f c.session
  (code, { c with session := session })

def put (stmt : Stmt) (statement : Statement) (c : Connection) : Connection :=
  { c with session := c.session.setStatement stmt statement }

/-- The transaction is rolled back, if there is one. -/
def undone (c : Connection) : Connection :=
  match c.begun with
  | some t => { session := { c.session with table := t }, begun := none }
  | none => c

/-- A step has failed. -/
def faulted (stmt : Stmt) (fault : Fault) (c : Connection) : Connection :=
  (if fault.rollsBack then c.undone else c).put stmt { c.session.statement stmt with progress := .failed fault.code }

def step (fate : Fate) (stmt : Stmt) (c : Connection) : Code × Connection :=
  match (c.session.statement stmt).progress, fate.step stmt with
  | .ready, some fault => (fault.code, c.faulted stmt fault)
  | _, _ => lift (·.step stmt) c

def seen (c : Connection) : Seen where
  table := c.session.table
  begun := c.begun
  progress stmt := (c.session.statement stmt).progress

/-- The statement that is executed, if it is allowed. -/
def executed (statement : Ddl) (c : Connection) : Option Connection :=
  match statement with
  | .beginTransaction =>
    match c.begun with
    | none => some { c with begun := some c.session.table }
    | some _ => none
  | .commit => c.begun.map fun _ => { c with begun := none }
  | .rollback => c.begun.map fun t => { session := { c.session with table := t }, begun := none }
  | .optimize => some c

def execute (fate : Fate) (statement : Ddl) (c : Connection) : (Code × Code) × Connection :=
  match fate.fails, c.executed statement with
  | false, some c' => ((.done, .ok), c')
  -- `SQLITE_ERROR`
  | _, _ => ((.other 1, .other 1), c)

def library : Library Connection where
  calls fate := {
    bind := fun stmt position value => lift (Session.bind stmt position value)
    step := step fate
    column := fun stmt col c => (c.session.statement stmt).columns.getD col .null
    changes := fun c => c.session.store.changes
    reset := fun stmt => lift (Session.reset stmt) }
  execute := execute
  finalize stmt c :=
    match (c.session.statement stmt).progress with
    | .failed code => code
    | _ => .ok
  -- `SQLITE_LOCKED`
  checkpoint fate c := if fate.checkpointFails = false ∧ c.begun = none then .ok else .other 6
  seen := seen
  parameter c stmt := (c.session.statement stmt).bindings

variable {c : Connection} {stmt : Stmt} {fate : Fate}

theorem seen_put (c : Connection) (stmt : Stmt) (statement : Statement) :
    (c.put stmt statement).seen = c.seen.set stmt statement.progress := by
  show (⟨_, _, _⟩ : Seen) = ⟨_, _, _⟩
  congr 1
  funext other
  show (Function.update c.session.store.stmts stmt statement other).progress = _
  by_cases hother : other = stmt
  · rw [hother, Function.update_self, Function.update_self]
  · rw [Function.update_of_ne hother, Function.update_of_ne hother]
    rfl

/-- A statement that goes on where it was. -/
theorem seen_put_same (statement : Statement) (hsame : (c.session.statement stmt).progress = statement.progress) :
    (c.put stmt statement).seen = c.seen := by
  rw [seen_put, ← hsame]
  show (⟨_, _, _⟩ : Seen) = ⟨_, _, _⟩
  congr 1
  exact Function.update_eq_self stmt c.seen.progress

theorem seen_undone (c : Connection) : c.undone.seen = c.seen.undone := by
  unfold undone Seen.undone
  cases hbegun : c.begun with
  | none => rw [show c.seen.begun = none from hbegun]
  | some t =>
      rw [show c.seen.begun = some t from hbegun]
      rfl

theorem seen_faulted (c : Connection) (stmt : Stmt) (fault : Fault) :
    (c.faulted stmt fault).seen = c.seen.faulted stmt fault := by
  unfold faulted Seen.faulted
  rw [seen_put]
  cases fault.rollsBack with
  | false => rfl
  | true => rw [if_pos rfl, if_pos rfl, seen_undone]

theorem step_smooth (h : fate.step stmt = none) : step fate stmt c = lift (·.step stmt) c := by
  unfold step
  rw [h]
  cases (c.session.statement stmt).progress <;> rfl

/-- The laws of the prepared statements. -/
theorem lawful_calls (fate : Fate) :
    @Sqlite.Lawful Connection (library.calls fate) fate library.seen library.parameter := by
  let _ := library.calls fate
  have hsmooth : ∀ {c : Connection} {stmt : Stmt}, fate.step stmt = none →
      Sqlite.step stmt c = lift (·.step stmt) c := fun h => step_smooth h
  refine ⟨?_, ?_, ?_, ?_, ?_, ?_, ?_, ?_, ?_⟩
  · intro c stmt position value ready
    have hready : (c.session.statement stmt).progress = .ready := ready
    refine ⟨c.put stmt ⟨Function.update (c.session.statement stmt).bindings position value, .ready,
      (c.session.statement stmt).columns⟩, ?_, seen_put_same _ hready, ?_⟩
    · show lift (Session.bind stmt position (some value)) c = _
      simp only [lift, put, Session.bind, hready]
    · show ((c.session.setStatement stmt _).statement stmt).bindings = _
      rw [Session.statement_setStatement]
      rfl
  · intro c stmt position ready
    have hready : (c.session.statement stmt).progress = .ready := ready
    refine ⟨c.put stmt ⟨Function.update (c.session.statement stmt).bindings position .null, .ready,
      (c.session.statement stmt).columns⟩, ?_, seen_put_same _ hready⟩
    show lift (Session.bind stmt position none) c = _
    simp only [lift, put, Session.bind, hready]
  · intro c stmt position value busy
    have hbusy : (c.session.statement stmt).progress ≠ .ready := busy
    refine ⟨c, ?_, rfl⟩
    show lift (Session.bind stmt position value) c = _
    unfold lift Session.bind
    dsimp only
    split
    case h_1 hready => exact absurd hready hbusy
    case h_2 => rfl
  · intro c stmt fault ready hfault
    refine ⟨c.faulted stmt fault, ?_, c.seen_faulted stmt fault⟩
    show step fate stmt c = _
    unfold step
    rw [show (c.session.statement stmt).progress = .ready from ready, hfault]
  · intro c stmt columns ready smooth effect
    have hready : (c.session.statement stmt).progress = .ready := ready
    have heffect : stmt.effect (c.session.statement stmt).bindings c.session.table = .row columns := effect
    refine ⟨c.put stmt ⟨(c.session.statement stmt).bindings, .stepped, columns⟩, ?_, c.seen_put stmt _, ?_⟩
    · rw [hsmooth smooth]
      simp only [lift, put, Session.step, hready, heffect]
    · intro col
      show ((c.session.setStatement stmt _).statement stmt).columns.getD col .null = _
      rw [Session.statement_setStatement]
  · intro c stmt ready smooth effect
    have hready : (c.session.statement stmt).progress = .ready := ready
    have heffect : stmt.effect (c.session.statement stmt).bindings c.session.table = .done := effect
    refine ⟨c.put stmt ⟨(c.session.statement stmt).bindings, .stepped, []⟩, ?_, c.seen_put stmt _⟩
    rw [hsmooth smooth]
    simp only [lift, put, Session.step, hready, heffect]
  · intro c stmt table changes ready smooth effect
    have hready : (c.session.statement stmt).progress = .ready := ready
    have heffect : stmt.effect (c.session.statement stmt).bindings c.session.table = .changed table changes := effect
    refine ⟨⟨{ c.session.setStatement stmt { c.session.statement stmt with progress := .stepped } with
      table := table, store.changes := changes }, c.begun⟩, ?_, ?_, rfl⟩
    · rw [hsmooth smooth]
      simp only [lift, Session.step, hready, heffect]
    · have hset := c.seen_put stmt { c.session.statement stmt with progress := .stepped }
      show (⟨_, _, _⟩ : Seen) = ⟨_, _, _⟩
      congr 1
      exact congrArg Seen.progress hset
  · intro c stmt code ready smooth effect
    have hready : (c.session.statement stmt).progress = .ready := ready
    have heffect : stmt.effect (c.session.statement stmt).bindings c.session.table = .error code := effect
    refine ⟨c.put stmt { c.session.statement stmt with progress := .failed code }, ?_, c.seen_put stmt _⟩
    rw [hsmooth smooth]
    simp only [lift, put, Session.step, hready, heffect]
  · intro c stmt stepped
    have hstepped : (c.session.statement stmt).progress = .stepped := stepped
    refine ⟨c.put stmt {}, ?_, c.seen_put stmt {}⟩
    show lift (Session.reset stmt) c = _
    simp only [lift, put, Session.reset, hstepped]

theorem seen_executed (statement : Ddl) (c : Connection) :
    (c.executed statement).map seen = c.seen.execute statement := by
  unfold executed Seen.execute
  cases statement with
  | beginTransaction =>
      dsimp only
      cases hbegun : c.begun with
      | none =>
          rw [show c.seen.begun = none from hbegun]
          rfl
      | some t =>
          rw [show c.seen.begun = some t from hbegun]
          rfl
  | commit =>
      dsimp only
      rw [Option.map_map]
      rfl
  | rollback =>
      dsimp only
      rw [Option.map_map]
      rfl
  | optimize => rfl

/-- **The laws can be kept**, whatever fails. -/
theorem lawful_library : library.Lawful where
  calls := lawful_calls
  executes := by
    intro fate statement c v smooth allowed
    have hallowed : c.seen.execute statement = some v := allowed
    rw [← seen_executed] at hallowed
    obtain ⟨c', hc', rfl⟩ := Option.map_eq_some_iff.mp hallowed
    refine ⟨c', ?_, rfl⟩
    show execute fate statement c = _
    unfold execute
    rw [smooth, hc']
  refuses := by
    intro fate statement c h
    have hexecute : library.execute fate statement c = ((.other 1, .other 1), c) := by
      show execute fate statement c = _
      unfold execute
      rcases h with hfails | hnone
      · rw [hfails]
      · have hnone : c.seen.execute statement = none := hnone
        rw [← seen_executed, Option.map_eq_none_iff] at hnone
        rw [hnone]
        cases fate.fails <;> rfl
    rw [hexecute]
    show Code.other 1 ≠ .done ∧ Code.other 1 ≠ .ok
    decide
  finalize_ready := by
    intro stmt c ready
    have hready : (c.session.statement stmt).progress = .ready := ready
    simp only [library, hready]
  finalize_failed := by
    intro stmt c code failed
    have hfailed : (c.session.statement stmt).progress = .failed code := failed
    simp only [library, hfailed]
  checkpoint_iff := by
    intro fate _ c _
    show (if fate.checkpointFails = false ∧ c.begun = none then Code.ok else .other 6) = .ok ↔ _
    split
    case isTrue h => exact iff_of_true rfl h
    case isFalse h => exact iff_of_false (by decide) h

end Connection
end Dodo.Persist
