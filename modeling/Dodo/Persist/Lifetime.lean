import Mathlib.Tactic.Tauto
import Dodo.Lib.Machine
import Dodo.Persist.Simulation

/-!
# `Persist.Lifetime` — a `KVStore` from its constructor to its destructor

The calls simulate the abstract `Store`, so whole lives end on it as they do with SQLite. Of the lives of the store it is
said which transactions leave no trace, and which programs survive their store.
-/

namespace Dodo.Persist

open Common Lib

/-! ## Runs -/

namespace Library

variable {σ : Type} {L : Library σ} {limit : Nat} {s s' : σ} {a : Store} {fate : Fate}

theorem represents_opened {t : Table} (hs : L.seen s = { table := t }) :
    (L.seen s).Represents { contents := t.contents } := by
  rw [hs]
  refine ⟨rfl, rfl, fun _ _ => rfl, ?_⟩
  intro stmt hstmt
  cases Finset.notMem_empty stmt hstmt

/-- What a statement without parameters makes of the store. -/
theorem execute_represents {v : Seen} (h : v.Represents a) (statement : Ddl) :
    match v.execute statement with
    | none => ∀ fate, a.execute fate statement = (.terminated, none)
    | some v' => ∃ a', v'.Represents a' ∧
        ∀ fate, a.execute fate statement = if fate.fails then (.terminated, none) else (.done, some a') := by
  have hbegun := h.begun
  cases statement with
  | beginTransaction =>
      cases hv : v.begun with
      | none =>
          rw [hv] at hbegun
          simp only [Seen.execute, hv]
          refine ⟨{ a with begun := some a.contents }, ⟨h.contents, ?_, h.ready, h.failed⟩, fun fate => ?_⟩
          · exact congrArg some h.contents
          · simp only [Store.execute, ← hbegun, Option.map_none]
      | some t =>
          rw [hv] at hbegun
          simp only [Seen.execute, hv]
          intro fate
          simp only [Store.execute, ← hbegun, Option.map_some, ite_self]
  | commit =>
      cases hv : v.begun with
      | none =>
          rw [hv] at hbegun
          simp only [Seen.execute, hv, Option.map_none]
          intro fate
          simp only [Store.execute, ← hbegun, Option.map_none, ite_self]
      | some t =>
          rw [hv] at hbegun
          simp only [Seen.execute, hv, Option.map_some]
          refine ⟨{ a with begun := none }, ⟨h.contents, rfl, h.ready, h.failed⟩, fun fate => ?_⟩
          simp only [Store.execute, ← hbegun, Option.map_some]
  | rollback =>
      cases hv : v.begun with
      | none =>
          rw [hv] at hbegun
          simp only [Seen.execute, hv, Option.map_none]
          intro fate
          simp only [Store.execute, ← hbegun, Option.map_none, ite_self]
      | some t =>
          rw [hv] at hbegun
          simp only [Seen.execute, hv, Option.map_some]
          refine ⟨{ a with contents := t.contents, begun := none }, ⟨rfl, rfl, h.ready, h.failed⟩, fun fate => ?_⟩
          simp only [Store.execute, ← hbegun, Option.map_some]
  | optimize =>
      simp only [Seen.execute]
      exact ⟨a, h, fun fate => by simp only [Store.execute]⟩

theorem ddl_of_execute {statement : Ddl} (h : L.execute fate statement s = ((.done, .ok), s')) :
    L.ddl fate statement s = (.done, some s') := by
  unfold ddl
  rw [h]
  rfl

variable (hL : L.Lawful)

include hL

theorem ddl_refused {statement : Ddl} (h : fate.fails = true ∨ (L.seen s).execute statement = none) :
    L.ddl fate statement s = (.terminated, none) := by
  obtain ⟨-, hfinalized⟩ := hL.refuses h
  unfold ddl
  generalize L.execute fate statement s = x at hfinalized
  obtain ⟨⟨code, finalized⟩, s'⟩ := x
  dsimp only at hfinalized ⊢
  rw [Statement.close, if_neg hfinalized]

theorem ddl_done {statement : Ddl} {v : Seen} (hfails : fate.fails = false)
    (h : (L.seen s).execute statement = some v) : ∃ s', L.ddl fate statement s = (.done, some s') ∧ L.seen s' = v := by
  obtain ⟨s', hexecute, hseen⟩ := hL.executes hfails h
  exact ⟨s', ddl_of_execute hexecute, hseen⟩

/-- A statement without parameters ends as it does on the store. -/
theorem ddl_simulated (h : (L.seen s).Represents a) (fate : Fate) (statement : Ddl) :
    (L.ddl fate statement s).1 = (a.execute fate statement).1 ∧
      Option.Rel (fun s a => (L.seen s).Represents a) (L.ddl fate statement s).2 (a.execute fate statement).2 := by
  have hstore := execute_represents h statement
  cases hallowed : (L.seen s).execute statement with
  | none =>
      rw [hallowed] at hstore
      rw [ddl_refused hL (.inr hallowed), hstore fate]
      exact ⟨rfl, .none⟩
  | some v =>
      rw [hallowed] at hstore
      obtain ⟨a', ha', hexecute⟩ := hstore
      cases hfails : fate.fails with
      | true =>
          rw [ddl_refused hL (.inl hfails), hexecute, if_pos hfails]
          exact ⟨rfl, .none⟩
      | false =>
          obtain ⟨s', hddl, rfl⟩ := ddl_done hL hfails hallowed
          rw [hddl, hexecute, hfails]
          exact ⟨rfl, .some ha'⟩

/-- **What a step does.** -/
theorem simulates (limit : Nat) :
    Service.Simulates (L.call limit) (Store.call limit) fun s a => (L.seen s).Represents a := by
  rintro s a ⟨op, fate⟩ h
  cases op with
  | access c =>
      let _ := L.calls fate
      obtain ⟨hends, hrep⟩ := Access.simulated (hL.calls fate) h limit c
      exact ⟨congrArg Ending.of hends, .some hrep⟩
  | startTransaction => exact ddl_simulated hL h fate .beginTransaction
  | commitTransaction => exact ddl_simulated hL h fate .commit
  | rollbackTransaction => exact ddl_simulated hL h fate .rollback

/-- The destructors of the statements throw exactly if one of them has failed. -/
theorem close_all (h : (L.seen s).Represents a) (stmts : List Stmt) :
    ((stmts.forM fun stmt => Statement.close (L.finalize stmt s)) = .ok () ∧ ∀ stmt ∈ stmts, stmt ∉ a.failed) ∨
      ((∃ e, (stmts.forM fun stmt => Statement.close (L.finalize stmt s)) = .error e) ∧
        ∃ stmt ∈ stmts, stmt ∈ a.failed) := by
  induction stmts with
  | nil => exact .inl ⟨rfl, fun _ hmem => absurd hmem List.not_mem_nil⟩
  | cons stmt stmts ih =>
      rw [List.forM_eq_forM] at ih ⊢
      rw [List.forM_cons]
      by_cases hstmt : stmt ∈ a.failed
      · obtain ⟨code, hcode, hprogress⟩ := h.failed stmt hstmt
        rw [hL.finalize_failed hprogress, Statement.close, if_neg hcode]
        exact .inr ⟨⟨_, rfl⟩, stmt, List.mem_cons_self, hstmt⟩
      · rw [hL.finalize_ready (h.ready stmt hstmt)]
        rcases ih with ⟨hclosed, hready⟩ | ⟨herror, other, hmem, hfailed⟩
        · exact .inl ⟨hclosed, List.forall_mem_cons.mpr ⟨hstmt, hready⟩⟩
        · exact .inr ⟨herror, other, List.mem_cons_of_mem _ hmem, hfailed⟩

/-- The destructor throws exactly if a statement has failed, a transaction is open, or the database cannot be optimized or
    checkpointed. -/
theorem destroy_eq (h : (L.seen s).Represents a) (fate : Fate) : L.destroy fate s = a.destroy fate := by
  have hbegun : (L.seen s).begun = none ↔ a.begun = none := by rw [← h.begun, Option.map_eq_none_iff]
  unfold destroy Store.destroy
  rcases close_all hL h [.stmt_update, .stmt_delete, .stmt_insert, .stmt_getvalue, .stmt_exists] with
    ⟨hclosed, hready⟩ | ⟨⟨e, herror⟩, stmt, -, hfailed⟩
  · rw [hclosed]
    have hempty : a.failed = ∅ := by
      refine Finset.eq_empty_of_forall_notMem fun stmt => hready stmt ?_
      cases stmt <;> simp
    cases hfails : fate.fails with
    | true =>
        rw [ddl_refused hL (.inl hfails)]
        exact (if_neg fun hall => Bool.false_ne_true hall.2.2.1.symm).symm
    | false =>
        have hallowed : (L.seen s).execute .optimize = some (L.seen s) := rfl
        obtain ⟨s', hexecute, hseen⟩ := hL.executes hfails hallowed
        rw [ddl_of_execute hexecute]
        dsimp only
        have hcheckpoint : L.checkpoint fate s' = .ok ↔ a.begun = none ∧ fate.checkpointFails = false := by
          rw [hL.checkpoint_iff hexecute, hseen, hbegun, and_comm]
        simp only [hcheckpoint, hempty, true_and]
  · rw [herror, if_neg fun hnone => ?_]
    rw [hnone.1] at hfailed
    exact Finset.notMem_empty stmt hfailed

/-- The rule for whole lives. -/
theorem life_eq (h : (L.seen s).Represents a) (calls : List (Operation × Fate)) (fate : Fate) :
    L.life limit s calls fate = a.life limit calls fate := by
  obtain ⟨hanswers, hend⟩ := Service.run_of_simulates (simulates hL limit) h calls
  show _ ++ ((Service.run (L.call limit) s calls).2.map (L.destroy fate)).toList =
    _ ++ ((Service.run (Store.call limit) a calls).2.map (Store.destroy fate)).toList
  rw [hanswers]
  generalize (Service.run (L.call limit) s calls).2 = s' at hend ⊢
  generalize (Service.run (Store.call limit) a calls).2 = a' at hend ⊢
  refine congrArg _ (congrArg _ ?_)
  cases hend with
  | none => rfl
  | some hrep => exact congrArg some (destroy_eq hL hrep fate)

theorem represents_of_run {t : Table} {before : List (Operation × Fate)} (hs : L.seen s = { table := t })
    (hrun : (Service.run (L.call limit) s before).2 = some s') : ∃ a, (L.seen s').Represents a := by
  obtain ⟨-, hend⟩ := Service.run_of_simulates (simulates hL limit) (represents_opened hs) before
  rw [hrun] at hend
  generalize (Service.run (Store.call limit) { contents := t.contents } before).2 = a at hend
  cases hend with
  | some hrep => exact ⟨_, hrep⟩

/-- **The store is what it is for**: with any SQLite that keeps the laws, and whatever fails in the calls, the calls of a
    `KVStore` end one after the other as those of the abstract store do, and so does the destructor. -/
theorem life_refines {t : Table} (hs : L.seen s = { table := t }) (limit : Nat) (calls : List (Operation × Fate))
    (fate : Fate) : L.life limit s calls fate = ({ contents := t.contents } : Store).life limit calls fate :=
  life_eq hL (represents_opened hs) calls fate

end Library

namespace Connection

/-- `SQLITE_FULL` -/
def diskFull : Fate where
  step _ := some ⟨.other 13, false, by decide⟩

/-- The disk is full once. -/
theorem life_refines_full : library.life 1000000000 (opened .empty)
    [(.access (.insertKey (lit "k") (.text (lit "a"))), diskFull), (.access (.insertKey (lit "k") (.text (lit "a"))), {}),
      (.access (.exists_ (lit "k")), {})] {} =
    [.threw ⟨.other 13⟩, .threw ⟨.misuse⟩, .returned (.bool false), .terminated] :=
  (Library.life_refines lawful_library (s := opened .empty) rfl 1000000000 _ {}).trans rfl

end Connection

namespace Store

/-! ### What a call does on the store -/

/-- How a call may end, and the store that it leaves. -/
inductive Accessed {α : Type} (a : Store) (fate : Fate) : Except SqlException α × Store → Prop where
  /-- A parameter is refused. -/
  | kept (e : SqlException) : Accessed a fate (.error e, a)
  | changed (r : α) (contents : Str → Option Value) : Accessed a fate (.ok r, { a with contents := contents })
  /-- A constraint is violated. -/
  | violated (stmt : Stmt) : Accessed a fate (.error ⟨.constraint⟩, a.fail stmt false)
  | faulted (stmt : Stmt) (fault : Fault) (hfault : fate.step stmt = some fault) :
    Accessed a fate (.error ⟨fault.code⟩, a.fail stmt fault.rollsBack)

section

variable {α β : Type} {a : Store} {fate : Fate} {x : Except SqlException α × Store} {stmt : Stmt}

theorem Accessed.map (h : Accessed a fate x) (g : α → β) : Accessed a fate (x.map (Except.map g) id) := by
  cases h with
  | kept e => exact .kept e
  | changed r contents => exact .changed (g r) contents
  | violated stmt => exact .violated stmt
  | faulted stmt fault hfault => exact .faulted stmt fault hfault

theorem accessed_use (a : Store) (fate : Fate) (stmt : Stmt) (bound : Option β)
    (f : β → Option (α × (Str → Option Value))) : Accessed a fate (a.use fate stmt bound f) := by
  unfold use
  split
  case isTrue => exact .kept _
  case isFalse =>
    cases bound with
    | none => exact .kept _
    | some b =>
        cases hstep : fate.step stmt with
        | some fault => exact .faulted stmt fault hstep
        | none =>
            cases hf : f b with
            | none =>
                simp only [hf]
                exact .violated stmt
            | some result =>
                simp only [hf]
                exact .changed result.1 result.2

/-- A value that is read leaves the store as it is. -/
theorem getValue_ok {key : Option Str} {value : Option Str} {a' : Store}
    (h : a.getValue fate key = (.ok value, a')) : a' = a := by
  unfold getValue use at h
  split at h
  case isTrue => cases h
  case isFalse =>
    cases key with
    | none => cases h
    | some x =>
        cases hstep : fate.step .stmt_getvalue with
        | some fault =>
            simp only [hstep] at h
            cases h
        | none =>
            simp only [hstep] at h
            exact (Prod.mk.inj h).2.symm

theorem accessed_ensureWithDefault (a : Store) (fate : Fate) (key : Option Str) (default : Str) (bound : Option Value) :
    Accessed a fate (a.ensureWithDefault fate key default bound) := by
  have hget : Accessed a fate (a.getValue fate key) := accessed_use ..
  unfold ensureWithDefault
  rcases hvalue : a.getValue fate key with ⟨value, a'⟩
  rw [hvalue] at hget
  cases value with
  | error e =>
      cases hget with
      | kept e => exact .kept e
      | violated stmt => exact .violated stmt
      | faulted stmt fault hfault => exact .faulted stmt fault hfault
  | ok value =>
      obtain rfl := getValue_ok hvalue
      cases value with
      | some value => exact .changed value a'.contents
      | none => exact (accessed_use ..).map _

theorem accessed (limit : Nat) (a : Store) (fate : Fate) (c : Access) : Accessed a fate (a.access limit fate c) := by
  -- no parameter is to be evaluated
  cases c with
  | insertKey key d =>
      rw [access, insertKey]
      exact (accessed_use ..).map _
  | setKey key d =>
      rw [access, setKey]
      exact (accessed_use ..).map _
  | deleteKey key =>
      rw [access, deleteKey]
      exact (accessed_use ..).map _
  | exists_ key =>
      rw [access, exists_]
      exact (accessed_use ..).map _
  | getValue key =>
      rw [access, getValue]
      exact (accessed_use ..).map _
  | ensureWithDefault key default => exact (accessed_ensureWithDefault ..).map _

theorem failed_undone (a : Store) : a.undone.failed = a.failed := by
  unfold undone
  cases a.begun <;> rfl

theorem failed_fail (a : Store) (stmt : Stmt) (rollsBack : Bool) : (a.fail stmt rollsBack).failed = insert stmt a.failed := by
  unfold fail
  cases rollsBack with
  | false => rfl
  | true =>
      show insert stmt a.undone.failed = _
      rw [failed_undone]

/-- A statement that has failed is never reset. -/
theorem Accessed.failed_subset (h : Accessed a fate x) : a.failed ⊆ x.2.failed := by
  cases h with
  | kept e => exact subset_rfl
  | changed r contents => exact subset_rfl
  | violated stmt =>
      rw [failed_fail]
      exact Finset.subset_insert ..
  | faulted stmt fault hfault =>
      rw [failed_fail]
      exact Finset.subset_insert ..

/-- A call in which no statement fails changes values only. -/
theorem Accessed.of_failed_eq_empty (h : Accessed a fate x) (hempty : x.2.failed = ∅) :
    ∃ contents, x.2 = { a with contents := contents } := by
  cases h with
  | kept e => exact ⟨a.contents, rfl⟩
  | changed r contents => exact ⟨contents, rfl⟩
  | violated stmt =>
      rw [failed_fail] at hempty
      cases Finset.insert_ne_empty _ _ hempty
  | faulted stmt fault hfault =>
      rw [failed_fail] at hempty
      cases Finset.insert_ne_empty _ _ hempty

end

/-! ### Lives of the store -/

variable {limit : Nat} {a a' : Store} {call : Operation × Fate} {calls : List (Operation × Fate)} {fate : Fate}
  {e : Ending}

theorem life_nil : a.life limit [] fate = [a.destroy fate] := rfl

theorem life_cons_some (h : a.call limit call = (e, some a')) :
    a.life limit (call :: calls) fate = e :: a'.life limit calls fate := by
  rw [life, Service.run_cons_some h]
  rfl

theorem life_cons_none (h : a.call limit call = (e, none)) : a.life limit (call :: calls) fate = [e] := by
  rw [life, Service.run_cons_none h]
  rfl

theorem call_access (limit : Nat) (a : Store) (fate : Fate) (c : Access) :
    a.call limit (.access c, fate) = (Ending.of (a.access limit fate c).1, some (a.access limit fate c).2) := rfl

theorem life_append (h : (Service.run (Store.call limit) a calls).2 = some a') (more : List (Operation × Fate)) :
    a.life limit (calls ++ more) fate = (Service.run (Store.call limit) a calls).1 ++ a'.life limit more fate := by
  rw [life, Service.run_append h]
  exact List.append_assoc ..

/-! ### Transactions that are rolled back -/

/-- Calls of which none throws for a constraint, and in which no step fails for another reason, change values only. -/
theorem run_accesses (inside : List (Access × Fate)) (hsmooth : ∀ c ∈ inside, ∀ stmt, c.2.step stmt = none)
    (h : .threw ⟨.constraint⟩ ∉ (Service.run (Store.call limit) a (inside.map (Prod.map .access id))).1) :
    ∃ contents, (Service.run (Store.call limit) a (inside.map (Prod.map .access id))).2 =
      some { a with contents := contents } := by
  induction inside generalizing a with
  | nil => exact ⟨a.contents, rfl⟩
  | cons c inside ih =>
      obtain ⟨b, fate⟩ := c
      rw [List.map_cons, Prod.map_apply, id, Service.run_cons_some (call_access _ a fate b)] at h ⊢
      obtain ⟨hfirst, hrest⟩ := not_or.mp fun hmem => h (List.mem_cons.mpr hmem)
      obtain ⟨hnone, hsmooth⟩ := List.forall_mem_cons.mp hsmooth
      obtain ⟨contents, hsame⟩ : ∃ contents, (a.access limit fate b).2 = { a with contents := contents } := by
        have haccessed := accessed limit a fate b
        generalize a.access limit fate b = x at haccessed hfirst ⊢
        cases haccessed with
        | kept => exact ⟨a.contents, rfl⟩
        | changed r contents => exact ⟨contents, rfl⟩
        | violated => exact absurd rfl hfirst
        | faulted stmt fault hfault =>
            rw [hnone stmt] at hfault
            cases hfault
      rw [hsame] at hrest ⊢
      exact ih hsmooth hrest

/-- Then `rollback` brings the store back. -/
theorem life_rolledBack {first last : Fate} (hclosed : a.begun = none) (hfirst : first.fails = false)
    (hlast : last.fails = false) (inside : List (Access × Fate)) (hsmooth : ∀ c ∈ inside, ∀ stmt, c.2.step stmt = none)
    (h : .threw ⟨.constraint⟩ ∉ (Service.run (Store.call limit) a
      ((.startTransaction, first) :: inside.map (Prod.map .access id))).1) (after : List (Operation × Fate)) :
    a.life limit ((.startTransaction, first) :: ((inside.map (Prod.map .access id)) ++
        (.rollbackTransaction, last) :: after)) fate =
      (Service.run (Store.call limit) a ((.startTransaction, first) :: inside.map (Prod.map .access id))).1 ++
        .done :: a.life limit after fate := by
  have hstart : a.call limit (.startTransaction, first) = (.done, some { a with begun := some a.contents }) := by
    simp [Store.call, execute, hfirst, hclosed]
  rw [Service.run_cons_some hstart, List.mem_cons, not_or] at h
  obtain ⟨contents, hinside⟩ := run_accesses inside hsmooth h.2
  have hback : Store.call limit { a with contents := contents, begun := some a.contents } (.rollbackTransaction, last) =
      (.done, some a) := by
    simp [Store.call, execute, hlast, ← hclosed]
  rw [life_cons_some hstart, life_append hinside, life_cons_some hback, Service.run_cons_some hstart, List.cons_append]

/-! ### Lives that end as they should -/

end Store

namespace Operation

/-- The transactions are begun and ended by turns, from where one is open or none, and none is open in the end. -/
def Nested : Bool → List Operation → Prop
  | opened, [] => opened = false
  | opened, .access _ :: ops => Nested opened ops
  | opened, .startTransaction :: ops => opened = false ∧ Nested true ops
  | opened, .commitTransaction :: ops => opened = true ∧ Nested false ops
  | opened, .rollbackTransaction :: ops => opened = true ∧ Nested false ops

end Operation

namespace Store

/-- The statements that an access steps go well. -/
def Smooth (limit : Nat) (a : Store) (fate : Fate) : Access → Prop
  | .insertKey key d => ∀ x v, DML.textOf limit key = some x → d.bound limit = some v →
      fate.step .stmt_insert = none ∧ v ≠ .null ∧ a.contents x = none
  | .setKey key d => ∀ x v, DML.textOf limit key = some x → d.bound limit = some v →
      fate.step .stmt_update = none ∧ (v = .null → a.contents x = none)
  | .deleteKey key => DML.textOf limit key ≠ none → fate.step .stmt_delete = none
  | .exists_ key => DML.textOf limit key ≠ none → fate.step .stmt_exists = none
  | .getValue key => DML.textOf limit key ≠ none → fate.step .stmt_getvalue = none
  | .ensureWithDefault key default => ∀ x, DML.textOf limit key = some x → fate.step .stmt_getvalue = none ∧
      (a.text x = none → DML.textOf limit default ≠ none → fate.step .stmt_insert = none ∧ a.contents x = none)

/-- Nothing fails in a call. -/
def Clean (limit : Nat) (a : Store) : Operation × Fate → Prop
  | (.access c, fate) => a.Smooth limit fate c
  | (_, fate) => fate.fails = false

variable {α β : Type} {limit : Nat} {a : Store} {fate : Fate} {stmt : Stmt}

theorem use_failed_eq_empty_iff (h : a.failed = ∅) (bound : Option β) (f : β → Option (α × (Str → Option Value))) :
    (a.use fate stmt bound f).2.failed = ∅ ↔ ∀ b, bound = some b → fate.step stmt = none ∧ f b ≠ none := by
  have hready : stmt ∉ a.failed := by simp [h]
  have hfail (rollsBack : Bool) : (a.fail stmt rollsBack).failed ≠ ∅ := by
    rw [failed_fail]
    exact Finset.insert_ne_empty stmt a.failed
  unfold use
  rw [if_neg hready]
  cases bound with
  | none => exact iff_of_true h (by simp)
  | some b =>
      simp only [Option.some.injEq, forall_eq']
      cases hstep : fate.step stmt with
      | some fault => exact iff_of_false (hfail _) (by simp)
      | none =>
          cases f b with
          | none => exact iff_of_false (hfail _) (by simp)
          | some result => exact iff_of_true h (by simp)

theorem insertKey_failed_eq_empty_iff (h : a.failed = ∅) (fate : Fate) (key : Option Str) (value : Option Value) :
    (a.insertKey fate key value).2.failed = ∅ ↔ ∀ x v, key = some x → value = some v →
      fate.step .stmt_insert = none ∧ v ≠ .null ∧ a.contents x = none := by
  rw [insertKey, use_failed_eq_empty_iff h]
  have hf (x : Str) (v : Value) : ((if v = .null ∨ a.contents x ≠ none then none
      else some (true, Function.update a.contents x (some v))) ≠ none) ↔ v ≠ .null ∧ a.contents x = none := by
    split
    case isTrue hno => exact iff_of_false (fun hne => hne rfl) (by tauto)
    case isFalse hyes => exact iff_of_true (by simp) (by tauto)
  simp only [both_eq_some, Prod.forall, and_imp, hf]

theorem setKey_failed_eq_empty_iff (h : a.failed = ∅) (key : Option Str) (value : Option Value) :
    (a.setKey fate key value).2.failed = ∅ ↔ ∀ x v, key = some x → value = some v →
      fate.step .stmt_update = none ∧ (v = .null → a.contents x = none) := by
  rw [setKey, use_failed_eq_empty_iff h]
  have hf (x : Str) (v : Value) : ((if a.contents x = none then some (false, a.contents)
      else if v = .null then none else some (true, Function.update a.contents x (some v))) ≠ none) ↔
      (v = .null → a.contents x = none) := by
    split
    case isTrue hmissing => exact iff_of_true (by simp) fun _ => hmissing
    case isFalse hpresent =>
      split
      case isTrue hnull => exact iff_of_false (fun hne => hne rfl) fun hmissing => hpresent (hmissing hnull)
      case isFalse hv => exact iff_of_true (by simp) fun hnull => absurd hnull hv
  simp only [both_eq_some, Prod.forall, and_imp, hf]

/-- A statement that violates no constraint. -/
theorem use_failed_eq_empty_iff_of_some (h : a.failed = ∅) (bound : Option β) (f : β → α × (Str → Option Value)) :
    (a.use fate stmt bound fun b => some (f b)).2.failed = ∅ ↔ (bound ≠ none → fate.step stmt = none) := by
  rw [use_failed_eq_empty_iff h]
  cases bound <;> simp

theorem ensureWithDefault_failed_eq_empty_iff (h : a.failed = ∅) (key : Option Str) (default : Str)
    (bound : Option Value) (hbound : bound ≠ some .null) :
    (a.ensureWithDefault fate key default bound).2.failed = ∅ ↔ ∀ x, key = some x → fate.step .stmt_getvalue = none ∧
      (a.text x = none → bound ≠ none → fate.step .stmt_insert = none ∧ a.contents x = none) := by
  have hready : Stmt.stmt_getvalue ∉ a.failed := by simp [h]
  cases key with
  | none =>
      have hget : a.getValue fate none = (.error ⟨.toobig⟩, a) := by rw [getValue, use, if_neg hready]
      rw [ensureWithDefault, hget]
      exact iff_of_true h (by simp)
  | some x =>
      simp only [Option.some.injEq, forall_eq']
      cases hstep : fate.step .stmt_getvalue with
      | some fault =>
          have hget : a.getValue fate (some x) = (.error ⟨fault.code⟩, a.fail .stmt_getvalue fault.rollsBack) := by
            unfold getValue use
            rw [if_neg hready, hstep]
          rw [ensureWithDefault, hget]
          refine iff_of_false ?_ (by simp)
          show (a.fail _ _).failed ≠ ∅
          rw [failed_fail]
          exact Finset.insert_ne_empty _ a.failed
      | none =>
          have hget : a.getValue fate (some x) = (.ok (a.text x), a) := by
            unfold getValue use
            rw [if_neg hready, hstep]
          rw [ensureWithDefault, hget]
          cases htext : a.text x with
          | some value => exact iff_of_true h (by simp)
          | none =>
              have hinsert := insertKey_failed_eq_empty_iff h fate (some x) bound
              show (a.insertKey fate (some x) bound).2.failed = ∅ ↔ _
              rw [hinsert]
              cases bound with
              | none => simp
              | some v =>
                  have hv : v ≠ .null := fun hnull => hbound (congrArg some hnull)
                  simp [hv]

theorem access_failed_eq_empty_iff (h : a.failed = ∅) (c : Access) :
    (a.access limit fate c).2.failed = ∅ ↔ a.Smooth limit fate c := by
  cases c with
  | insertKey key d =>
      rw [access, Smooth, Prod.map_snd, id]
      exact insertKey_failed_eq_empty_iff h _ _ _
  | setKey key d =>
      rw [access, Smooth, Prod.map_snd, id]
      exact setKey_failed_eq_empty_iff h _ _
  | deleteKey key =>
      rw [access, Smooth, Prod.map_snd, id, deleteKey]
      exact use_failed_eq_empty_iff_of_some h _ _
  | exists_ key =>
      rw [access, Smooth, Prod.map_snd, id, exists_]
      exact use_failed_eq_empty_iff_of_some h _ _
  | getValue key =>
      rw [access, Smooth, Prod.map_snd, id, getValue]
      exact use_failed_eq_empty_iff_of_some h _ _
  | ensureWithDefault key default =>
      have hbound : (DML.textOf limit default).map Value.text ≠ some .null := by simp
      refine (ensureWithDefault_failed_eq_empty_iff h _ default _ hbound).trans ?_
      simp only [Smooth, ne_eq, Option.map_eq_none_iff]

theorem execute_of_fails (h : fate.fails = true) (a : Store) (statement : Ddl) :
    a.execute fate statement = (.terminated, none) := by
  unfold execute
  rw [if_pos h]

/-- A statement without parameters ends the program, or leaves the failed statements as they are. -/
theorem execute_cases (a : Store) (fate : Fate) (statement : Ddl) : a.execute fate statement = (.terminated, none) ∨
    ∃ a', a.execute fate statement = (.done, some a') ∧ a'.failed = a.failed := by
  cases hfails : fate.fails with
  | true => exact .inl (execute_of_fails hfails a statement)
  | false =>
      unfold execute
      rw [hfails]
      cases statement <;> cases a.begun <;> first | exact .inl rfl | exact .inr ⟨_, rfl, rfl⟩

/-- A statement that has failed lets the destructor throw, if no call ends the program before. -/
theorem life_of_failed (h : a.failed ≠ ∅) (calls : List (Operation × Fate)) : .terminated ∈ a.life limit calls fate := by
  induction calls generalizing a with
  | nil =>
      rw [life_nil, destroy, if_neg fun hall => h hall.1]
      exact List.mem_singleton_self _
  | cons call calls ih =>
      have hddl (f : Fate) (statement : Ddl) (hcall : a.call limit call = a.execute f statement) :
          .terminated ∈ a.life limit (call :: calls) fate := by
        rcases execute_cases a f statement with hends | ⟨a', hdone, hsame⟩
        · rw [life_cons_none (hcall.trans hends)]
          exact List.mem_singleton_self _
        · rw [life_cons_some (hcall.trans hdone)]
          exact List.mem_cons_of_mem _ (ih (hsame ▸ h))
      obtain ⟨op, f⟩ := call
      cases op with
      | access c =>
          rw [life_cons_some (call_access _ a f c)]
          refine List.mem_cons_of_mem _ (ih fun hempty => h ?_)
          have hsubset := (accessed limit a f c).failed_subset
          rw [hempty] at hsubset
          exact Finset.subset_empty.mp hsubset
      | startTransaction => exact hddl f .beginTransaction rfl
      | commitTransaction => exact hddl f .commit rfl
      | rollbackTransaction => exact hddl f .rollback rfl

/-- The transactions are begun and ended by turns and nothing fails. -/
def Orderly (limit : Nat) (a : Store) (calls : List (Operation × Fate)) (fate : Fate) : Prop :=
  Operation.Nested a.begun.isSome (calls.map Prod.fst) ∧ (fate.fails = false ∧ fate.checkpointFails = false) ∧
    Machine.Along (fun a c => (Store.call limit a c).2) (Clean limit) a calls

section Survival

variable {a' : Store} {op : Operation} {f : Fate} {calls : List (Operation × Fate)} {e : Ending}

theorem orderly_cons_some (hcall : a.call limit (op, f) = (e, some a')) (hclean : a.Clean limit (op, f))
    (hnested : Operation.Nested a.begun.isSome (op :: calls.map Prod.fst) ↔
      Operation.Nested a'.begun.isSome (calls.map Prod.fst)) :
    a.Orderly limit ((op, f) :: calls) fate ↔ a'.Orderly limit calls fate := by
  unfold Orderly
  rw [Machine.Along, hcall, List.map_cons, hnested]
  simp [hclean]

theorem survives_iff_of_done (hcall : a.call limit (op, f) = (.done, some a')) (hclean : a.Clean limit (op, f))
    (hnested : Operation.Nested a.begun.isSome (op :: calls.map Prod.fst) ↔
      Operation.Nested a'.begun.isSome (calls.map Prod.fst))
    (ih : .terminated ∉ a'.life limit calls fate ↔ a'.Orderly limit calls fate) :
    .terminated ∉ a.life limit ((op, f) :: calls) fate ↔ a.Orderly limit ((op, f) :: calls) fate := by
  rw [life_cons_some hcall, orderly_cons_some hcall hclean hnested, ← ih]
  simp

theorem survives_iff_of_terminated (hcall : a.call limit (op, f) = (.terminated, none))
    (hno : Operation.Nested a.begun.isSome (op :: calls.map Prod.fst) → ¬ a.Clean limit (op, f)) :
    .terminated ∉ a.life limit ((op, f) :: calls) fate ↔ a.Orderly limit ((op, f) :: calls) fate := by
  rw [life_cons_none hcall]
  exact iff_of_false (by simp) fun hall => hno hall.1 hall.2.2.1

theorem survives_iff_access (h : a.failed = ∅) (c : Access)
    (ih : ∀ {a : Store}, a.failed = ∅ → (.terminated ∉ a.life limit calls fate ↔ a.Orderly limit calls fate)) :
    .terminated ∉ a.life limit ((.access c, f) :: calls) fate ↔ a.Orderly limit ((.access c, f) :: calls) fate := by
  have hcall := call_access limit a f c
  have hof : .terminated ≠ Ending.of (a.access limit f c).1 := by
    cases (a.access limit f c).1 <;> simp [Ending.of]
  rw [life_cons_some hcall, List.mem_cons, not_or]
  by_cases hsmooth : (a.access limit f c).2.failed = ∅
  · have hclean : a.Clean limit (.access c, f) := (access_failed_eq_empty_iff h c).mp hsmooth
    obtain ⟨contents, hsame⟩ := (accessed limit a f c).of_failed_eq_empty hsmooth
    have hbegun : (a.access limit f c).2.begun = a.begun := by rw [hsame]
    rw [ih hsmooth, orderly_cons_some hcall hclean (by rw [Operation.Nested, hbegun])]
    exact and_iff_right hof
  · have hclean : ¬ a.Clean limit (.access c, f) := fun hclean => hsmooth ((access_failed_eq_empty_iff h c).mpr hclean)
    exact iff_of_false (fun hall => hall.2 (life_of_failed hsmooth calls)) fun hall => hclean hall.2.2.1

/-- Which lives end as they should, from a store in which no statement has failed. -/
theorem survives_iff (h : a.failed = ∅) (calls : List (Operation × Fate)) :
    .terminated ∉ a.life limit calls fate ↔ a.Orderly limit calls fate := by
  induction calls generalizing a with
  | nil =>
      rw [life_nil, destroy, Orderly, List.map_nil, Operation.Nested, Machine.Along]
      cases a.begun <;> cases fate.fails <;> cases fate.checkpointFails <;> simp [h]
  | cons call calls ih =>
      obtain ⟨op, f⟩ := call
      have hunclean (hfails : f.fails = true) : ¬ f.fails = false := by simp [hfails]
      cases op with
      | access c => exact survives_iff_access h c ih
      | startTransaction =>
          cases hfails : f.fails with
          | true => exact survives_iff_of_terminated (execute_of_fails hfails a _) fun _ => hunclean hfails
          | false =>
              cases hbegun : a.begun with
              | none =>
                  have hdone : a.call limit (.startTransaction, f) = (.done, some { a with begun := some a.contents }) := by
                    simp [Store.call, execute, hfails, hbegun]
                  exact survives_iff_of_done hdone hfails (by simp [Operation.Nested, hbegun]) (ih h)
              | some contents =>
                  refine survives_iff_of_terminated ?_ ?_
                  · simp [Store.call, execute, hbegun]
                  · simp [Operation.Nested, hbegun]
      | commitTransaction =>
          cases hfails : f.fails with
          | true => exact survives_iff_of_terminated (execute_of_fails hfails a _) fun _ => hunclean hfails
          | false =>
              cases hbegun : a.begun with
              | none =>
                  refine survives_iff_of_terminated ?_ ?_
                  · simp [Store.call, execute, hbegun]
                  · simp [Operation.Nested, hbegun]
              | some contents =>
                  have hdone : a.call limit (.commitTransaction, f) = (.done, some { a with begun := none }) := by
                    simp [Store.call, execute, hfails, hbegun]
                  exact survives_iff_of_done hdone hfails (by simp [Operation.Nested, hbegun]) (ih h)
      | rollbackTransaction =>
          cases hfails : f.fails with
          | true => exact survives_iff_of_terminated (execute_of_fails hfails a _) fun _ => hunclean hfails
          | false =>
              cases hbegun : a.begun with
              | none =>
                  refine survives_iff_of_terminated ?_ ?_
                  · simp [Store.call, execute, hbegun]
                  · simp [Operation.Nested, hbegun]
              | some contents =>
                  have hdone : a.call limit (.rollbackTransaction, f) = (.done, some { a with contents := contents, begun := none }) := by
                    simp [Store.call, execute, hfails, hbegun]
                  exact survives_iff_of_done hdone hfails (by simp [Operation.Nested, hbegun]) (ih h)

end Survival
end Store

namespace Library

open Connection

variable {σ : Type} {L : Library σ} {s s' : σ} {t : Table}

/-- **A transaction that is rolled back leaves no trace**, from every state that a run can reach: the calls behind it, and
    the destructor, end as if it had not been, unless a call in it threw for a constraint, or a step in it failed for
    another reason. -/
theorem rolled_back_transaction (hL : L.Lawful) (hs : L.seen s = { table := t }) {limit : Nat}
    {before : List (Operation × Fate)} {first last : Fate}
    (hrun : (Service.run (L.call limit) s before).2 = some s') (hclosed : (L.seen s').begun = none)
    (hfirst : first.fails = false) (hlast : last.fails = false) (inside : List (Access × Fate))
    (hsmooth : ∀ c ∈ inside, ∀ stmt, c.2.step stmt = none)
    (hinside : .threw ⟨.constraint⟩ ∉
      (Service.run (L.call limit) s' ((.startTransaction, first) :: inside.map (Prod.map .access id))).1)
    (after : List (Operation × Fate)) (fate : Fate) :
    L.life limit s' ((.startTransaction, first) :: (inside.map (Prod.map .access id) ++
        (.rollbackTransaction, last) :: after)) fate =
      (Service.run (L.call limit) s' ((.startTransaction, first) :: inside.map (Prod.map .access id))).1 ++
        .done :: L.life limit s' after fate := by
  obtain ⟨a, h⟩ := represents_of_run hL hs hrun
  have hbegun : a.begun = none := by rw [← h.begun, hclosed, Option.map_none]
  obtain ⟨hanswers, -⟩ := Service.run_of_simulates (simulates hL limit) h
    ((.startTransaction, first) :: inside.map (Prod.map .access id))
  rw [hanswers] at hinside ⊢
  rw [life_eq hL h, life_eq hL h, Store.life_rolledBack hbegun hfirst hlast inside hsmooth hinside]

theorem rolled_back_transaction_insertKey :
    library.life 1000000000 (opened .empty) [(.startTransaction, {}),
        (.access (.insertKey (lit "k") (.text (lit "a"))), {}), (.rollbackTransaction, {}),
        (.access (.exists_ (lit "k")), {})] {} =
      [.done, .returned (.bool true)] ++ .done ::
        library.life 1000000000 (opened .empty) [(.access (.exists_ (lit "k")), {})] {} := by
  have hinside : (Service.run (library.call 1000000000) (opened .empty)
      [(.startTransaction, {}), (.access (.insertKey (lit "k") (.text (lit "a"))), {})]).1 =
      [.done, .returned (.bool true)] := rfl
  have hopened : (Service.run (library.call 1000000000) (opened .empty) []).2 = some (opened .empty) := rfl
  rw [← hinside]
  exact rolled_back_transaction lawful_library (s := opened .empty) rfl hopened rfl rfl rfl
    [(.insertKey (lit "k") (.text (lit "a")), {})] (by simp) (hinside ▸ by simp) [(.access (.exists_ (lit "k")), {})] {}

/-- **When the program survives its store**: for every run of calls whose exceptions are caught, `std::terminate` is called,
    by a call or by the destructor, exactly if a transaction is begun in another one, ended where none is open or left
    open, or a statement of the transactions fails, or the `PRAGMA optimize` or the checkpoint of the destructor, or a step
    has failed at any time, for a constraint or for another reason. -/
theorem life_survives_iff (hL : L.Lawful) (hs : L.seen s = { table := t }) (limit : Nat)
    (calls : List (Operation × Fate)) (fate : Fate) :
    .terminated ∉ L.life limit s calls fate ↔ Store.Orderly limit { contents := t.contents } calls fate := by
  rw [life_eq hL (represents_opened hs), Store.survives_iff rfl]

/-- A transaction is committed, or the disk is full in a query. -/
theorem life_survives_iff_commit :
    .terminated ∉ library.life 1000000000 (opened .empty) [(.startTransaction, {}),
        (.access (.insertKey (lit "k") (.text (lit "a"))), {}), (.commitTransaction, {})] {} ∧
      .terminated ∈ library.life 1000000000 (opened .empty) [(.access (.exists_ (lit "k")), diskFull)] {} := by
  have hkey : DML.textOf 1000000000 (lit "k") = some (lit "k") := by decide +kernel
  have hvalue : (Datum.text (lit "a")).bound 1000000000 = some (.text (lit "a")) := by decide +kernel
  constructor
  · refine (life_survives_iff lawful_library (s := opened .empty) rfl 1000000000 _ {}).mpr ⟨?_, ⟨rfl, rfl⟩, ?_⟩
    · exact ⟨rfl, rfl, rfl⟩
    · refine ⟨rfl, fun a ha => ⟨?_, fun a' ha' => ⟨rfl, fun _ _ => trivial⟩⟩⟩
      obtain rfl := Option.some.inj ha
      intro x v hx hv
      rw [hkey] at hx
      rw [hvalue] at hv
      obtain rfl := Option.some.inj hx
      obtain rfl := Option.some.inj hv
      exact ⟨rfl, by simp, rfl⟩
  · by_contra hsurvives
    obtain ⟨-, -, hsmooth, -⟩ :=
      (life_survives_iff lawful_library (s := opened .empty) rfl 1000000000 _ {}).mp hsurvives
    have hstep : diskFull.step .stmt_exists = none := hsmooth (by rw [hkey]; simp)
    cases hstep

end Library
end Dodo.Persist
