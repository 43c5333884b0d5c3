import Dodo.Persist.Connection

/-!
# `Persist.Simulation` — the calls of a `KVStore` on the store

One lemma for each call says that it ends as it does on the abstract `Store`, in a connection that represents the new one;
the statements may be in any state that earlier calls have left. They follow from the laws of SQLite alone.
-/

namespace Dodo.Persist

open Common Lib

/-! ## The refinement -/

/-- What is seen of a connection, and the store. -/
structure Seen.Represents (v : Seen) (a : Store) : Prop where
  contents : v.table.contents = a.contents
  begun : v.begun.map Table.contents = a.begun
  ready : ∀ stmt, stmt ∉ a.failed → v.progress stmt = .ready
  failed : ∀ stmt ∈ a.failed, ∃ code, code ≠ .ok ∧ v.progress stmt = .failed code

namespace Table

variable {t t' : Table} {x : Str} {v : Value}

theorem contents_insert (h : t.insert ⟨.text x, v⟩ = .ok t') :
    t'.contents = Function.update t.contents x (some v) := by
  funext y
  rw [contents, lookup_insert h, Function.update_apply]
  simp only [Value.text.injEq]
  rfl

theorem contents_update (h : t.update (.text x) v = .ok t') (hx : t.contents x ≠ none) :
    t'.contents = Function.update t.contents x (some v) := by
  obtain ⟨old, hold⟩ := Option.ne_none_iff_exists'.mp hx
  funext y
  rw [contents, lookup_update h, Function.update_apply]
  simp only [Value.text.injEq]
  split
  case isTrue hy =>
    subst hy
    rw [show t.lookup (.text y) = some old from hold, Option.map_some]
  case isFalse => rfl

theorem contents_update_missing (h : t.update (.text x) v = .ok t') (hx : t.contents x = none) :
    t'.contents = t.contents := by
  funext y
  rw [contents, lookup_update h]
  split
  case isTrue hy =>
    rw [Value.text.inj hy, show t.lookup (.text x) = none from hx, contents, show t.lookup (.text x) = none from hx]
    rfl
  case isFalse => rfl

theorem contents_delete (t : Table) (x : Str) : (t.delete (.text x)).contents = Function.update t.contents x none := by
  funext y
  rw [contents, lookup_delete, Function.update_apply]
  simp only [Value.text.injEq]
  rfl

end Table

namespace Seen

variable {v : Seen} {a : Store} {stmt : Stmt}

theorem Represents.busy (h : v.Represents a) (hstmt : stmt ∈ a.failed) : v.progress stmt ≠ .ready := by
  obtain ⟨code, -, hcode⟩ := h.failed stmt hstmt
  rw [hcode]
  simp

theorem Represents.undone (h : v.Represents a) : v.undone.Represents a.undone := by
  have hbegun := h.begun
  unfold Seen.undone Store.undone
  cases hv : v.begun with
  | none =>
      rw [hv] at hbegun
      rw [← hbegun]
      exact h
  | some t =>
      rw [hv] at hbegun
      rw [← hbegun]
      exact ⟨rfl, rfl, h.ready, h.failed⟩

/-- A statement has failed and stays as it is. -/
theorem Represents.fail (h : v.Represents a) {code : Code} (hcode : code ≠ .ok) :
    (v.set stmt (.failed code)).Represents { a with failed := insert stmt a.failed } where
  contents := h.contents
  begun := h.begun
  ready := by
    intro other hother
    rw [Finset.mem_insert, not_or] at hother
    show Function.update v.progress stmt _ other = _
    rw [Function.update_of_ne hother.1]
    exact h.ready other hother.2
  failed := by
    intro other hother
    show ∃ code, code ≠ .ok ∧ Function.update v.progress stmt _ other = .failed code
    by_cases heq : other = stmt
    · exact ⟨code, hcode, by rw [heq, Function.update_self]⟩
    · rw [Function.update_of_ne heq]
      exact h.failed other (Finset.mem_of_mem_insert_of_ne hother heq)

theorem Represents.faulted (h : v.Represents a) (fault : Fault) :
    (v.faulted stmt fault).Represents (a.fail stmt fault.rollsBack) := by
  unfold Seen.faulted Store.fail
  cases fault.rollsBack with
  | false => exact h.fail fault.error.1
  | true => exact h.undone.fail fault.error.1

/-- A statement has been stepped and reset, and there is another table. -/
theorem set_set_ready (hready : v.progress stmt = .ready) (table : Table) :
    ({ v.set stmt .stepped with table := table } : Seen).set stmt .ready = { v with table := table } := by
  show (⟨_, _, _⟩ : Seen) = ⟨_, _, _⟩
  congr 1
  show Function.update (Function.update v.progress stmt .stepped) stmt .ready = v.progress
  rw [Function.update_idem, ← hready, Function.update_eq_self]

theorem Represents.change (h : v.Represents a) {table : Table} {contents : Str → Option Value}
    (hcontents : table.contents = contents) :
    ({ v with table := table } : Seen).Represents { a with contents := contents } :=
  ⟨hcontents, h.begun, h.ready, h.failed⟩

end Seen

/-! ## One call -/

section Calls

variable {σ α β : Type} [Sqlite σ] {fate : Fate} {seen : σ → Seen} {parameter : σ → Stmt → Nat → Value} {s s' : σ}
  {a a' : Store} {stmt : Stmt} {p : Sql σ α}

/-- A call ends as it does on the store, in a connection that represents the new store. -/
structure Simulated (seen : σ → Seen) (p : Sql σ α) (s : σ) (x : Except SqlException α × Store) : Prop where
  ends : (p.ends s).1 = x.1
  represents : (seen (p.ends s).2).Represents x.2

omit [Sqlite σ] in
theorem simulated_of_ok {r : α} (hrun : p.run s = .ok r s') (h : (seen s').Represents a') :
    Simulated seen p s (.ok r, a') := by
  have hends : p.ends s = (.ok r, s') := by rw [Sql.ends, hrun]
  exact ⟨by rw [hends], by rwa [hends]⟩

omit [Sqlite σ] in
theorem simulated_of_error {e : SqlException} (hrun : p.run s = .error e s') (h : (seen s').Represents a') :
    Simulated seen p s (.error e, a') := by
  have hends : p.ends s = (.error e, s') := by rw [Sql.ends, hrun]
  exact ⟨by rw [hends], by rwa [hends]⟩

omit [Sqlite σ] in
theorem Simulated.bind {x : Except SqlException α × Store} {f : α → Sql σ β} {y : Except SqlException β × Store}
    (h : Simulated seen p s x) (hok : ∀ r s', x.1 = .ok r → (seen s').Represents x.2 → Simulated seen (f r) s' y)
    (herror : ∀ e, x.1 = .error e → y = (.error e, x.2)) : Simulated seen (p >>= f) s y := by
  obtain ⟨hends, hrep⟩ := h
  rw [Sql.ends] at hends hrep
  cases hrun : p.run s with
  | ok r s' =>
      rw [hrun] at hends hrep
      have hnext := hok r s' hends.symm hrep
      have hsame : (p >>= f).ends s = (f r).ends s' := by rw [Sql.ends, Sql.bind_ok hrun, Sql.ends]
      exact ⟨hsame ▸ hnext.ends, hsame ▸ hnext.represents⟩
  | error e s' =>
      rw [hrun] at hends hrep
      rw [herror e hends.symm]
      exact simulated_of_error (Sql.bind_error hrun) hrep

omit [Sqlite σ] in
theorem Simulated.map {x : Except SqlException α × Store} (h : Simulated seen p s x) (g : α → β) :
    Simulated seen (g <$> p) s (x.map (Except.map g) id) := by
  rw [map_eq_pure_bind]
  refine h.bind ?_ ?_
  · intro r s' hr hs'
    rw [show x.map (Except.map g) id = (.ok (g r), x.2) from Prod.ext (by rw [Prod.map_fst, hr]; rfl) rfl]
    exact simulated_of_ok rfl hs'
  · intro e he
    exact Prod.ext (by rw [Prod.map_fst, he]; rfl) rfl

omit [Sqlite σ] in
/-- The first part of a call has returned. -/
theorem Simulated.after {x : Except SqlException β × Store} {r : α} {f : α → Sql σ β} (hrun : p.run s = .ok r s')
    (h : Simulated seen (f r) s' x) : Simulated seen (p >>= f) s x := by
  have hsame : (p >>= f).ends s = (f r).ends s' := by rw [Sql.ends, Sql.bind_ok hrun, Sql.ends]
  exact ⟨hsame ▸ h.ends, hsame ▸ h.represents⟩

/-- A way to step a statement that throws the errors of `sqlite3_step`. -/
def Stepping (q : Sql σ α) (stmt : Stmt) : Prop :=
  ∀ s s' code, Sqlite.step stmt s = (code, s') → code ≠ .row → code ≠ .done → q.run s = .error ⟨code⟩ s'

theorem stepping_execute (stmt : Stmt) : Stepping (DML.execute stmt : Sql σ Nat) stmt := by
  intro s s' code hstep hrow hdone
  rw [EStateM.run, DML.execute, hstep]
  cases code <;> first | rfl | exact absurd rfl hdone

theorem stepping_step (stmt : Stmt) : Stepping (Query.step stmt : Sql σ Bool) stmt := by
  intro s s' code hstep hrow hdone
  rw [EStateM.run, Query.step, hstep]
  cases code <;> first | rfl | exact absurd rfl hdone | exact absurd rfl hrow

variable (law : Sqlite.Lawful fate seen parameter) (h : (seen s).Represents a)

include law h

/-- A parameter is bound. -/
theorem bindValue_simulated {x : Except SqlException β × Store} {f : Unit → Sql σ β} {v : Value} {position : Nat}
    (hready : stmt ∉ a.failed)
    (hf : ∀ s', (seen s').Represents a → seen s' = seen s →
      parameter s' stmt = Function.update (parameter s stmt) position v → Simulated seen (f ()) s' x) :
    Simulated seen (DML.bindValue (some v) stmt position >>= f) s x := by
  obtain ⟨s', hbind, hseen, hparameter⟩ := law.bind_some position v (h.ready stmt hready)
  exact .after (Sql.check_ok hbind) (hf s' (hseen ▸ h) hseen hparameter)

theorem bindValue_simulated_toobig {f : Unit → Sql σ β} {position : Nat} (hready : stmt ∉ a.failed) :
    Simulated seen (DML.bindValue none stmt position >>= f) s (.error ⟨.toobig⟩, a) := by
  obtain ⟨s', hbind, hseen⟩ := law.bind_none position (h.ready stmt hready)
  exact simulated_of_error (Sql.bind_error (Sql.check_error hbind (by decide))) (hseen ▸ h)

/-- A statement that has failed cannot be bound. -/
theorem bindValue_simulated_misuse {f : Unit → Sql σ β} {value : Option Value} {position : Nat}
    (hfailed : stmt ∈ a.failed) :
    Simulated seen (DML.bindValue value stmt position >>= f) s (.error ⟨.misuse⟩, a) := by
  obtain ⟨s', hbind, hseen⟩ := law.bind_misuse position value (h.busy hfailed)
  exact simulated_of_error (Sql.bind_error (Sql.check_error hbind (by decide))) (hseen ▸ h)

/-- A step fails for another reason than a constraint. -/
theorem step_simulated_fault {q : Sql σ α} (hq : Stepping q stmt) {f : α → Sql σ β} {fault : Fault}
    (hready : stmt ∉ a.failed) (hfault : fate.step stmt = some fault) :
    Simulated seen (q >>= f) s (.error ⟨fault.code⟩, a.fail stmt fault.rollsBack) := by
  obtain ⟨s', hstep, hseen⟩ := law.step_fault (h.ready stmt hready) hfault
  have hrun := hq s s' fault.code hstep fault.error.2.1 fault.error.2.2
  refine simulated_of_error (Sql.bind_error hrun) ?_
  rw [hseen]
  exact h.faulted fault

/-- A step violates a constraint. -/
theorem step_simulated_constraint {q : Sql σ α} (hq : Stepping q stmt) {f : α → Sql σ β} (hready : stmt ∉ a.failed)
    (hsmooth : fate.step stmt = none)
    (heffect : stmt.effect (parameter s stmt) (seen s).table = .error .constraint) :
    Simulated seen (q >>= f) s (.error ⟨.constraint⟩, a.fail stmt false) := by
  obtain ⟨s', hstep, hseen⟩ := law.step_error (h.ready stmt hready) hsmooth heffect
  refine simulated_of_error (Sql.bind_error (hq s s' _ hstep (by decide) (by decide))) ?_
  rw [hseen]
  exact h.fail (by decide)

omit h in
/-- A statement that has been stepped is reset. -/
theorem reset_stepped_run (r : β) (hstepped : (seen s).progress stmt = .stepped) :
    ∃ s', (do
      Statement.reset stmt
      return r : Sql σ β).run s = .ok r s' ∧ seen s' = (seen s).set stmt .ready := by
  obtain ⟨s', hreset, hseen⟩ := law.reset hstepped
  have hrun : (Statement.reset stmt : Sql σ Unit).run s = .ok () s' := Sql.check_ok hreset
  refine ⟨s', ?_, hseen⟩
  rw [Sql.bind_ok hrun, EStateM.run_pure]

/-- A statement that changes the table, and its `reset`. -/
theorem execute_simulated {g : Nat → β} {table : Table} {m : Nat} {contents : Str → Option Value}
    (hready : stmt ∉ a.failed) (hsmooth : fate.step stmt = none)
    (heffect : stmt.effect (parameter s stmt) (seen s).table = .changed table m)
    (hcontents : table.contents = contents) :
    Simulated seen (do
      let count ← DML.execute stmt
      Statement.reset stmt
      return g count) s (.ok (g m), { a with contents := contents }) := by
  have hprogress := h.ready stmt hready
  obtain ⟨s₁, hstep, hseen₁, hchanges⟩ := law.step_changed hprogress hsmooth heffect
  have hexecute : (DML.execute stmt : Sql σ Nat).run s = .ok m s₁ := by
    rw [EStateM.run, DML.execute, hstep]
    show EStateM.Result.ok (Sqlite.changes s₁) s₁ = _
    rw [hchanges]
  have hstepped : (seen s₁).progress stmt = .stepped := by
    rw [hseen₁]
    exact Function.update_self ..
  obtain ⟨s', hreset, hseen'⟩ := reset_stepped_run law (g m) hstepped
  refine .after hexecute (simulated_of_ok hreset ?_)
  rw [hseen', hseen₁, Seen.set_set_ready hprogress]
  exact h.change hcontents

/-- A query that has been stepped, and the `reset` behind what is read of it. -/
theorem query_reset_simulated {r : β} {s₁ : σ} (hready : stmt ∉ a.failed)
    (hseen : seen s₁ = (seen s).set stmt .stepped) :
    Simulated seen (do
      Statement.reset stmt
      return r) s₁ (.ok r, a) := by
  have hprogress := h.ready stmt hready
  have hstepped : (seen s₁).progress stmt = .stepped := by
    rw [hseen]
    exact Function.update_self ..
  obtain ⟨s', hreset, hseen'⟩ := reset_stepped_run law r hstepped
  refine simulated_of_ok hreset ?_
  rw [hseen', hseen]
  have hback := Seen.set_set_ready hprogress (seen s).table
  have hsame : ({ (seen s).set stmt .stepped with table := (seen s).table } : Seen) = (seen s).set stmt .stepped := rfl
  rw [hsame] at hback
  rw [hback]
  exact h

/-! The statements with one parameter, and with two. -/

theorem one_simulated {limit : Nat} {key : Str} {rest : Sql σ α} {f : Str → Option (α × (Str → Option Value))}
    (hfault : ∀ s' fault, (seen s').Represents a → stmt ∉ a.failed → fate.step stmt = some fault →
      Simulated seen rest s' (.error ⟨fault.code⟩, a.fail stmt fault.rollsBack))
    (hrest : ∀ s' x, (seen s').Represents a → seen s' = seen s → stmt ∉ a.failed → fate.step stmt = none →
      parameter s' stmt 1 = .text x → ∃ r contents, f x = some (r, contents) ∧
        Simulated seen rest s' (.ok r, { a with contents := contents })) :
    Simulated seen (do
      DML.bind limit stmt 1 key
      rest) s (a.use fate stmt (DML.textOf limit key) f) := by
  rw [DML.bind]
  unfold Store.use
  split
  case isTrue hfailed => exact bindValue_simulated_misuse law h hfailed
  case isFalse hready =>
    cases DML.textOf limit key with
    | none => exact bindValue_simulated_toobig law h hready
    | some x =>
        refine bindValue_simulated law h hready fun s' hs' hseen hparameter => ?_
        cases hstep : fate.step stmt with
        | some fault => exact hfault s' fault hs' hready hstep
        | none =>
            have hone : parameter s' stmt 1 = .text x := by rw [hparameter, Function.update_self]
            obtain ⟨r, contents, hf, hsimulated⟩ := hrest s' x hs' hseen hready hstep hone
            dsimp only
            rw [hf]
            exact hsimulated

/-- What a statement with two parameters does, and what the store says. -/
theorem change_simulated {first second : Option Value} {g : Nat → Bool} {bound : Option β}
    {f : β → Option (Bool × (Str → Option Value))}
    (hnone : bound = none → first = none ∨ second = none)
    (hsome : ∀ b, bound = some b → ∃ v w, first = some v ∧ second = some w ∧
      ∀ q : Nat → Value, q 1 = v → q 2 = w →
        (f b = none ∧ stmt.effect q (seen s).table = .error .constraint) ∨
        ∃ table m contents, f b = some (g m, contents) ∧ stmt.effect q (seen s).table = .changed table m ∧
          table.contents = contents) :
    Simulated seen (change stmt first second g) s (a.use fate stmt bound f) := by
  unfold change Store.use
  split
  case isTrue hfailed => exact bindValue_simulated_misuse law h hfailed
  case isFalse hready =>
    cases bound with
    | none =>
        cases first with
        | none => exact bindValue_simulated_toobig law h hready
        | some v =>
            obtain rfl : second = none := (hnone rfl).resolve_left (by simp)
            refine bindValue_simulated law h hready fun s' hs' _ _ => ?_
            exact bindValue_simulated_toobig law hs' hready
    | some b =>
        obtain ⟨v, w, rfl, rfl, hspec⟩ := hsome b rfl
        refine bindValue_simulated law h hready fun s₁ hs₁ hseen₁ hparameter₁ => ?_
        refine bindValue_simulated law hs₁ hready fun s₂ hs₂ hseen₂ hparameter₂ => ?_
        have hfirst : parameter s₂ stmt 1 = v := by
          rw [hparameter₂, hparameter₁, Function.update_of_ne (by decide), Function.update_self]
        have hsecond : parameter s₂ stmt 2 = w := by rw [hparameter₂, Function.update_self]
        have htable : (seen s₂).table = (seen s).table := by rw [hseen₂, hseen₁]
        cases hstep : fate.step stmt with
        | some fault => exact step_simulated_fault law hs₂ (stepping_execute stmt) hready hstep
        | none =>
            have hspec₂ := hspec (parameter s₂ stmt) hfirst hsecond
            rw [← htable] at hspec₂
            rcases hspec₂ with ⟨hf, heffect⟩ | ⟨table, m, contents, hf, heffect, hcontents⟩
            · dsimp only
              rw [hf]
              exact step_simulated_constraint law hs₂ (stepping_execute stmt) hready hstep heffect
            · dsimp only
              rw [hf]
              exact execute_simulated law hs₂ hready hstep heffect hcontents

theorem insertKey_simulated (limit : Nat) (key : Str) (d : Datum) :
    Simulated seen (d.insertKey limit key) s (a.insertKey fate (DML.textOf limit key) (d.bound limit)) := by
  obtain ⟨g, hg, heq⟩ := d.insertKey_eq (σ := σ) limit key
  rw [heq, Store.insertKey]
  refine change_simulated law h ?_ ?_
  · intro hnone
    rw [Option.map_eq_none_iff]
    exact Store.both_eq_none.mp hnone
  · rintro ⟨y, w⟩ hboth
    obtain ⟨hkey, hvalue⟩ := Store.both_eq_some.mp hboth
    refine ⟨.text y, w, by rw [hkey, Option.map_some], hvalue, fun q hfirst hsecond => ?_⟩
    dsimp only
    split
    case isTrue hrefused =>
      left
      refine ⟨rfl, ?_⟩
      have hinsert : (seen s).table.insert ⟨.text y, w⟩ = .error .constraint := by
        rcases hrefused with hnull | hpresent
        · exact dif_neg fun hok => hok.1.2 hnull
        · rw [← h.contents] at hpresent
          exact Table.insert_of_present hpresent
      rw [Stmt.effect, hfirst, hsecond, hinsert]
    case isFalse haccepted =>
      right
      obtain ⟨hv, hmissing⟩ := not_or.mp haccepted
      rw [not_not, ← h.contents] at hmissing
      obtain ⟨t', ht'⟩ := (seen s).table.insert_of_missing ⟨.text y, w⟩ (by simp) hv hmissing
      refine ⟨t', 1, _, by rw [hg], ?_, ?_⟩
      · rw [Stmt.effect, hfirst, hsecond, ht']
      · rw [Table.contents_insert ht', h.contents]

theorem setKey_simulated (limit : Nat) (key : Str) (d : Datum) :
    Simulated seen (d.setKey limit key) s (a.setKey fate (DML.textOf limit key) (d.bound limit)) := by
  rw [d.setKey_eq limit key, Store.setKey]
  refine change_simulated law h ?_ ?_
  · intro hnone
    rw [Option.map_eq_none_iff]
    exact (Store.both_eq_none.mp hnone).symm
  · rintro ⟨y, w⟩ hboth
    obtain ⟨hkey, hvalue⟩ := Store.both_eq_some.mp hboth
    refine ⟨w, .text y, hvalue, by rw [hkey, Option.map_some], fun q hfirst hsecond => ?_⟩
    have hrows : ((seen s).table.matching (.text y)).length = if a.contents y = none then 0 else 1 := by
      rw [(seen s).table.matching_length, ← h.contents]
      rfl
    dsimp only
    split
    case isTrue hmissing =>
      right
      have hnil : (seen s).table.matching (.text y) = [] := by
        rw [if_pos hmissing] at hrows
        exact List.length_eq_zero_iff.mp hrows
      have hupdate : ∃ t', (seen s).table.update (.text y) w = .ok t' := ⟨_, dif_neg fun hand => hand.2 hnil⟩
      obtain ⟨t', ht'⟩ := hupdate
      refine ⟨t', 0, _, rfl, ?_, ?_⟩
      · rw [Stmt.effect, hfirst, hsecond, ht', hrows, if_pos hmissing]
      · rw [← h.contents] at hmissing
        rw [Table.contents_update_missing ht' hmissing, h.contents]
    case isFalse hpresent =>
      split
      case isTrue hnull =>
        left
        refine ⟨rfl, ?_⟩
        have hrow : (seen s).table.matching (.text y) ≠ [] := by
          intro hnil
          rw [hnil, if_neg hpresent] at hrows
          cases hrows
        have hupdate : (seen s).table.update (.text y) w = .error .constraint := dif_pos ⟨hnull, hrow⟩
        rw [Stmt.effect, hfirst, hsecond, hupdate]
      case isFalse hv =>
        right
        obtain ⟨t', ht'⟩ := (seen s).table.update_ok (.text y) hv
        refine ⟨t', 1, _, rfl, ?_, ?_⟩
        · rw [Stmt.effect, hfirst, hsecond, ht', hrows, if_neg hpresent]
        · rw [← h.contents] at hpresent
          rw [Table.contents_update ht' hpresent, h.contents]

theorem deleteKey_simulated (limit : Nat) (key : Str) :
    Simulated seen (KVStore.deleteKey limit key) s (a.deleteKey fate (DML.textOf limit key)) := by
  rw [KVStore.deleteKey, Store.deleteKey]
  refine one_simulated law h ?_ ?_
  · intro s' fault hs' hready hfault
    exact step_simulated_fault law hs' (stepping_execute _) hready hfault
  · intro s' x hs' hseen hready hsmooth hone
    have heffect : Stmt.effect .stmt_delete (parameter s' .stmt_delete) (seen s').table =
        .changed ((seen s).table.delete (.text x)) ((seen s).table.matching (.text x)).length := by
      rw [Stmt.effect, hone, hseen]
    have hcount : (((seen s).table.matching (.text x)).length == 1) = decide (a.contents x ≠ none) := by
      rw [(seen s).table.matching_length, ← h.contents]
      show ((if (seen s).table.contents x = none then 0 else 1) == 1) = _
      by_cases hnone : (seen s).table.contents x = none <;> simp [hnone]
    refine ⟨_, _, rfl, ?_⟩
    rw [← hcount]
    refine execute_simulated law hs' (g := fun affected => affected == 1) hready hsmooth heffect ?_
    rw [Table.contents_delete, h.contents]

theorem exists_simulated (limit : Nat) (key : Str) :
    Simulated seen (KVStore.exists_ limit key) s (a.exists_ fate (DML.textOf limit key)) := by
  rw [KVStore.exists_, Store.exists_]
  refine one_simulated law h ?_ ?_
  · intro s' fault hs' hready hfault
    exact step_simulated_fault law hs' (stepping_step _) hready hfault
  · intro s' x hs' hseen hready hsmooth hone
    have heffect : Stmt.effect .stmt_exists (parameter s' .stmt_exists) (seen s').table =
        .row [.integer ((seen s).table.matching (.text x)).length] := by
      rw [Stmt.effect, hone, hseen]
    have hcount : ((((seen s).table.matching (.text x)).length : Int) == 1) = decide (a.contents x ≠ none) := by
      rw [(seen s).table.matching_length, ← h.contents]
      show (((if (seen s).table.contents x = none then 0 else 1 : Nat) : Int) == 1) = _
      by_cases hnone : (seen s).table.contents x = none <;> simp [hnone]
    obtain ⟨s₁, hstep, hseen₁, hcolumn⟩ := law.step_row (hs'.ready _ hready) hsmooth heffect
    have hrow : (Query.step .stmt_exists : Sql σ Bool).run s' = .ok true s₁ := by
      rw [EStateM.run, Query.step, hstep]
    have hint : (Query.getInt .stmt_exists 0 : Sql σ Int).run s₁ =
        .ok ((seen s).table.matching (.text x)).length s₁ := by
      have hvalue : (Query.column .stmt_exists 0 : Sql σ Value).run s₁ =
          .ok (.integer ((seen s).table.matching (.text x)).length) s₁ := by
        rw [EStateM.run, Query.column, hcolumn 0]
        rfl
      rw [Query.getInt, Sql.bind_ok hvalue, EStateM.run_pure]
      rfl
    refine ⟨_, _, rfl, .after hrow (.after hint ?_)⟩
    rw [← hcount]
    exact query_reset_simulated law hs' hready hseen₁

theorem getValue_simulated (limit : Nat) (key : Str) :
    Simulated seen (KVStore.getValue limit key) s (a.getValue fate (DML.textOf limit key)) := by
  rw [KVStore.getValue, Store.getValue]
  refine one_simulated law h ?_ ?_
  · intro s' fault hs' hready hfault
    exact step_simulated_fault law hs' (stepping_step _) hready hfault
  · intro s' x hs' hseen hready hsmooth hone
    have hlookup : (seen s').table.lookup (.text x) = a.contents x := congrFun hs'.contents x
    refine ⟨_, _, rfl, ?_⟩
    cases hx : a.contents x with
    | none =>
        have heffect : Stmt.effect .stmt_getvalue (parameter s' .stmt_getvalue) (seen s').table = .done := by
          rw [Stmt.effect, hone, hlookup, hx]
        obtain ⟨s₁, hstep, hseen₁⟩ := law.step_done (hs'.ready _ hready) hsmooth heffect
        have hrow : (Query.step .stmt_getvalue : Sql σ Bool).run s' = .ok false s₁ := by
          rw [EStateM.run, Query.step, hstep]
        rw [show a.text x = none by rw [Store.text, hx]; rfl]
        refine .after hrow ?_
        rw [if_neg Bool.false_ne_true, pure_bind]
        exact query_reset_simulated law hs' hready hseen₁
    | some v =>
        have heffect : Stmt.effect .stmt_getvalue (parameter s' .stmt_getvalue) (seen s').table = .row [v] := by
          rw [Stmt.effect, hone, hlookup, hx]
        obtain ⟨s₁, hstep, hseen₁, hcolumn⟩ := law.step_row (hs'.ready _ hready) hsmooth heffect
        have hrow : (Query.step .stmt_getvalue : Sql σ Bool).run s' = .ok true s₁ := by
          rw [EStateM.run, Query.step, hstep]
        -- the column is not `NULL`
        obtain ⟨c, hc⟩ : ∃ c, v.columnText = some c := by
          cases v with
          | null => exact absurd (hlookup.trans hx) ((seen s').table.lookup_ne_null _)
          | integer n => exact ⟨_, rfl⟩
          | text c => exact ⟨c, rfl⟩
          | blob c => exact ⟨c, rfl⟩
        have htext : (Query.getText .stmt_getvalue 0 : Sql σ Str).run s₁ = .ok (cstr c) s₁ := by
          have hvalue : (Query.column .stmt_getvalue 0 : Sql σ Value).run s₁ = .ok v s₁ := by
            rw [EStateM.run, Query.column, hcolumn 0]
            rfl
          rw [Query.getText, Sql.bind_ok hvalue, hc, EStateM.run_pure]
        rw [show a.text x = some (cstr c) by rw [Store.text, hx, Option.bind_some, hc, Option.map_some]]
        refine .after hrow ?_
        rw [if_pos rfl, map_eq_pure_bind, bind_assoc]
        refine .after htext ?_
        rw [pure_bind]
        exact query_reset_simulated law hs' hready hseen₁

theorem ensureWithDefault_simulated (limit : Nat) (key default : Str) :
    Simulated seen (KVStore.ensureWithDefault limit key default) s
      (a.ensureWithDefault fate (DML.textOf limit key) default ((DML.textOf limit default).map .text)) := by
  rw [KVStore.ensureWithDefault, Store.ensureWithDefault]
  have hget := getValue_simulated law h limit key
  generalize a.getValue fate (DML.textOf limit key) = x at hget
  obtain ⟨x, a'⟩ := x
  refine hget.bind ?_ ?_
  · rintro value s' rfl hs'
    cases value with
    | some value => exact simulated_of_ok rfl hs'
    | none =>
        have hinsert := (insertKey_simulated law hs' limit key (.text default)).map fun _ => default
        rw [map_eq_pure_bind] at hinsert
        exact hinsert
  · rintro e rfl
    rfl

/-- **What a call does.** -/
theorem Access.simulated (limit : Nat) (c : Access) : Simulated seen (c.run limit) s (a.access limit fate c) := by
  cases c with
  | insertKey key d => exact (insertKey_simulated law h limit key d).map _
  | setKey key d => exact (setKey_simulated law h limit key d).map _
  | deleteKey key => exact (deleteKey_simulated law h limit key).map _
  | exists_ key => exact (exists_simulated law h limit key).map _
  | getValue key => exact (getValue_simulated law h limit key).map _
  | ensureWithDefault key default => exact (ensureWithDefault_simulated law h limit key default).map _

end Calls

end Dodo.Persist
