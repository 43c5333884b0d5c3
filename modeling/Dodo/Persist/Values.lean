import Dodo.Common.BytesMemory
import Dodo.Persist.KVStore

/-!
# `Persist.Values` — values come back as stored

A value is a text or a `Bytes`; each is bound, stored and read by its own overloads. Two values are lost on the way.
`getText` makes a string of a C string, which ends at the first zero octet. And an empty `Bytes` without memory is
bound by a null pointer, which is SQL `NULL` and refused by the column.

Assumed of SQLite in addition: a blob is stored octet for octet, unless it is longer than the limit of the
connection, which is an `int`; a null pointer binds `NULL`; and the pointer to a column without octets is null.
-/

namespace Dodo.Persist

open Common

/-! ## Blobs -/

namespace Value

/-- The memory `sqlite3_column_blob` points to. -/
def columnBlob (v : Value) : Option Str := v.columnText.filter (· ≠ [])

/-- `sqlite3_column_bytes` -/
def columnBytes (v : Value) : Nat := (v.columnText.getD []).length

theorem columnBlob_getD (v : Value) : v.columnBlob.getD [] = v.columnText.getD [] := by
  unfold columnBlob
  rcases v.columnText with _ | _ | ⟨c, octets⟩ <;> rfl

end Value

namespace DML

/-- What `bind` of a `Bytes` binds; `none` where it is more than the `limit`. -/
def blobOf (limit : Nat) (value : Bytes) : Option Value :=
  match value.array_ with
  | none => some .null
  | some memory => if value.size_ ≤ limit then some (.blob (memory.take value.size_)) else none

/-- `bind` of a `Bytes` -/
def bindBytes {σ : Type} [Sqlite σ] (limit : Nat) (stmt : Stmt) (position : Nat) (value : Bytes) : Sql σ Unit :=
  bindValue (blobOf limit value) stmt position

end DML

namespace Query

/-- `getBytes` into `bytes`, with what `append` makes of the column. -/
def getBytes {σ : Type} [Sqlite σ] (heap : Heap) (stmt : Stmt) (col : Nat) (bytes : Bytes) :
    Sql σ (Except BytesError Bytes) := do
  let v ← column stmt col
  return bytes.free.append heap v.columnBlob v.columnBytes

end Query

/-! The overloads of `KVStore` for a `Bytes`. -/

namespace KVStore.OfBytes

variable {σ : Type} [Sqlite σ] (limit : Nat)

/-- `getValue` into `value`: what it makes of it, unless it returns false. -/
def getValue (heap : Heap) (key : Str) (value : Bytes) : Sql σ (Option (Except BytesError Bytes)) := do
  DML.bind limit .stmt_getvalue 1 key
  let row ← Query.step .stmt_getvalue
  let value ← if row then some <$> Query.getBytes heap .stmt_getvalue 0 value else pure none
  Statement.reset .stmt_getvalue
  return value

/-- This overload does not look at the number of rows. -/
def insertKey (key : Str) (value : Bytes) : Sql σ Bool := do
  DML.bind limit .stmt_insert 1 key
  DML.bindBytes limit .stmt_insert 2 value
  let _ ← DML.execute .stmt_insert
  Statement.reset .stmt_insert
  return true

def setKey (key : Str) (value : Bytes) : Sql σ Bool := do
  DML.bindBytes limit .stmt_update 1 value
  DML.bind limit .stmt_update 2 key
  let rows ← DML.execute .stmt_update
  Statement.reset .stmt_update
  return rows == 1

end KVStore.OfBytes

/-! ## Values of both types -/

/-- A value of one of the two types. -/
inductive Datum where
  | text (value : Str)
  | bytes (value : Bytes) (wellFormed : value.WellFormed)

namespace Datum

def octets : Datum → Str
  | text value => value
  | bytes value _ => value.octets

variable {σ : Type} [Sqlite σ]

def insertKey (limit : Nat) (key : Str) : Datum → Sql σ Bool
  | text value => KVStore.insertKey limit key value
  | bytes value _ => KVStore.OfBytes.insertKey limit key value

def setKey (limit : Nat) (key : Str) : Datum → Sql σ Bool
  | text value => KVStore.setKey limit key value
  | bytes value _ => KVStore.OfBytes.setKey limit key value

/-- The octets that `getValue` of this type gives, unless it returns false; `target` is the `Bytes` it writes to. -/
def getValue (limit : Nat) (heap : Heap) (key : Str) (target : Bytes) : Datum → Sql σ (Option Str)
  | text _ => KVStore.getValue limit key
  | bytes _ _ => do
    let found ← KVStore.OfBytes.getValue limit heap key target
    return found.bind fun result => result.toOption.map Bytes.octets

/-- A new key is inserted, and a key that is there is set. -/
def store (limit : Nat) (key : Str) (t : Table) (d : Datum) : Sql σ Bool :=
  if ((DML.textOf limit key).bind fun x => t.lookup (.text x)).isSome then d.setKey limit key else d.insertKey limit key

/-- Storing the value returns true, and so does `getValue` behind it, which gives the same octets. -/
def ComesBack (limit : Nat) (heap : Heap) (target : Bytes) (key : Str) (t : Table) (n : Nat) (d : Datum) : Prop :=
  ∃ s s', (d.store limit key t).run (Session.prepared t n) = .ok true s ∧
    (d.getValue limit heap key target).run s = .ok (some d.octets) s'

/-- SQLite takes the value as it is, and the way back keeps it: a text has no zero octet, and a `Bytes` has an
    array, if only an empty one. -/
def Kept (limit : Nat) : Datum → Prop
  | text value => DML.textOf limit value = some value ∧ 0 ∉ value
  | bytes value _ => value.array_ ≠ none ∧ value.size_ ≤ limit

/-- The value that is bound. -/
def bound (limit : Nat) : Datum → Option Value
  | text value => (DML.textOf limit value).map .text
  | bytes value _ => DML.blobOf limit value

end Datum

/-! ## Two parameters -/

/-- A statement that changes the table, with its two parameters. -/
def change {σ : Type} [Sqlite σ] (stmt : Stmt) (first second : Option Value) (f : Nat → Bool) : Sql σ Bool := do
  DML.bindValue first stmt 1
  DML.bindValue second stmt 2
  let count ← DML.execute stmt
  Statement.reset stmt
  return f count

section change

variable {limit n m : Nat} {t t' : Table} {stmt : Stmt} {parameter : Nat → Value} {f : Nat → Bool} {v w : Value}

/-- The parameters of a statement with two of them. -/
def twoParameters (v w : Value) : Nat → Value := Function.update (Function.update (fun _ => .null) 1 v) 2 w

theorem change_bound : (change stmt (some v) (some w) f).run (Session.prepared t n) =
    (do
      let count ← DML.execute stmt
      Statement.reset stmt
      return f count).run (Session.bound t n stmt (twoParameters v w)) := by
  rw [change, Session.prepared_eq_bound t n stmt, Sql.bind_ok (bindValue_bound v 1), Sql.bind_ok (bindValue_bound w 2),
    twoParameters]

theorem change_ok (h : stmt.effect (twoParameters v w) t = .changed t' m) :
    (change stmt (some v) (some w) f).run (Session.prepared t n) = .ok (f m) (.prepared t' m) := by
  rw [change_bound, execute_reset h]

theorem change_refused (h : stmt.effect (twoParameters v w) t = .error .constraint) :
    ∃ e s', (change stmt (some v) (some w) f).run (Session.prepared t n) = .error e s' := by
  rw [change_bound, Sql.bind_error (execute_error h (by decide))]
  exact ⟨_, _, rfl⟩

theorem change_toobig {first second : Option Value} (h : first = none ∨ second = none) :
    ∃ e s', (change stmt first second f).run (Session.prepared t n) = .error e s' := by
  rw [change, Session.prepared_eq_bound t n stmt]
  cases first with
  | none =>
      obtain ⟨s', hs'⟩ := bindValue_toobig t n stmt (fun _ => .null) 1
      rw [Sql.bind_error hs']
      exact ⟨_, s', rfl⟩
  | some v =>
      obtain rfl : second = none := h.resolve_left (by simp)
      obtain ⟨s', hs'⟩ := bindValue_toobig t n stmt (Function.update (fun _ => .null) 1 v) 2
      rw [Sql.bind_ok (bindValue_bound v 1), Sql.bind_error hs']
      exact ⟨_, s', rfl⟩

end change

/-! ## Storing -/

namespace Datum

variable {limit n : Nat} {t t' : Table} {key x : Str} {d : Datum} {v : Value} {σ : Type} [Sqlite σ]

theorem insertKey_eq (limit : Nat) (key : Str) (d : Datum) : ∃ f : Nat → Bool, f 1 = true ∧
    (d.insertKey limit key : Sql σ Bool) = change .stmt_insert ((DML.textOf limit key).map .text) (d.bound limit) f := by
  cases d with
  | text value =>
      refine ⟨fun count => count == 1, rfl, ?_⟩
      simp only [insertKey, KVStore.insertKey, change, DML.bind, bound]
  | bytes value wellFormed =>
      refine ⟨fun _ => true, rfl, ?_⟩
      simp only [insertKey, KVStore.OfBytes.insertKey, change, DML.bind, DML.bindBytes, bound]

theorem setKey_eq (limit : Nat) (key : Str) (d : Datum) : (d.setKey limit key : Sql σ Bool) =
    change .stmt_update (d.bound limit) ((DML.textOf limit key).map .text) (fun rows => rows == 1) := by
  cases d with
  | text value => simp only [setKey, KVStore.setKey, change, DML.bind, bound]
  | bytes value wellFormed =>
      simp only [setKey, KVStore.OfBytes.setKey, change, DML.bind, DML.bindBytes, bound]

/-- The value is stored under the key. -/
theorem store_ok (hkey : DML.textOf limit key = some x) (hbound : d.bound limit = some v) (hv : v ≠ .null) :
    ∃ t' m, (d.store limit key t).run (Session.prepared t n) = .ok true (.prepared t' m) ∧ t'.lookup (.text x) = some v := by
  rw [store, hkey, Option.bind_some]
  split
  · rename_i hpresent
    obtain ⟨t', ht'⟩ := t.update_ok (.text x) hv
    refine ⟨t', 1, ?_, ?_⟩
    · have hcount : (t.matching (.text x)).length = 1 := by
        rw [t.matching_length, if_neg (Option.isSome_iff_ne_none.mp hpresent)]
      rw [setKey_eq, hbound, hkey]
      exact change_ok (m := 1) (by rw [← hcount]; simp [Stmt.effect, twoParameters, ht'])
    · rw [Table.lookup_update ht', if_pos rfl]
      obtain ⟨old, hold⟩ := Option.isSome_iff_exists.mp hpresent
      rw [hold, Option.map_some]
  · rename_i hmissing
    obtain ⟨t', ht'⟩ := t.insert_of_missing ⟨.text x, v⟩ (by simp) hv (Option.not_isSome_iff_eq_none.mp hmissing)
    refine ⟨t', 1, ?_, ?_⟩
    · obtain ⟨f, hf, heq⟩ := d.insertKey_eq (σ := Session) limit key
      rw [heq, hbound, hkey, ← hf]
      exact change_ok (by simp [Stmt.effect, twoParameters, ht'])
    · rw [Table.lookup_insert ht', if_pos rfl]

/-- SQLite does not take the key or the value. -/
theorem store_toobig (t : Table) (n : Nat) (h : DML.textOf limit key = none ∨ d.bound limit = none) :
    ∃ e s, (d.store limit key t).run (Session.prepared t n) = .error e s := by
  rw [store]
  split
  · rw [setKey_eq]
    apply change_toobig
    rcases h with h | h
    · exact Or.inr (by rw [h, Option.map_none])
    · exact Or.inl h
  · obtain ⟨f, -, heq⟩ := d.insertKey_eq (σ := Session) limit key
    rw [heq]
    apply change_toobig
    exact h.imp_left (by rintro h; rw [h, Option.map_none])

/-- The column refuses `NULL`. -/
theorem store_null (hkey : DML.textOf limit key = some x) (hbound : d.bound limit = some .null) :
    ∃ e s, (d.store limit key t).run (Session.prepared t n) = .error e s := by
  rw [store, hkey, Option.bind_some]
  split
  · rename_i hpresent
    have hrows : t.matching (.text x) ≠ [] := by
      rw [Ne, Table.matching_eq_nil_iff]
      exact Option.isSome_iff_ne_none.mp hpresent
    have hrefused : t.update (.text x) .null = .error .constraint := dif_pos ⟨rfl, hrows⟩
    rw [setKey_eq, hbound, hkey]
    exact change_refused (by simp [Stmt.effect, twoParameters, hrefused])
  · have hrefused : t.insert ⟨.text x, .null⟩ = .error .constraint := dif_neg fun h => h.1.2 rfl
    obtain ⟨f, -, heq⟩ := d.insertKey_eq (σ := Session) limit key
    rw [heq, hbound, hkey]
    exact change_refused (by simp [Stmt.effect, twoParameters, hrefused])

/-! ## Reading -/

/-- What `getValue` of this type makes of a column. -/
def back (heap : Heap) (v : Value) : Datum → Option Str
  | text _ => v.columnText.map cstr
  | bytes _ _ => (({} : Bytes).append heap v.columnBlob v.columnBytes).toOption.map Bytes.octets

theorem getValue_eq (d : Datum) (heap : Heap) (target : Bytes) (n : Nat) (hkey : DML.textOf limit key = some x)
    (hlookup : t.lookup (.text x) = some v) :
    (d.getValue limit heap key target).run (Session.prepared t n) = .ok (d.back heap v) (.prepared t n) := by
  cases d with
  | text value =>
      rw [getValue, KVStore.getValue_eq hkey, hlookup]
      rfl
  | bytes value wellFormed =>
      have heffect : Stmt.effect .stmt_getvalue (Function.update (fun _ => .null) 1 (.text x)) t = .row [v] := by
        rw [Stmt.effect, Function.update_self, hlookup]
      have hcolumn : ∀ s : Session, ∀ statement : Statement, statement.columns = [v] →
          (Query.getBytes heap .stmt_getvalue 0 target).run (s.setStatement .stmt_getvalue statement) =
            .ok (({} : Bytes).append heap v.columnBlob v.columnBytes) (s.setStatement .stmt_getvalue statement) := by
        intro s statement hstatement
        rw [Query.getBytes, Sql.bind_ok (column_zero hstatement), EStateM.run_pure]
        rfl
      rw [getValue, KVStore.OfBytes.getValue, bind_assoc, bind_one _ hkey, bind_assoc, Sql.bind_ok (step_row heffect),
        if_pos rfl, map_eq_pure_bind]
      simp only [bind_assoc, pure_bind]
      rw [Sql.bind_ok (hcolumn _ _ rfl), Sql.bind_ok (reset_stepped rfl), EStateM.run_pure]
      rfl

/-- SQLite gets no more than there is. -/
theorem length_bindableText {octets text : Str} {length : Int} (h : bindableText limit octets length = some text) :
    text.length ≤ octets.length := by
  unfold bindableText at h
  dsimp only at h
  split_ifs at h
  · rw [← Option.some.inj h]
    exact (List.takeWhile_prefix _).length_le
  · rw [← Option.some.inj h]
    exact List.length_take_le' ..

/-- A text that is cut on the way does not come back. -/
theorem cstr_textOf_eq_iff {value y : Str} (h : DML.textOf limit value = some y) :
    cstr y = value ↔ y = value ∧ 0 ∉ value := by
  have hcut : y.length ≤ value.length := length_bindableText h
  constructor
  · intro heq
    have hprefix : value <+: y := by
      rw [← heq]
      exact List.takeWhile_prefix _
    obtain rfl := hprefix.eq_of_length_le hcut
    exact ⟨rfl, cstr_eq_self_iff.mp heq⟩
  · rintro ⟨rfl, hzero⟩
    exact cstr_eq_self_iff.mpr hzero

/-- A blob comes back as it is, into a `Bytes` with memory for it. -/
theorem back_blob {value : Bytes} {wellFormed : value.WellFormed} (heap : Heap) {octets : Str}
    (hlength : octets.length < 2 ^ 63) : (bytes value wellFormed).back heap (.blob octets) = some octets := by
  have hcolumn : (Value.blob octets).columnBlob.getD [] = octets := Value.columnBlob_getD _
  have hbytes : (Value.blob octets).columnBytes = octets.length := rfl
  obtain ⟨bytes', hok, -, hoctets⟩ := Bytes.wellFormed_empty.append heap (Value.blob octets).columnBlob
    (n := octets.length) (by rw [hcolumn]) (by rw [Nat.zero_add]; exact hlength)
  rw [back, hbytes, hok]
  show some bytes'.octets = some octets
  rw [hoctets, hcolumn, List.take_length]
  rfl

/-- What is bound comes back exactly if it is kept. -/
theorem back_bound_iff (heap : Heap) (hlimit : limit < 2 ^ 31) (hbound : d.bound limit = some v) :
    v ≠ .null ∧ d.back heap v = some d.octets ↔ d.Kept limit := by
  cases d with
  | text value =>
      have hbound : (DML.textOf limit value).map Value.text = some v := by rw [← hbound, bound]
      obtain ⟨y, hy, rfl⟩ := Option.map_eq_some_iff.mp hbound
      have hback : (text value).back heap (.text y) = some (cstr y) := rfl
      rw [hback, Option.some.injEq, octets, cstr_textOf_eq_iff hy, Kept, hy, Option.some.injEq]
      simp
  | bytes value wellFormed =>
      have hbound : DML.blobOf limit value = some v := hbound
      unfold DML.blobOf at hbound
      rw [Kept]
      split at hbound
      · rename_i hnull
        simp [← Option.some.inj hbound, hnull]
      · rename_i memory harray
        split at hbound
        · rename_i hfits
          obtain rfl := Option.some.inj hbound
          have hoctets : memory.take value.size_ = value.octets := by rw [Bytes.octets, harray, Option.getD_some]
          rw [hoctets, back_blob heap (by rw [wellFormed.length_octets]; omega)]
          simp [harray, hfits, octets]
        · cases hbound

/-- What is not bound is not kept. -/
theorem not_kept_of_unbound (hbound : d.bound limit = none) : ¬ d.Kept limit := by
  cases d with
  | text value =>
      rintro ⟨hvalue, -⟩
      rw [bound, hvalue] at hbound
      cases hbound
  | bytes value wellFormed =>
      rintro ⟨harray, hfits⟩
      have hbound : DML.blobOf limit value = none := hbound
      unfold DML.blobOf at hbound
      split at hbound
      · cases hbound
      · rw [if_pos hfits] at hbound
        cases hbound

/-- What is not stored does not come back. -/
theorem not_comesBack {heap : Heap} {target : Bytes}
    (h : ∃ e s, (d.store limit key t).run (Session.prepared t n) = .error e s) : ¬ d.ComesBack limit heap target key t n := by
  obtain ⟨e, s, herror⟩ := h
  rintro ⟨s', -, hstore, -⟩
  cases herror.symm.trans hstore

end Datum

/-- **Values come back as stored**, whatever else is in the table, exactly if SQLite takes the key and the value is
    kept: a text without a zero octet, or a `Bytes` that has an array, both within SQLite's limit. -/
theorem comesBack_iff (limit : Nat) (hlimit : limit < 2 ^ 31) (heap : Heap) (target : Bytes) (key : Str) (t : Table)
    (n : Nat) (d : Datum) :
    d.ComesBack limit heap target key t n ↔ (DML.textOf limit key).isSome ∧ d.Kept limit := by
  cases hkey : DML.textOf limit key with
  | none => exact iff_of_false (Datum.not_comesBack (Datum.store_toobig t n (Or.inl hkey))) (by simp)
  | some x =>
      rw [Option.isSome_some, eq_self_iff_true, true_and]
      -- SQLite may refuse the value, the column may refuse `NULL`, and else it is stored
      cases hbound : d.bound limit with
      | none =>
          have htoobig : DML.textOf limit key = none ∨ d.bound limit = none := Or.inr hbound
          exact iff_of_false (Datum.not_comesBack (Datum.store_toobig t n htoobig)) (Datum.not_kept_of_unbound hbound)
      | some v =>
          rw [← Datum.back_bound_iff heap hlimit hbound]
          by_cases hv : v = .null
          · subst hv
            exact iff_of_false (Datum.not_comesBack (Datum.store_null hkey hbound)) (fun h => h.1 rfl)
          · obtain ⟨t', m, hstore, hlookup⟩ := Datum.store_ok (t := t) (n := n) hkey hbound hv
            have hget := Datum.getValue_eq d heap target m hkey hlookup
            constructor
            · rintro ⟨s, s', hstore', hget'⟩
              cases hstore.symm.trans hstore'
              exact ⟨hv, (EStateM.Result.ok.inj (hget.symm.trans hget')).1⟩
            · rintro ⟨-, hback⟩
              rw [hback] at hget
              exact ⟨_, _, hstore, hget⟩

/-- Memory that is zero before it is written. -/
def zeroHeap : Heap := ⟨fun n => List.replicate n 0, fun _ => List.length_replicate⟩

/-- A text and an empty `Bytes` that once had an octet. -/
theorem comesBack_iff_kept :
    (Datum.text (lit "v")).ComesBack 1000000000 zeroHeap {} (lit "k") .empty 0 ∧
      ∃ value wellFormed, value.octets = [] ∧
        (Datum.bytes value wellFormed).ComesBack 1000000000 zeroHeap {} (lit "k") .empty 0 := by
  have hkey : (DML.textOf 1000000000 (lit "k")).isSome = true := by decide +kernel
  constructor
  · exact (comesBack_iff _ (by decide) _ _ _ _ _ _).mpr ⟨hkey, by decide +kernel, by decide⟩
  · have hwell : (({} : Bytes).reserve zeroHeap 1).reserve zeroHeap 0 |>.WellFormed :=
      ((Bytes.wellFormed_empty.reserve zeroHeap (by decide)).1.reserve zeroHeap (by decide)).1
    exact ⟨_, hwell, by decide, (comesBack_iff _ (by decide) _ _ _ _ _ _).mpr ⟨hkey, by decide, by decide⟩⟩

/-- A text with a zero octet comes back cut, and an empty `Bytes` without an array cannot be stored. -/
theorem zero_octet_cut_and_empty_refused :
    (∃ s s', (KVStore.insertKey 1000000000 (lit "k") [97, 0, 98]).run (Session.prepared .empty 0) = .ok true s ∧
      (KVStore.getValue 1000000000 (lit "k")).run s = .ok (some [97]) s') ∧
    ∃ s, (KVStore.OfBytes.insertKey 1000000000 (lit "k") {}).run (Session.prepared .empty 0) = .error ⟨.constraint⟩ s := by
  exact ⟨⟨_, _, rfl, rfl⟩, ⟨_, rfl⟩⟩

end Dodo.Persist
