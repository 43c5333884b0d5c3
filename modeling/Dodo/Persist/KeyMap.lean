import Mathlib.Data.Finmap
import Dodo.Lib.Machine
import Dodo.Persist.KVStore

/-!
# `Persist.KeyMap` — the store as a finite map

`KeyMap` is what a `KVStore` is for. A call follows the map if it returns what the map says and leaves a table
that represents the new map. Calls of a `KVStore` follow the map one after the other exactly as long as each is
`Served`: SQLite gets texts that mean the same, and no key is inserted that is there.
-/

namespace Dodo.Persist

open Common Lib

abbrev KeyMap := Finmap fun _ : Str => Str

inductive Call where
  | insertKey (key value : Str)
  | setKey (key value : Str)
  | deleteKey (key : Str)
  | exists_ (key : Str)
  | getValue (key : Str)
  | ensureWithDefault (key default : Str)
deriving DecidableEq, Repr

/-- What a call returns. -/
inductive Result where
  | bool (b : Bool)
  | found (value : Option Str)
  | text (value : Str)
deriving DecidableEq, Repr

namespace KeyMap

/-- What a call returns on a finite map, and the map it leaves. -/
def apply (m : KeyMap) : Call → Result × KeyMap
  | .insertKey key value => if key ∈ m then (.bool false, m) else (.bool true, m.insert key value)
  | .setKey key value => if key ∈ m then (.bool true, m.insert key value) else (.bool false, m)
  | .deleteKey key => (.bool (decide (key ∈ m)), m.erase key)
  | .exists_ key => (.bool (decide (key ∈ m)), m)
  | .getValue key => (.found (m.lookup key), m)
  | .ensureWithDefault key default =>
    match m.lookup key with
    | some value => (.text value, m)
    | none => (.text default, m.insert key default)

/-- The texts of the map have no zero octet. -/
def Plain (m : KeyMap) : Prop := ∀ key value, m.lookup key = some value → 0 ∉ value

end KeyMap

namespace Call

/-- The text that the call may store has no zero octet. -/
def Plain : Call → Prop
  | .insertKey _ value => 0 ∉ value
  | .setKey _ value => 0 ∉ value
  | .ensureWithDefault _ default => 0 ∉ default
  | _ => True

def run (limit : Nat) : Call → Sql Session Result
  | .insertKey key value => .bool <$> KVStore.insertKey limit key value
  | .setKey key value => .bool <$> KVStore.setKey limit key value
  | .deleteKey key => .bool <$> KVStore.deleteKey limit key
  | .exists_ key => .bool <$> KVStore.exists_ limit key
  | .getValue key => .found <$> KVStore.getValue limit key
  | .ensureWithDefault key default => .text <$> KVStore.ensureWithDefault limit key default

/-- The call with the texts as SQLite gets them; a default is bound only where the key is missing. -/
def bound (limit : Nat) (m : KeyMap) : Call → Option Call
  | .insertKey key value => do return .insertKey (← DML.textOf limit key) (← DML.textOf limit value)
  | .setKey key value => do return .setKey (← DML.textOf limit key) (← DML.textOf limit value)
  | .deleteKey key => do return .deleteKey (← DML.textOf limit key)
  | .exists_ key => do return .exists_ (← DML.textOf limit key)
  | .getValue key => do return .getValue (← DML.textOf limit key)
  | .ensureWithDefault key default => do
    let key ← DML.textOf limit key
    if key ∈ m then return .ensureWithDefault key default
    else return .ensureWithDefault key (← DML.textOf limit default)

/-- A key is inserted that is there. -/
def Refused (m : KeyMap) : Call → Prop
  | .insertKey key _ => key ∈ m
  | _ => False

end Call

/-- The rows whose keys are texts are those of the map. -/
def Table.Represents (t : Table) (m : KeyMap) : Prop :=
  ∀ key, t.lookup (.text key) = (m.lookup key).map .text

/-- Each call returns what it returns on the map, and leaves the map it leaves. -/
def Follows (limit : Nat) : KeyMap → Session → List Call → Prop
  | _, _, [] => True
  | m, s, c :: cs => ∃ s', (c.run limit).run s = .ok (m.apply c).1 s' ∧ s'.table.Represents (m.apply c).2 ∧
      Follows limit (m.apply c).2 s' cs

/-- The call means the same with the texts as SQLite gets them, and is not refused. -/
def Served (limit : Nat) (m : KeyMap) (c : Call) : Prop :=
  ∃ c', c.bound limit m = some c' ∧ m.apply c' = m.apply c ∧ ¬ c'.Refused m

variable {limit n : Nat} {t t' : Table} {m m' : KeyMap} {c c' : Call} {key value x y : Str}

/-! ## The table and the map -/

namespace Table.Represents

theorem lookup_eq_none_iff (h : t.Represents m) : t.lookup (.text x) = none ↔ x ∉ m := by
  rw [h, Option.map_eq_none_iff, Finmap.lookup_eq_none]

theorem unique (h : t.Represents m) (h' : t.Represents m') : m = m' := by
  refine Finmap.ext_lookup fun key => ?_
  have hsame := (h key).symm.trans (h' key)
  exact Option.map_injective (fun _ _ htext => Value.text.inj htext) hsame

theorem insert (h : t.Represents m) (ht : t.insert ⟨.text x, .text y⟩ = .ok t') : t'.Represents (m.insert x y) := by
  intro key
  rw [lookup_insert ht]
  by_cases hkey : key = x
  · subst hkey
    rw [if_pos rfl, Finmap.lookup_insert]
    rfl
  · rw [if_neg fun htext => hkey (Value.text.inj htext), Finmap.lookup_insert_of_ne _ hkey, h]

theorem delete (h : t.Represents m) (x : Str) : (t.delete (.text x)).Represents (m.erase x) := by
  intro key
  rw [lookup_delete]
  by_cases hkey : key = x
  · subst hkey
    rw [if_pos rfl, Finmap.lookup_erase]
    rfl
  · rw [if_neg fun htext => hkey (Value.text.inj htext), Finmap.lookup_erase_ne hkey, h]

theorem update (h : t.Represents m) (ht : t.update (.text x) (.text y) = .ok t') :
    t'.Represents (if x ∈ m then m.insert x y else m) := by
  intro key
  rw [lookup_update ht, h]
  by_cases hkey : key = x
  · subst hkey
    rw [if_pos rfl]
    split
    case isTrue hmem =>
      obtain ⟨v, hv⟩ := Option.isSome_iff_exists.mp (Finmap.lookup_isSome.mpr hmem)
      rw [hv, Finmap.lookup_insert]
      rfl
    case isFalse hmem =>
      rw [Finmap.lookup_eq_none.mpr hmem]
      rfl
  · rw [if_neg fun htext => hkey (Value.text.inj htext)]
    split
    · rw [Finmap.lookup_insert_of_ne _ hkey]
    · rfl

end Table.Represents

/-! ## One call -/

theorem served_iff_of_bound (hbound : c.bound limit m = some c') (hrefused : ¬ c'.Refused m) :
    Served limit m c ↔ m.apply c' = m.apply c := by
  constructor
  · rintro ⟨d, hd, happly, -⟩
    obtain rfl := Option.some.inj (hbound.symm.trans hd)
    exact happly
  · intro happly
    exact ⟨c', hbound, happly, hrefused⟩

theorem not_served_of_unbound (hbound : c.bound limit m = none) : ¬ Served limit m c := by
  rintro ⟨d, hd, -⟩
  cases hbound.symm.trans hd

theorem not_served_of_refused (hbound : c.bound limit m = some c') (hrefused : c'.Refused m) :
    ¬ Served limit m c := by
  rintro ⟨d, hd, -, hnot⟩
  obtain rfl := Option.some.inj (hbound.symm.trans hd)
  exact hnot hrefused

/-- What a call does to a session in which all statements can be bound: it throws, and is not served, or it
    returns to such a session. -/
def Call.Ends (limit : Nat) (c : Call) (m : KeyMap) (t : Table) (n : Nat) : Prop :=
  (∃ e s', (c.run limit).run (Session.prepared t n) = .error e s' ∧ ¬ Served limit m c) ∨
  ∃ r t' n' m', (c.run limit).run (Session.prepared t n) = .ok r (.prepared t' n') ∧ t'.Represents m' ∧
    ((r, m') = m.apply c ↔ Served limit m c)

theorem ends_of_bound {r : Result} {t' : Table} {n' : Nat} (hbound : c.bound limit m = some c')
    (hrefused : ¬ c'.Refused m) (hrun : (c.run limit).run (Session.prepared t n) = .ok r (.prepared t' n'))
    (hr : r = (m.apply c').1) (hrep : t'.Represents (m.apply c').2) : c.Ends limit m t n := by
  refine .inr ⟨r, t', n', (m.apply c').2, hrun, hrep, ?_⟩
  rw [served_iff_of_bound hbound hrefused, hr]

theorem ends_of_unbound (hbound : c.bound limit m = none)
    (hrun : ∃ s', (c.run limit).run (Session.prepared t n) = .error ⟨.toobig⟩ s') : c.Ends limit m t n := by
  obtain ⟨s', hs'⟩ := hrun
  exact .inl ⟨_, s', hs', not_served_of_unbound hbound⟩

/-- The default that is returned is the one that is stored, where the map is the right one. -/
theorem insert_eq_apply_ensureWithDefault {default : Str} (hx : x ∉ m)
    (h : m.insert x y = (m.apply (.ensureWithDefault key default)).2) : y = default := by
  have hlookup : (m.apply (.ensureWithDefault key default)).2.lookup x = some y := by
    rw [← h, Finmap.lookup_insert]
  have hmissing : m.lookup x = none := Finmap.lookup_eq_none.mpr hx
  rw [KeyMap.apply] at hlookup
  split at hlookup
  · cases hmissing.symm.trans hlookup
  · by_cases hkey : x = key
    · subst hkey
      rw [Finmap.lookup_insert] at hlookup
      exact (Option.some.inj hlookup).symm
    · rw [Finmap.lookup_insert_of_ne _ hkey] at hlookup
      cases hmissing.symm.trans hlookup

section

variable (hrep : t.Represents m)

include hrep

theorem decide_lookup_ne_none (x : Str) : decide (t.lookup (.text x) ≠ none) = decide (x ∈ m) := by
  refine decide_eq_decide.mpr ?_
  rw [Ne, hrep.lookup_eq_none_iff, not_not]

theorem insertKey_ends (limit n : Nat) (key value : Str) : (Call.insertKey key value).Ends limit m t n := by
  match hkey : DML.textOf limit key, hvalue : DML.textOf limit value with
  | none, _ =>
      exact ends_of_unbound (by simp [Call.bound, hkey]) (Sql.map_throws (KVStore.insertKey_toobig (.inl hkey)))
  | some x, none =>
      exact ends_of_unbound (by simp [Call.bound, hkey, hvalue]) (Sql.map_throws (KVStore.insertKey_toobig (.inr hvalue)))
  | some x, some y =>
      have hbound : (Call.insertKey key value).bound limit m = some (.insertKey x y) := by
        simp [Call.bound, hkey, hvalue]
      by_cases hmem : x ∈ m
      · have hpresent : t.lookup (.text x) ≠ none := fun hnone => hrep.lookup_eq_none_iff.mp hnone hmem
        obtain ⟨s', hs', -⟩ := KVStore.insertKey_refused (n := n) hkey hvalue hpresent
        exact .inl ⟨_, s', Sql.map_error hs', not_served_of_refused hbound hmem⟩
      · obtain ⟨t', ht'⟩ := Table.insert_of_missing ⟨.text x, .text y⟩ nofun nofun
          (hrep.lookup_eq_none_iff.mpr hmem)
        refine ends_of_bound hbound hmem (Sql.map_ok (KVStore.insertKey_ok hkey hvalue ht')) ?_ ?_
        · rw [KeyMap.apply, if_neg hmem]
        · rw [KeyMap.apply, if_neg hmem]
          exact hrep.insert ht'

theorem setKey_ends (limit n : Nat) (key value : Str) : (Call.setKey key value).Ends limit m t n := by
  match hkey : DML.textOf limit key, hvalue : DML.textOf limit value with
  | none, _ =>
      exact ends_of_unbound (by simp [Call.bound, hkey]) (Sql.map_throws (KVStore.setKey_toobig (.inl hkey)))
  | some x, none =>
      exact ends_of_unbound (by simp [Call.bound, hkey, hvalue]) (Sql.map_throws (KVStore.setKey_toobig (.inr hvalue)))
  | some x, some y =>
      have hbound : (Call.setKey key value).bound limit m = some (.setKey x y) := by
        simp [Call.bound, hkey, hvalue]
      obtain ⟨t', ht'⟩ := t.update_ok (.text x) (show Value.text y ≠ .null by nofun)
      obtain ⟨n', hrun⟩ := KVStore.setKey_ok (n := n) hkey hvalue ht'
      have hupdate := hrep.update ht'
      refine ends_of_bound hbound not_false (Sql.map_ok hrun) ?_ ?_
      · rw [decide_lookup_ne_none hrep, KeyMap.apply]
        split <;> simp [*]
      · rw [KeyMap.apply]
        split
        case isTrue hmem => rwa [if_pos hmem] at hupdate
        case isFalse hmem => rwa [if_neg hmem] at hupdate

theorem deleteKey_ends (limit n : Nat) (key : Str) : (Call.deleteKey key).Ends limit m t n := by
  match hkey : DML.textOf limit key with
  | none =>
      exact ends_of_unbound (by simp [Call.bound, hkey]) (Sql.map_throws (KVStore.deleteKey_toobig hkey))
  | some x =>
      have hbound : (Call.deleteKey key).bound limit m = some (.deleteKey x) := by simp [Call.bound, hkey]
      obtain ⟨n', hrun⟩ := KVStore.deleteKey_eq (t := t) (n := n) hkey
      refine ends_of_bound hbound not_false (Sql.map_ok hrun) ?_ (hrep.delete x)
      rw [decide_lookup_ne_none hrep, KeyMap.apply]

theorem exists_ends (limit n : Nat) (key : Str) : (Call.exists_ key).Ends limit m t n := by
  match hkey : DML.textOf limit key with
  | none =>
      exact ends_of_unbound (by simp [Call.bound, hkey]) (Sql.map_throws (KVStore.exists_toobig hkey))
  | some x =>
      have hbound : (Call.exists_ key).bound limit m = some (.exists_ x) := by simp [Call.bound, hkey]
      refine ends_of_bound hbound not_false (Sql.map_ok (KVStore.exists_eq (n := n) hkey)) ?_ hrep
      rw [decide_lookup_ne_none hrep, KeyMap.apply]

variable (hplain : m.Plain)

include hplain

/-- A text without a zero octet is read as it is stored. -/
theorem getValue_represented (hkey : DML.textOf limit key = some x) :
    (KVStore.getValue limit key).run (Session.prepared t n) = .ok (m.lookup x) (.prepared t n) := by
  rw [KVStore.getValue_eq hkey, hrep]
  match hlookup : m.lookup x with
  | none => rfl
  | some v =>
      have hcstr : cstr v = v := cstr_eq_iff.mpr ⟨hplain x v hlookup, .inl rfl⟩
      rw [Option.map_some, Option.bind_some, Value.columnText, Option.map_some, hcstr]

theorem getValue_ends (limit n : Nat) (key : Str) : (Call.getValue key).Ends limit m t n := by
  match hkey : DML.textOf limit key with
  | none =>
      exact ends_of_unbound (by simp [Call.bound, hkey]) (Sql.map_throws (KVStore.getValue_toobig hkey))
  | some x =>
      have hbound : (Call.getValue key).bound limit m = some (.getValue x) := by simp [Call.bound, hkey]
      exact ends_of_bound hbound not_false (Sql.map_ok (getValue_represented hrep hplain hkey)) rfl hrep

theorem ensureWithDefault_ends (limit n : Nat) (key default : Str) :
    (Call.ensureWithDefault key default).Ends limit m t n := by
  match hkey : DML.textOf limit key with
  | none =>
      refine ends_of_unbound (by simp [Call.bound, hkey]) (Sql.map_throws ?_)
      obtain ⟨s', hs'⟩ := KVStore.getValue_toobig (t := t) (n := n) hkey
      exact ⟨s', KVStore.ensureWithDefault_throws hs'⟩
  | some x =>
      have hget := getValue_represented (n := n) hrep hplain hkey
      by_cases hmem : x ∈ m
      · have hbound : (Call.ensureWithDefault key default).bound limit m = some (.ensureWithDefault x default) := by
          simp [Call.bound, hkey, hmem]
        obtain ⟨v, hv⟩ := Option.isSome_iff_exists.mp (Finmap.lookup_isSome.mpr hmem)
        rw [hv] at hget
        refine ends_of_bound hbound not_false (Sql.map_ok (KVStore.ensureWithDefault_found hget)) ?_ ?_
        · rw [KeyMap.apply, hv]
        · rw [KeyMap.apply, hv]
          exact hrep
      · have hmissing : m.lookup x = none := Finmap.lookup_eq_none.mpr hmem
        rw [hmissing] at hget
        match hdefault : DML.textOf limit default with
        | none =>
            refine ends_of_unbound (by simp [Call.bound, hkey, hmem, hdefault]) (Sql.map_throws ?_)
            obtain ⟨s', hs'⟩ := KVStore.insertKey_toobig (t := t) (n := n) (.inr hdefault)
            exact ⟨s', KVStore.ensureWithDefault_refused hget hs'⟩
        | some y =>
            have hbound : (Call.ensureWithDefault key default).bound limit m = some (.ensureWithDefault x y) := by
              simp [Call.bound, hkey, hmem, hdefault]
            obtain ⟨t', ht'⟩ := Table.insert_of_missing ⟨.text x, .text y⟩ nofun nofun
              (hrep.lookup_eq_none_iff.mpr hmem)
            have hrun := KVStore.ensureWithDefault_missing hget (KVStore.insertKey_ok hkey hdefault ht')
            refine .inr ⟨_, t', 1, m.insert x y, Sql.map_ok hrun, hrep.insert ht', ?_⟩
            have happly : m.apply (.ensureWithDefault x y) = (.text y, m.insert x y) := by
              rw [KeyMap.apply, hmissing]
            rw [served_iff_of_bound hbound not_false, happly]
            -- where the maps agree, so do the default and what is stored of it
            constructor
            · intro h
              have hsame := insert_eq_apply_ensureWithDefault hmem (congrArg Prod.snd h)
              rwa [hsame] at h ⊢
            · intro h
              have hsame := insert_eq_apply_ensureWithDefault hmem (congrArg Prod.snd h)
              rwa [hsame] at h ⊢

/-- **What a call does.** -/
theorem Call.ends (limit n : Nat) (c : Call) : c.Ends limit m t n := by
  cases c with
  | insertKey key value => exact insertKey_ends hrep limit n key value
  | setKey key value => exact setKey_ends hrep limit n key value
  | deleteKey key => exact deleteKey_ends hrep limit n key
  | exists_ key => exact exists_ends hrep limit n key
  | getValue key => exact getValue_ends hrep hplain limit n key
  | ensureWithDefault key default => exact ensureWithDefault_ends hrep hplain limit n key default

end

/-! ## Texts of ordinary length -/

namespace Call

/-- The texts of the call. -/
def texts : Call → List Str
  | .insertKey key value => [key, value]
  | .setKey key value => [key, value]
  | .deleteKey key => [key]
  | .exists_ key => [key]
  | .getValue key => [key]
  | .ensureWithDefault key default => [key, default]

theorem bound_of_short (hlimit : limit < 2 ^ 31) (h : ∀ text ∈ c.texts, text.length ≤ limit) :
    c.bound limit m = some c := by
  have htext : ∀ text ∈ c.texts, DML.textOf limit text = some text :=
    fun text ht => DML.textOf_of_short hlimit (h text ht)
  cases c with
  | insertKey key value =>
      rw [bound, htext key (by simp [texts]), htext value (by simp [texts])]
      rfl
  | setKey key value =>
      rw [bound, htext key (by simp [texts]), htext value (by simp [texts])]
      rfl
  | deleteKey key =>
      rw [bound, htext key (by simp [texts])]
      rfl
  | exists_ key =>
      rw [bound, htext key (by simp [texts])]
      rfl
  | getValue key =>
      rw [bound, htext key (by simp [texts])]
      rfl
  | ensureWithDefault key default =>
      rw [bound, htext key (by simp [texts]), htext default (by simp [texts])]
      exact ite_self _

end Call

/-- A call whose texts are within the limit is served unless its key is to be inserted and is there. -/
theorem served_iff_of_short (hlimit : limit < 2 ^ 31) (h : ∀ text ∈ c.texts, text.length ≤ limit) :
    Served limit m c ↔ ¬ c.Refused m := by
  have hbound := Call.bound_of_short (m := m) hlimit h
  by_cases hrefused : c.Refused m
  · exact iff_of_false (not_served_of_refused hbound hrefused) (not_not.mpr hrefused)
  · exact iff_of_true ⟨c, hbound, rfl, hrefused⟩ hrefused

/-! ## A run of calls -/

/-- A call of a plain text leaves plain texts. -/
theorem KeyMap.Plain.apply (h : m.Plain) (hc : c.Plain) : (m.apply c).2.Plain := by
  have hinsert : ∀ key value, 0 ∉ value → KeyMap.Plain (m.insert key value) := by
    intro key value hvalue key' value' hlookup
    by_cases hkey : key' = key
    · subst hkey
      rw [Finmap.lookup_insert] at hlookup
      rwa [← Option.some.inj hlookup]
    · rw [Finmap.lookup_insert_of_ne _ hkey] at hlookup
      exact h key' value' hlookup
  cases c with
  | insertKey key value =>
      rw [KeyMap.apply]
      split
      · exact h
      · exact hinsert key value hc
  | setKey key value =>
      rw [KeyMap.apply]
      split
      · exact hinsert key value hc
      · exact h
  | deleteKey key =>
      intro key' value' hlookup
      by_cases hkey : key' = key
      · subst hkey
        cases (Finmap.lookup_erase _ _).symm.trans hlookup
      · exact h key' value' ((Finmap.lookup_erase_ne hkey).symm.trans hlookup)
  | exists_ key => exact h
  | getValue key => exact h
  | ensureWithDefault key default =>
      rw [KeyMap.apply]
      split
      · exact h
      · exact hinsert key default hc

/-- **The store is a finite map** for a run of calls exactly as long as every call is served. -/
theorem follows_iff (limit n : Nat) (t : Table) (m : KeyMap) (calls : List Call) (hrep : t.Represents m)
    (hplain : m.Plain) (hcalls : ∀ c ∈ calls, c.Plain) :
    Follows limit m (.prepared t n) calls ↔
      Machine.Along (fun m c => some (m.apply c).2) (Served limit) m calls := by
  induction calls generalizing n t m with
  | nil => exact iff_of_true trivial trivial
  | cons c cs ih =>
      have hplain' := hplain.apply (hcalls c List.mem_cons_self)
      have hcalls' : ∀ c ∈ cs, c.Plain := fun c hc => hcalls c (List.mem_cons_of_mem _ hc)
      rw [Follows, Machine.Along]
      simp only [Option.mem_def, Option.some.injEq, forall_eq']
      rcases Call.ends hrep hplain limit n c with ⟨e, s', hrun, hnot⟩ | ⟨r, t', n', m', hrun, hrep', hserved⟩
      · refine iff_of_false ?_ fun h => hnot h.1
        rintro ⟨s'', hok, -⟩
        cases hrun.symm.trans hok
      · constructor
        · rintro ⟨s'', hok, hrep'', hrest⟩
          obtain ⟨rfl, rfl⟩ := EStateM.Result.ok.inj (hrun.symm.trans hok)
          -- a table represents one map only
          obtain rfl := hrep'.unique hrep''
          exact ⟨hserved.mp rfl, (ih n' t' _ hrep'' hplain' hcalls').mp hrest⟩
        · rintro ⟨hs, hrest⟩
          have happly := hserved.mpr hs
          have hm' : m' = (m.apply c).2 := congrArg Prod.snd happly
          subst hm'
          refine ⟨.prepared t' n', ?_, hrep', (ih n' t' _ hrep' hplain' hcalls').mpr hrest⟩
          rw [hrun, ← happly]

theorem follows_iff_two :
    Follows 1000000000 ∅ (.prepared .empty 0) [.insertKey (lit "k") (lit "a"), .getValue (lit "k")] := by
  refine (follows_iff 1000000000 0 .empty ∅ _ (fun key => ?_) (fun key value h => ?_) fun c hc => ?_).mpr ?_
  · rw [Finmap.lookup_empty]
    rfl
  · rw [Finmap.lookup_empty] at h
    cases h
  · rcases List.mem_cons.mp hc with rfl | hc
    · show 0 ∉ lit "a"
      decide
    · rw [List.mem_singleton.mp hc]
      trivial
  · have hinsert : Served 1000000000 ∅ (.insertKey (lit "k") (lit "a")) :=
      (served_iff_of_short (by decide) (by decide)).mpr Finmap.notMem_empty
    refine ⟨hinsert, fun m _ => ⟨?_, fun _ _ => trivial⟩⟩
    exact (served_iff_of_short (by decide) (by decide)).mpr not_false

/-! ## After a call that was refused -/

/-- The session that a call leaves, whatever it ends with. -/
def Sql.after {α : Type} (p : Sql Session α) (s : Session) : Session :=
  match p.run s with
  | .ok _ s' => s'
  | .error _ s' => s'

/-- What calls one after the other end with. -/
def outcomes (limit : Nat) : Session → List Call → List (Except SqlException Result)
  | _, [] => []
  | s, c :: cs =>
    let outcome := match (c.run limit).run s with
      | .ok r _ => .ok r
      | .error e _ => .error e
    outcome :: outcomes limit (Sql.after (c.run limit) s) cs

/-- A key that is there is not refused with `false`, and no other key can be inserted afterwards. -/
theorem insertKey_twice :
    outcomes 1000000000 { table := .empty }
        [.insertKey (lit "k") (lit "a"), .insertKey (lit "k") (lit "b"), .insertKey (lit "l") (lit "c"),
          .exists_ (lit "l")] =
      [.ok (.bool true), .error ⟨.constraint⟩, .error ⟨.misuse⟩, .ok (.bool false)] := by
  rfl

/-- The `INSERT` has been stepped and not reset. -/
def Session.Stuck (s : Session) : Prop := (s.statement .stmt_insert).progress ≠ .ready

/-- However the call ends, the statement stays as it is. -/
def Sql.KeepsStuck {α : Type} (p : Sql Session α) : Prop := ∀ s : Session, s.Stuck → (p.after s).Stuck

section Stuck

variable {α β : Type} {p : Sql Session α} {f : α → Sql Session β} {stmt : Stmt}

theorem Session.Stuck.setStatement {s : Session} (h : s.Stuck) (hstmt : stmt ≠ .stmt_insert) (statement : Statement) :
    (s.setStatement stmt statement).Stuck := by
  rw [Stuck, Session.statement, Session.setStatement]
  dsimp only
  rw [Function.update_of_ne (Ne.symm hstmt)]
  exact h

theorem keepsStuck_pure (a : α) : Sql.KeepsStuck (pure a) := fun _ hs => hs

theorem Sql.KeepsStuck.bind (hp : p.KeepsStuck) (hf : ∀ a, (f a).KeepsStuck) : (p >>= f).KeepsStuck := by
  intro s hs
  have hfirst := hp s hs
  rw [after] at hfirst ⊢
  match h : p.run s with
  | .ok a s' =>
      rw [h] at hfirst
      rw [bind_ok h]
      exact hf a s' hfirst
  | .error e s' =>
      rw [h] at hfirst
      rw [bind_error h]
      exact hfirst

theorem Sql.KeepsStuck.map (hp : p.KeepsStuck) (g : α → β) : (g <$> p).KeepsStuck := by
  rw [map_eq_pure_bind]
  exact hp.bind fun a => keepsStuck_pure (g a)

/-- A function of SQLite that leaves the statement as it is. -/
theorem keepsStuck_check {f : Session → Code × Session} (h : ∀ s : Session, s.Stuck → (f s).2.Stuck) :
    (Sql.check f).KeepsStuck := by
  intro s hs
  have hafter : (Sql.check f).after s = (f s).2 := by
    rw [Sql.after, EStateM.run, Sql.check]
    obtain ⟨code, s'⟩ := f s
    cases code <;> rfl
  rw [hafter]
  exact h s hs

theorem keepsStuck_bindValue (value : Option Value) (position : Nat) (h : stmt ≠ .stmt_insert) :
    (DML.bindValue value stmt position).KeepsStuck := by
  refine keepsStuck_check fun s hs => ?_
  show (s.bind stmt position value).2.Stuck
  unfold Session.bind
  dsimp only
  split
  · split
    · exact hs.setStatement h _
    · exact hs.setStatement h _
  · exact hs

theorem keepsStuck_bind (limit position : Nat) (value : Str) (h : stmt ≠ .stmt_insert) :
    (DML.bind limit stmt position value).KeepsStuck := by
  rw [DML.bind]
  exact keepsStuck_bindValue _ position h

theorem Session.Stuck.step {s : Session} (hs : s.Stuck) (h : stmt ≠ .stmt_insert) : (s.step stmt).2.Stuck := by
  rw [Session.step]
  dsimp only
  split
  · split
    all_goals exact hs.setStatement h _
  · exact hs

/-- Both ways to run a statement leave the session as `sqlite3_step` does, whatever it returns. -/
theorem after_execute (stmt : Stmt) (s : Session) : (DML.execute stmt).after s = (s.step stmt).2 := by
  rw [Sql.after, EStateM.run, DML.execute, Session.sqlite_step]
  obtain ⟨code, s'⟩ := s.step stmt
  cases code <;> rfl

theorem after_step (stmt : Stmt) (s : Session) : (Query.step stmt).after s = (s.step stmt).2 := by
  rw [Sql.after, EStateM.run, Query.step, Session.sqlite_step]
  obtain ⟨code, s'⟩ := s.step stmt
  cases code <;> rfl

theorem keepsStuck_execute (h : stmt ≠ .stmt_insert) : (DML.execute stmt).KeepsStuck := by
  intro s hs
  rw [after_execute]
  exact hs.step h

theorem keepsStuck_step (h : stmt ≠ .stmt_insert) : (Query.step stmt).KeepsStuck := by
  intro s hs
  rw [after_step]
  exact hs.step h

theorem keepsStuck_column (stmt : Stmt) (col : Nat) : (Query.column stmt col).KeepsStuck := fun _ hs => hs

theorem keepsStuck_getText (stmt : Stmt) (col : Nat) : (Query.getText stmt col).KeepsStuck := by
  refine (keepsStuck_column stmt col).bind fun v => ?_
  split <;> exact keepsStuck_pure _

theorem keepsStuck_reset (h : stmt ≠ .stmt_insert) : (Statement.reset stmt).KeepsStuck := by
  refine keepsStuck_check fun s hs => ?_
  show (s.reset stmt).2.Stuck
  unfold Session.reset
  split
  · exact hs.setStatement h _
  · exact hs.setStatement h _

theorem keepsStuck_insertKey (limit : Nat) (key value : Str) : (KVStore.insertKey limit key value).KeepsStuck := by
  intro s hs
  rw [Sql.after, KVStore.insertKey_misuse hs]
  exact hs

theorem keepsStuck_getValue (limit : Nat) (key : Str) : (KVStore.getValue limit key).KeepsStuck := by
  refine (keepsStuck_bind limit 1 key (by decide)).bind fun _ => ?_
  refine (keepsStuck_step (by decide)).bind fun row => ?_
  have hreset : ∀ value : Option Str, Sql.KeepsStuck (do
      Statement.reset .stmt_getvalue
      return value) := fun value => (keepsStuck_reset (by decide)).bind fun _ => keepsStuck_pure value
  cases row with
  | true => exact ((keepsStuck_getText _ 0).map some).bind hreset
  | false => exact (keepsStuck_pure none).bind hreset

/-- No call gets the statement out of it. -/
theorem keepsStuck_run (limit : Nat) (c : Call) : (c.run limit).KeepsStuck := by
  cases c with
  | insertKey key value => exact (keepsStuck_insertKey limit key value).map _
  | setKey key value =>
      refine Sql.KeepsStuck.map ?_ _
      refine (keepsStuck_bind limit 1 value (by decide)).bind fun _ => ?_
      refine (keepsStuck_bind limit 2 key (by decide)).bind fun _ => ?_
      refine (keepsStuck_execute (by decide)).bind fun _ => ?_
      exact (keepsStuck_reset (by decide)).bind fun _ => keepsStuck_pure _
  | deleteKey key =>
      refine Sql.KeepsStuck.map ?_ _
      refine (keepsStuck_bind limit 1 key (by decide)).bind fun _ => ?_
      refine (keepsStuck_execute (by decide)).bind fun _ => ?_
      exact (keepsStuck_reset (by decide)).bind fun _ => keepsStuck_pure _
  | exists_ key =>
      refine Sql.KeepsStuck.map ?_ _
      refine (keepsStuck_bind limit 1 key (by decide)).bind fun _ => ?_
      refine (keepsStuck_step (by decide)).bind fun _ => ?_
      refine ((keepsStuck_column _ 0).bind fun _ => keepsStuck_pure _).bind fun _ => ?_
      exact (keepsStuck_reset (by decide)).bind fun _ => keepsStuck_pure _
  | getValue key => exact (keepsStuck_getValue limit key).map _
  | ensureWithDefault key default =>
      refine Sql.KeepsStuck.map ?_ _
      refine (keepsStuck_getValue limit key).bind fun value => ?_
      cases value with
      | some result => exact keepsStuck_pure result
      | none => exact (keepsStuck_insertKey limit key default).bind fun _ => keepsStuck_pure default

/-- **After a refusal nothing can be inserted any more**, whatever calls come in between. -/
theorem outcomes_of_stuck {s : Session} (hs : s.Stuck) (calls : List Call) {c : Call}
    {outcome : Except SqlException Result} (h : (c, outcome) ∈ calls.zip (outcomes limit s calls)) :
    ∀ key value, c = .insertKey key value → outcome = .error ⟨.misuse⟩ := by
  induction calls generalizing s with
  | nil => cases h
  | cons d calls ih =>
      rw [outcomes, List.zip_cons_cons] at h
      rcases List.mem_cons.mp h with heq | hrest
      · obtain ⟨rfl, rfl⟩ := Prod.mk.inj heq
        rintro key value rfl
        rw [show ((Call.insertKey key value).run limit).run s = .error ⟨.misuse⟩ s from
          Sql.map_error (KVStore.insertKey_misuse hs)]
      · exact ih (keepsStuck_run limit d s hs) hrest

theorem outcomes_of_refused (hkey : DML.textOf limit key = some x) (hvalue : DML.textOf limit value = some y)
    (hpresent : t.lookup (.text x) ≠ none) (calls : List Call) {c : Call} {outcome : Except SqlException Result}
    (h : (c, outcome) ∈ calls.zip
      (outcomes limit (Sql.after (KVStore.insertKey limit key value) (.prepared t n)) calls)) :
    ∀ key value, c = .insertKey key value → outcome = .error ⟨.misuse⟩ := by
  obtain ⟨s', hrun, -, hfailed⟩ := KVStore.insertKey_refused (n := n) hkey hvalue hpresent
  rw [Sql.after, hrun] at h
  refine outcomes_of_stuck ?_ calls h
  rw [Session.Stuck, hfailed]
  nofun

end Stuck
end Dodo.Persist
