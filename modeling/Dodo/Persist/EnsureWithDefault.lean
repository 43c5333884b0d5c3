import Dodo.Lib.Machine
import Dodo.Persist.KVStore

/-!
# `Persist.EnsureWithDefault` — two stores on one database

Two `KVStore` objects call `ensureWithDefault` for the same key. A client takes a step for each SQL statement: the
`SELECT` of `getValue`, and the `INSERT` of `insertKey` where nothing was found. A list of clients is an interleaving
of their statements. Between the two statements of one client the other one may insert the key.
-/

namespace Dodo.Persist

open Common Lib

/-- The two clients. -/
inductive Who where
  | first
  | second
deriving DecidableEq, Repr

def Who.other : Who → Who
  | .first => .second
  | .second => .first

theorem Who.other_ne (who : Who) : who.other ≠ who := by
  cases who <;> decide

theorem Who.eq_of_ne {a b c : Who} (ha : a ≠ c) (hb : b ≠ c) : a = b := by
  cases a <;> cases b <;> cases c <;> first | rfl | contradiction

/-- How far a client is in its call. -/
inductive Phase where
  | start
  /-- The `SELECT` has found nothing. -/
  | missed
  | returned (value : Str)
  | threw (e : SqlException)
deriving DecidableEq, Repr

def Phase.Ended : Phase → Prop
  | .start | .missed => False
  | .returned _ | .threw _ => True

structure Client where
  store : KVStore := {}
  phase : Phase := .start

/-- The database and the two clients. -/
structure Pair where
  table : Table
  client : Who → Client := fun _ => {}

namespace Pair

/-- The state after a step of the client. -/
def put (s : Pair) (who : Who) (session : Session) (phase : Phase) : Pair :=
  { table := session.table, client := Function.update s.client who ⟨session.store, phase⟩ }

/-- The state after the `SELECT`, by how `getValue` ends. -/
def selected (s : Pair) (who : Who) : EStateM.Result SqlException Session (Option Str) → Pair
  | .ok (some value) session => s.put who session (.returned value)
  | .ok none session => s.put who session .missed
  | .error e session => s.put who session (.threw e)

/-- The state after the `INSERT`, by how `insertKey` ends. -/
def inserted (s : Pair) (who : Who) (default : Str) : EStateM.Result SqlException Session Bool → Pair
  | .ok _ session => s.put who session (.returned default)
  | .error e session => s.put who session (.threw e)

/-- The next SQL statement of the client, up to the `reset` behind it. -/
def step (limit : Nat) (key : Str) (default : Who → Str) (s : Pair) (who : Who) : Option Pair :=
  let session : Session := ⟨s.table, (s.client who).store⟩
  match (s.client who).phase with
  | .start => some (s.selected who ((KVStore.getValue limit key).run session))
  | .missed => some (s.inserted who (default who) ((KVStore.insertKey limit key (default who)).run session))
  | _ => none

/-- The text stored under the key. -/
def stored (limit : Nat) (key : Str) (t : Table) : Option Str :=
  (DML.textOf limit key).bind fun x => (t.lookup (.text x)).bind Value.columnText

/-- Both calls have returned the text that is stored. -/
def Agree (limit : Nat) (key : Str) (s : Pair) : Prop :=
  ∃ value, (∀ who, (s.client who).phase = .returned value) ∧ stored limit key s.table = some value

variable {limit : Nat} {key x y : Str} {default : Who → Str} {s s' : Pair} {who other : Who} {n : Nat}
  {session : Session} {phase : Phase} {sched : List Who}

@[simp] theorem put_client (s : Pair) (who : Who) (session : Session) (phase : Phase) :
    (s.put who session phase).client who = ⟨session.store, phase⟩ :=
  Function.update_self ..

theorem put_client_of_ne (h : other ≠ who) : (s.put who session phase).client other = s.client other :=
  Function.update_of_ne h ..

@[simp] theorem put_put (s : Pair) (who : Who) (session session' : Session) (phase phase' : Phase) :
    (s.put who session phase).put who session' phase' = s.put who session' phase' := by
  simp only [put, Function.update_idem]

theorem step_start (h : (s.client who).phase = .start) : step limit key default s who =
    some (s.selected who ((KVStore.getValue limit key).run ⟨s.table, (s.client who).store⟩)) := by
  rw [step, h]

theorem step_missed (h : (s.client who).phase = .missed) : step limit key default s who =
    some (s.inserted who (default who)
      ((KVStore.insertKey limit key (default who)).run ⟨s.table, (s.client who).store⟩)) := by
  rw [step, h]

theorem step_ended (h : (s.client who).phase.Ended) : step limit key default s who = none := by
  rw [step]
  match hphase : (s.client who).phase with
  | .returned _ => rfl
  | .threw _ => rfl
  | .start | .missed => rw [hphase] at h; exact h.elim

/-- A step of one client is none of the other. -/
theorem step_other (h : step limit key default s who = some s') (hother : other ≠ who) :
    s'.client other = s.client other := by
  rw [step] at h
  split at h
  · rw [← Option.some.inj h]
    unfold selected
    split <;> exact put_client_of_ne hother
  · rw [← Option.some.inj h]
    unfold inserted
    split <;> exact put_client_of_ne hother
  · cases h

/-- A call that has ended stays as it is. -/
theorem ended_persists (h : (s.client who).phase.Ended)
    (hexec : Machine.exec (step limit key default) s sched = some s') : s'.client who = s.client who := by
  refine Machine.exec_invariant (fun u => u.client who = s.client who) ?_ rfl hexec
  intro u a u' hu hstep
  by_cases hwho : who = a
  · subst hwho
    rw [step_ended (hu ▸ h)] at hstep
    cases hstep
  · rw [step_other hstep hwho, hu]

/-! ## The steps of one client are its call -/

/-- The state where the call of one client has ended. -/
def ended (s : Pair) (who : Who) : EStateM.Result SqlException Session Str → Pair
  | .ok value session => s.put who session (.returned value)
  | .error e session => s.put who session (.threw e)

/-- **Alone, a client runs `ensureWithDefault`.** -/
theorem exec_alone (limit : Nat) (key : Str) (default : Who → Str) (s : Pair) (who : Who)
    (hstart : (s.client who).phase = .start) :
    ∃ k, Machine.exec (step limit key default) s (List.replicate k who) =
      some (s.ended who
        ((KVStore.ensureWithDefault limit key (default who)).run ⟨s.table, (s.client who).store⟩)) := by
  match hget : (KVStore.getValue limit key).run (Session.mk s.table (s.client who).store) with
  | .ok (some value) session =>
      refine ⟨1, ?_⟩
      rw [KVStore.ensureWithDefault_found hget, List.replicate_one, Machine.exec, step_start hstart, hget]
      rfl
  | .error e session =>
      refine ⟨1, ?_⟩
      rw [KVStore.ensureWithDefault_throws hget, List.replicate_one, Machine.exec, step_start hstart, hget]
      rfl
  | .ok none session =>
      -- the second step goes on in the session that the first one has left
      refine ⟨2, ?_⟩
      have hphase : ((s.put who session .missed).client who).phase = .missed := by rw [put_client]
      have hstore : ((s.put who session .missed).client who).store = session.store := by rw [put_client]
      rw [show List.replicate 2 who = [who, who] from rfl, Machine.exec, step_start hstart, hget, Option.bind_some,
        selected, Machine.exec, step_missed hphase, hstore, Option.bind_some]
      rw [show (⟨(s.put who session .missed).table, session.store⟩ : Session) = session from rfl]
      match hinsert : (KVStore.insertKey limit key (default who)).run session with
      | .ok inserted session' =>
          rw [KVStore.ensureWithDefault_missing hget hinsert]
          exact congrArg some (put_put ..)
      | .error e session' =>
          rw [KVStore.ensureWithDefault_refused hget hinsert]
          exact congrArg some (put_put ..)

/-! ## One step -/

section Steps

variable {t : Table} {c : Str}

theorem getValue_stored (hkey : DML.textOf limit key = some x) : (KVStore.getValue limit key).run (Session.prepared t n) =
    .ok ((stored limit key t).map cstr) (.prepared t n) := by
  rw [KVStore.getValue_eq hkey, stored, hkey, Option.bind_some, Option.map_bind]
  rfl

theorem stored_eq_none_iff (hkey : DML.textOf limit key = some x) :
    stored limit key t = none ↔ t.lookup (.text x) = none := by
  rw [stored, hkey, Option.bind_some]
  match h : t.lookup (.text x) with
  | none => exact iff_of_true rfl rfl
  | some .null => exact absurd h (t.lookup_ne_null _)
  | some (.integer _) | some (.text _) | some (.blob _) => exact iff_of_false nofun nofun

variable (hstart : s.client who = ⟨{ changes := n }, .start⟩)

include hstart

theorem step_toobig (hkey : DML.textOf limit key = none) :
    ∃ session, step limit key default s who = some (s.put who session (.threw ⟨.toobig⟩)) := by
  obtain ⟨session, hget⟩ := KVStore.getValue_toobig (t := s.table) (n := n) hkey
  refine ⟨session, ?_⟩
  rw [step_start (by rw [hstart]), hstart]
  exact congrArg (fun result => some (s.selected who result)) hget

/-- The `SELECT` of a key that is there. -/
theorem step_found (hkey : DML.textOf limit key = some x) (hstored : stored limit key s.table = some c) :
    step limit key default s who = some (s.put who (.prepared s.table n) (.returned (cstr c))) := by
  have hget := getValue_stored (n := n) (t := s.table) hkey
  rw [hstored] at hget
  rw [step_start (by rw [hstart]), hstart]
  exact congrArg (fun result => some (s.selected who result)) hget

theorem step_unfound (hkey : DML.textOf limit key = some x) (hstored : stored limit key s.table = none) :
    step limit key default s who = some (s.put who (.prepared s.table n) .missed) := by
  have hget := getValue_stored (n := n) (t := s.table) hkey
  rw [hstored] at hget
  rw [step_start (by rw [hstart]), hstart]
  exact congrArg (fun result => some (s.selected who result)) hget

omit hstart

variable (hmissed : s.client who = ⟨{ changes := n }, .missed⟩) (hkey : DML.textOf limit key = some x)

include hmissed hkey

/-- The `INSERT` of a key that is still missing. -/
theorem step_insert (hstored : stored limit key s.table = none) (hdefault : DML.textOf limit (default who) = some y) :
    ∃ t, step limit key default s who = some (s.put who (.prepared t 1) (.returned (default who))) ∧
      stored limit key t = some y := by
  obtain ⟨t, ht⟩ := Table.insert_of_missing ⟨.text x, .text y⟩ nofun nofun ((stored_eq_none_iff hkey).mp hstored)
  refine ⟨t, ?_, ?_⟩
  · rw [step_missed (by rw [hmissed]), hmissed]
    exact congrArg (fun result => some (s.inserted who (default who) result)) (KVStore.insertKey_ok hkey hdefault ht)
  · rw [stored, hkey, Option.bind_some, Table.lookup_insert ht, if_pos rfl]
    rfl

/-- The `INSERT` of a key that is there, or of a default that is too long. -/
theorem step_insert_throws (h : stored limit key s.table ≠ none ∨ DML.textOf limit (default who) = none) :
    ∃ session e, step limit key default s who = some (s.put who session (.threw e)) := by
  have hthrows : ∃ session e,
      (KVStore.insertKey limit key (default who)).run (Session.prepared s.table n) = .error e session := by
    match hdefault : DML.textOf limit (default who) with
    | none =>
        obtain ⟨session, hs⟩ := KVStore.insertKey_toobig (t := s.table) (n := n) (.inr hdefault)
        exact ⟨session, _, hs⟩
    | some y =>
        have hstored : stored limit key s.table ≠ none := h.resolve_right (by rw [hdefault]; nofun)
        have hpresent := fun hnone => hstored ((stored_eq_none_iff hkey).mpr hnone)
        obtain ⟨session, hs, -⟩ := KVStore.insertKey_refused (n := n) hkey hdefault hpresent
        exact ⟨session, _, hs⟩
  obtain ⟨session, e, hrun⟩ := hthrows
  refine ⟨session, e, ?_⟩
  rw [step_missed (by rw [hmissed]), hmissed]
  exact congrArg (fun result => some (s.inserted who (default who) result)) hrun

end Steps

/-! ## Interleavings -/

section Interleavings

variable {t : Table} {c : Str} {e : SqlException}

theorem not_agree_of_threw (who : Who) (hthrew : (s.client who).phase = .threw e)
    (hexec : Machine.exec (step limit key default) s sched = some s') : ¬ Agree limit key s' := by
  rintro ⟨value, hvalue, -⟩
  have hsame := ended_persists (by rw [hthrew]; trivial) hexec
  have hphase := hvalue who
  rw [hsame, hthrew] at hphase
  cases hphase

/-- A step that ends with an exception. -/
theorem not_agree_of_step {session : Session}
    (hstep : step limit key default s who = some (s.put who session (.threw e)))
    (hexec : Machine.exec (step limit key default) s (who :: sched) = some s') : ¬ Agree limit key s' := by
  rw [Machine.exec, hstep] at hexec
  exact not_agree_of_threw who (by rw [put_client]) hexec

/-- There is a next statement as long as a call has not ended. -/
theorem exists_next (who : Who) (hended : ∀ who, (s'.client who).phase.Ended)
    (hexec : Machine.exec (step limit key default) s sched = some s') (hgoing : ¬ (s.client who).phase.Ended) :
    ∃ a rest, sched = a :: rest ∧ ¬ (s.client a).phase.Ended := by
  cases sched with
  | nil =>
      rw [← Option.some.inj hexec] at hended
      exact absurd (hended who) hgoing
  | cons a rest =>
      refine ⟨a, rest, rfl, fun ha => ?_⟩
      rw [Machine.exec, step_ended ha] at hexec
      cases hexec

/-- Once the key is there, the calls that have not begun return its text, up to the first zero octet. -/
theorem exec_of_stored (hkey : DML.textOf limit key = some x) (hstored : stored limit key s.table = some c)
    (hclient : ∀ who, (∃ n, s.client who = ⟨{ changes := n }, .start⟩) ∨ (s.client who).phase.Ended)
    (hended : ∀ who, (s'.client who).phase.Ended)
    (hexec : Machine.exec (step limit key default) s sched = some s') :
    s'.table = s.table ∧ ∀ who, (s.client who).phase = .start → (s'.client who).phase = .returned (cstr c) := by
  have hinv : s'.table = s.table ∧
      ∀ who, s'.client who = s.client who ∨ (s'.client who).phase = .returned (cstr c) := by
    refine Machine.exec_invariant (fun u : Pair => u.table = s.table ∧
      ∀ who, u.client who = s.client who ∨ (u.client who).phase = .returned (cstr c)) ?_ ⟨rfl, fun _ => .inl rfl⟩ hexec
    rintro u a u' ⟨htable, hu⟩ hstep
    have hgoing : ¬ (u.client a).phase.Ended := fun ha => by cases (step_ended ha).symm.trans hstep
    have hsame : u.client a = s.client a := (hu a).resolve_right fun h => hgoing (by rw [h]; trivial)
    obtain ⟨n, hstart⟩ := (hclient a).resolve_right (hsame ▸ hgoing)
    rw [step_found (hsame.trans hstart) hkey (htable ▸ hstored)] at hstep
    obtain rfl := Option.some.inj hstep
    refine ⟨htable, fun who => ?_⟩
    by_cases hwho : who = a
    · subst hwho
      rw [put_client]
      exact .inr rfl
    · rw [put_client_of_ne hwho]
      exact hu who
  refine ⟨hinv.1, fun who hstart => (hinv.2 who).resolve_left fun hsame => ?_⟩
  have hwho := hended who
  rw [hsame, hstart] at hwho
  exact hwho

/-- The key is there. -/
theorem agree_iff_of_stored (hkey : DML.textOf limit key = some x) (hstored : stored limit key t = some c)
    (hended : ∀ who, (s'.client who).phase.Ended)
    (hexec : Machine.exec (step limit key default) { table := t } sched = some s') :
    Agree limit key s' ↔ 0 ∉ c := by
  obtain ⟨htable, hreturned⟩ := exec_of_stored (s := { table := t }) hkey hstored
    (fun _ => .inl ⟨0, rfl⟩) hended hexec
  rw [← cstr_eq_self_iff, Agree, htable, hstored]
  constructor
  · rintro ⟨value, hvalue, hsame⟩
    rw [Phase.returned.inj ((hreturned .first rfl).symm.trans (hvalue .first)), Option.some.inj hsame]
  · intro hcstr
    exact ⟨c, fun who => by rw [hreturned who rfl, hcstr], rfl⟩

/-- After an insertion by `who`, the other client finds what was inserted. -/
theorem exec_of_inserted (hkey : DML.textOf limit key = some x) (hy : stored limit key t = some y) (value : Str)
    (hstart : ∀ other, other ≠ who → s.client other = ⟨{}, .start⟩)
    (hended : ∀ who, (s'.client who).phase.Ended)
    (hexec : Machine.exec (step limit key default) (s.put who (.prepared t 1) (.returned value)) sched = some s') :
    s'.table = t ∧ (s'.client who).phase = .returned value ∧
      ∀ other, other ≠ who → (s'.client other).phase = .returned (cstr y) := by
  generalize hu : s.put who (.prepared t 1) (.returned value) = u at hexec
  have htable : u.table = t := by rw [← hu]; rfl
  have hwho : u.client who = ⟨{ changes := 1 }, .returned value⟩ := by rw [← hu, put_client]; rfl
  have hother : ∀ a, a ≠ who → u.client a = ⟨{}, .start⟩ := by
    intro a ha
    rw [← hu, put_client_of_ne ha, hstart a ha]
  have hclient : ∀ a, (∃ n, u.client a = ⟨{ changes := n }, .start⟩) ∨ (u.client a).phase.Ended := by
    intro a
    by_cases ha : a = who
    · exact .inr (by rw [ha, hwho]; trivial)
    · exact .inl ⟨0, hother a ha⟩
  rw [← htable] at hy
  obtain ⟨htable', hreturned⟩ := exec_of_stored hkey hy hclient hended hexec
  refine ⟨htable'.trans htable, ?_, fun a ha => hreturned a (by rw [hother a ha])⟩
  rw [ended_persists (by rw [hwho]; trivial) hexec, hwho]

/-- One client has found nothing, and takes its next step before the other begins. -/
theorem agree_iff_of_serial (hkey : DML.textOf limit key = some x) (hstored : stored limit key s.table = none)
    (hmissed : s.client who = ⟨{ changes := n }, .missed⟩)
    (hstart : ∀ other, other ≠ who → s.client other = ⟨{}, .start⟩)
    (hended : ∀ who, (s'.client who).phase.Ended)
    (hexec : Machine.exec (step limit key default) s (who :: sched) = some s') :
    Agree limit key s' ↔ DML.textOf limit (default who) = some (default who) ∧ 0 ∉ default who := by
  match hdefault : DML.textOf limit (default who) with
  | none =>
      obtain ⟨session, e, hstep⟩ := step_insert_throws hmissed hkey (.inr hdefault)
      exact iff_of_false (not_agree_of_step hstep hexec) nofun
  | some y =>
      obtain ⟨t, hstep, hy⟩ := step_insert hmissed hkey hstored hdefault
      rw [Machine.exec, hstep, Option.bind_some] at hexec
      obtain ⟨htable', hwho', hother'⟩ := exec_of_inserted hkey hy (default who) hstart hended hexec
      rw [Agree, htable', hy, ← cstr_eq_self_iff]
      constructor
      · rintro ⟨value, hvalue, hsame⟩
        obtain rfl := Option.some.inj hsame
        have hd := Phase.returned.inj (hwho'.symm.trans (hvalue who))
        have hc := Phase.returned.inj ((hother' who.other who.other_ne).symm.trans (hvalue who.other))
        rw [hd]
        exact ⟨rfl, hc⟩
      · rintro ⟨hsame, hc⟩
        obtain rfl := Option.some.inj hsame
        refine ⟨default who, fun a => ?_, rfl⟩
        by_cases ha : a = who
        · rw [ha, hwho']
        · rw [hother' a ha, hc]

/-- Both clients have found nothing: the second `INSERT` throws. -/
theorem not_agree_of_overlap (hkey : DML.textOf limit key = some x) (hstored : stored limit key s.table = none)
    (hmissed : ∀ who, s.client who = ⟨{}, .missed⟩) (hended : ∀ who, (s'.client who).phase.Ended)
    (hexec : Machine.exec (step limit key default) s sched = some s') : ¬ Agree limit key s' := by
  obtain ⟨a, rest, rfl, -⟩ := exists_next .first hended hexec (by rw [hmissed]; exact id)
  match hdefault : DML.textOf limit (default a) with
  | none =>
      obtain ⟨session, e, hstep⟩ := step_insert_throws (hmissed a) hkey (.inr hdefault)
      exact not_agree_of_step hstep hexec
  | some y =>
      obtain ⟨t, hstep, hy⟩ := step_insert (hmissed a) hkey hstored hdefault
      rw [Machine.exec, hstep, Option.bind_some] at hexec
      generalize hu : s.put a (.prepared t 1) (.returned (default a)) = u at hexec
      have htable : u.table = t := by rw [← hu]; rfl
      have ha : (u.client a).phase.Ended := by rw [← hu, put_client]; trivial
      have hothers : ∀ b, b ≠ a → u.client b = ⟨{}, .missed⟩ := by
        intro b hb
        rw [← hu, put_client_of_ne hb, hmissed]
      obtain ⟨b, rest', rfl, hb⟩ := exists_next a.other hended hexec (by rw [hothers _ a.other_ne]; exact id)
      have hne : b ≠ a := by
        rintro rfl
        exact hb ha
      -- the second insertion meets the row of the first one
      rw [← htable] at hy
      obtain ⟨session, e, hthrows⟩ := step_insert_throws (hothers b hne) hkey (.inl (by rw [hy]; nofun))
      exact not_agree_of_step hthrows hexec

/-- The key is missing. -/
theorem agree_iff_of_missing (hkey : DML.textOf limit key = some x) (hstored : stored limit key t = none)
    (hended : ∀ who, (s'.client who).phase.Ended)
    (hexec : Machine.exec (step limit key default) { table := t } sched = some s') :
    Agree limit key s' ↔ ∃ who rest, sched = who :: who :: rest ∧
      DML.textOf limit (default who) = some (default who) ∧ 0 ∉ default who := by
  obtain ⟨a, rest, rfl, -⟩ := exists_next .first hended hexec id
  have hselect : step limit key default { table := t } a =
      some (Pair.put { table := t } a (.prepared t 0) .missed) := step_unfound rfl hkey hstored
  rw [Machine.exec, hselect, Option.bind_some] at hexec
  generalize hu : Pair.put { table := t } a (.prepared t 0) .missed = u at hexec
  have htable : u.table = t := by rw [← hu]; rfl
  have ha : u.client a = ⟨{}, .missed⟩ := by rw [← hu, put_client]; rfl
  have hothers : ∀ b, b ≠ a → u.client b = ⟨{}, .start⟩ := by
    intro b hb
    rw [← hu, put_client_of_ne hb]
  -- who takes the second step decides: the same client inserts, the other one looks before that
  rw [← htable] at hstored
  obtain ⟨b, rest, rfl, -⟩ := exists_next a hended hexec (by rw [ha]; exact id)
  by_cases hba : b = a
  · subst hba
    rw [agree_iff_of_serial hkey hstored ha hothers hended hexec]
    constructor
    · intro h
      exact ⟨b, rest, rfl, h⟩
    · rintro ⟨who, rest', heq, h⟩
      obtain ⟨rfl, -⟩ := List.cons.inj heq
      exact h
  · refine iff_of_false ?_ ?_
    · have hselect' : step limit key default u b = some (u.put b (.prepared u.table 0) .missed) :=
        step_unfound (hothers b hba) hkey hstored
      rw [Machine.exec, hselect', Option.bind_some] at hexec
      refine not_agree_of_overlap hkey ?_ ?_ hended hexec
      · exact hstored
      · intro who
        by_cases hwho : who = b
        · rw [hwho, put_client]
          rfl
        · rw [put_client_of_ne hwho, Who.eq_of_ne hwho (Ne.symm hba), ha]
    · rintro ⟨who, rest', heq, -⟩
      obtain ⟨rfl, hrest⟩ := List.cons.inj heq
      exact hba (List.cons.inj hrest).1

end Interleavings

/-- **Two calls agree** exactly if the key is there with a text without a zero octet, or if it is missing, the one
    call inserts it before the other one looks for it, and its default is stored as it is. -/
theorem agree_iff (limit : Nat) (key : Str) (default : Who → Str) (t : Table) (sched : List Who) (s' : Pair)
    (hexec : Machine.exec (step limit key default) { table := t } sched = some s')
    (hended : ∀ who, (s'.client who).phase.Ended) :
    Agree limit key s' ↔
      (∃ value, stored limit key t = some value ∧ 0 ∉ value) ∨
      (DML.textOf limit key ≠ none ∧ stored limit key t = none ∧ ∃ who rest, sched = who :: who :: rest ∧
        DML.textOf limit (default who) = some (default who) ∧ 0 ∉ default who) := by
  match hkey : DML.textOf limit key with
  | none =>
      -- SQLite does not take the key, so the first call throws
      obtain ⟨who, rest, rfl, -⟩ := exists_next .first hended hexec id
      obtain ⟨session, hstep⟩ : ∃ session, step limit key default { table := t } who =
          some (Pair.put { table := t } who session (.threw ⟨.toobig⟩)) := step_toobig (n := 0) rfl hkey
      refine iff_of_false (not_agree_of_step hstep hexec) ?_
      rintro (⟨value, hvalue, -⟩ | ⟨hne, -⟩)
      · rw [stored, hkey] at hvalue
        cases hvalue
      · exact hne rfl
  | some x =>
      match hstored : stored limit key t with
      | some c =>
          rw [agree_iff_of_stored hkey hstored hended hexec]
          simp
      | none =>
          rw [agree_iff_of_missing hkey hstored hended hexec]
          simp

theorem agree_iff_serial :
    ∃ s', Machine.exec (step 1000000000 (lit "k") fun _ => lit "a") { table := .empty } [.first, .first, .second] =
        some s' ∧ Agree 1000000000 (lit "k") s' := by
  refine ⟨_, rfl, (agree_iff 1000000000 (lit "k") (fun _ => lit "a") .empty [.first, .first, .second] _ rfl ?_).mpr
    (.inr ⟨?_, ?_, .first, [.second], rfl, ?_, ?_⟩)⟩
  · intro who
    cases who <;> trivial
  · rw [DML.textOf_of_short (by decide) (by decide)]
    nofun
  · rw [stored_eq_none_iff (DML.textOf_of_short (by decide) (by decide))]
    rfl
  · exact DML.textOf_of_short (by decide) (by decide)
  · decide

/-- Both clients look for the key before one of them inserts it. -/
theorem ensureWithDefault_overlap :
    (Machine.exec (step 1000000000 (lit "k") fun who => if who = .first then lit "a" else lit "b")
        { table := .empty } [.first, .second, .first, .second]).map
        (fun s => ((s.client .first).phase, (s.client .second).phase, stored 1000000000 (lit "k") s.table)) =
      some (.returned (lit "a"), .threw ⟨.constraint⟩, some (lit "a")) := by
  decide +kernel

end Pair
end Dodo.Persist
