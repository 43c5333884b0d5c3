import Dodo.Common.DateTime

/-!
# `Common.LogArchive` — what the log files are for

The file destination of the logger is an archive of the log that is written and of the logs that were moved away, each
known by the time it was moved. The logger keeps the archive in a directory, and what it removes it finds by file names.
`Logger.Shows` says that the directory holds an archive. Every entry that is logged keeps to it (`Shows.logFile`): the
logger does with the files what the archive does with the times, and leaves the other files alone.

If the configured directory ends with a slash no log is ever removed: the paths of the directory are then spelled with one
slash and the expression has two.
-/

namespace Dodo.Common

open Lib
open scoped Logger

/-! ## Looking up a name -/

namespace Directory

variable {d : Directory} {name old new : FileName} {e : Entry}

theorem find_eq_some_iff : d.find name = some e ↔ e ∈ d.entries ∧ e.name = name := by
  refine ⟨of_find_eq_some, ?_⟩
  rintro ⟨he, rfl⟩
  cases hfind : d.find e.name with
  | none =>
      have hnone := List.find?_eq_none.mp hfind e he
      simp at hnone
  | some f =>
      obtain ⟨hf, hname⟩ := of_find_eq_some hfind
      exact congrArg some (List.inj_on_of_nodup_map d.nodup hf he hname)

theorem find_filter (d : Directory) (p : Entry → Bool) (name : FileName) :
    (d.filter p).find name = (d.find name).filter p := by
  ext e
  rw [find_eq_some_iff, Option.filter_eq_some_iff, find_eq_some_iff, mem_filter]
  tauto

theorem find_put (d : Directory) (e : Entry) (name : FileName) :
    (d.put e).find name = if name = e.name then some e else d.find name := by
  ext f
  rw [find_eq_some_iff]
  show f ∈ e :: (d.filter (·.name ≠ e.name)).entries ∧ f.name = name ↔ _
  rw [List.mem_cons, mem_filter]
  by_cases hname : name = e.name
  · subst hname
    rw [if_pos rfl, Option.some.injEq]
    constructor
    · rintro ⟨rfl | ⟨_, hne⟩, heq⟩
      · rfl
      · exact absurd heq (by simpa using hne)
    · rintro rfl
      exact ⟨.inl rfl, rfl⟩
  · rw [if_neg hname, find_eq_some_iff]
    constructor
    · rintro ⟨rfl | ⟨hf, _⟩, heq⟩
      · exact absurd heq.symm hname
      · exact ⟨hf, heq⟩
    · rintro ⟨hf, rfl⟩
      exact ⟨.inr ⟨hf, by simpa using hname⟩, rfl⟩

theorem find_openAppend (d : Directory) (new name : FileName) :
    (d.openAppend new).find name =
      if name = new then some ((d.find new).getD ⟨new, .file, 0⟩) else d.find name := by
  unfold openAppend
  cases hfind : d.find new with
  | none => exact find_put d _ name
  | some e =>
      by_cases hname : name = new
      · rw [if_pos hname, hname]
        exact hfind
      · rw [if_neg hname]

theorem find_grow (d : Directory) (grown name : FileName) (n : Nat) :
    (d.grow grown n).find name =
      (d.find name).map (fun e => if e.name = grown then { e with size := e.size + n } else e) := by
  have hname (e : Entry) : (if e.name = grown then { e with size := e.size + n } else e).name = e.name := by
    split <;> rfl
  ext f
  rw [find_eq_some_iff, Option.map_eq_some_iff]
  show f ∈ d.entries.map _ ∧ f.name = name ↔ _
  rw [List.mem_map]
  constructor
  · rintro ⟨⟨e, he, rfl⟩, heq⟩
    exact ⟨e, find_eq_some_iff.mpr ⟨he, (hname e).symm.trans heq⟩, rfl⟩
  · rintro ⟨e, he, rfl⟩
    obtain ⟨he, heq⟩ := find_eq_some_iff.mp he
    exact ⟨⟨e, he, rfl⟩, (hname e).trans heq⟩

/-- A file is moved to a name that is not that of a directory. -/
theorem find_rename {size : Nat} (hold : d.find old = some ⟨old, .file, size⟩) (hnew : d.Free new) (name : FileName) :
    (d.rename old new).find name =
      if name = new then some ⟨new, .file, size⟩ else if name = old then none else d.find name := by
  have hreplace : replaceable .file ((d.find new).map (·.kind)) = true := by
    cases hfind : d.find new with
    | none => rfl
    | some e =>
        obtain ⟨he, hname⟩ := of_find_eq_some hfind
        have hfile : e.kind = .file := by simpa [Entry.isFile] using hnew e he hname
        rw [Option.map_some, hfile]
        rfl
  rw [rename, hold]
  show (if replaceable .file ((d.find new).map (·.kind)) then _ else d).find name = _
  rw [if_pos hreplace, find_put, find_filter]
  by_cases hname : name = new
  · rw [if_pos hname, if_pos hname]
  · rw [if_neg hname, if_neg hname]
    by_cases hname : name = old
    · rw [if_pos hname, hname, hold]
      simp [Option.filter]
    · rw [if_neg hname]
      cases hfind : d.find name with
      | none => rfl
      | some e =>
          have hkept : e.name ≠ old := (of_find_eq_some hfind).2 ▸ hname
          simp [Option.filter, hkept]

end Directory

/-! ## The archive -/

/-- How large a log may get before it is moved away, and how many of these are kept; none of them is removed if there is
    no such number. -/
structure Policy where
  bytes : Nat
  trail : Option Nat

def Policy.keep (p : Policy) (times : Finset TimeVal) : Finset TimeVal :=
  match p.trail with
  | none => times
  | some n => greatest times n

/-- The size of the log that is written, and the logs that were moved away, with their sizes. `others` is what else is
    in the directory. -/
structure Archive where
  active : Nat
  times : Finset TimeVal
  size : TimeVal → Nat
  others : FileName → Option Entry

namespace Archive

def shelve (a : Archive) (t : TimeVal) : Archive :=
  { a with active := 0, times := insert t a.times, size := Function.update a.size t a.active }

def prune (p : Policy) (a : Archive) : Archive := { a with times := p.keep a.times }

def append (a : Archive) (length : Nat) : Archive := { a with active := a.active + (length + 1) }

/-- An entry of `length` characters is logged at the time `t`. -/
def log (p : Policy) (a : Archive) (t : TimeVal) (length : Nat) : Archive :=
  ((if p.bytes < a.active then (a.shelve t).prune p else a)).append length

def logAll (p : Policy) (a : Archive) (entries : List (TimeVal × Nat)) : Archive :=
  entries.foldl (fun a e => a.log p e.1 e.2) a

/-- The times at which the log is moved away. -/
def rotations (p : Policy) (a : Archive) : List (TimeVal × Nat) → Finset TimeVal
  | [] => ∅
  | e :: entries => (if p.bytes < a.active then {e.1} else ∅) ∪ (a.log p e.1 e.2).rotations p entries

end Archive

/-- What was removed before does not matter in the end. -/
theorem Policy.keep_union (p : Policy) (s t : Finset TimeVal) : p.keep (p.keep s ∪ t) = p.keep (s ∪ t) := by
  unfold keep
  cases p.trail with
  | none => rfl
  | some n => exact greatest_union_greatest s t n

namespace Archive

/-- After a rotation the archive holds the logs that are kept of all there ever were. -/
theorem times_logAll (p : Policy) (a : Archive) (entries : List (TimeVal × Nat)) :
    (a.logAll p entries).times =
      if a.rotations p entries = ∅ then a.times else p.keep (a.times ∪ a.rotations p entries) := by
  induction entries generalizing a with
  | nil => rfl
  | cons e entries ih =>
      show ((a.log p e.1 e.2).logAll p entries).times = _
      rw [ih, rotations]
      by_cases hrotates : p.bytes < a.active
      · have htimes : (a.log p e.1 e.2).times = p.keep (a.times ∪ {e.1}) := by
          rw [log, if_pos hrotates, Finset.union_comm, ← Finset.insert_eq]
          rfl
        have hne : ({e.1} ∪ (a.log p e.1 e.2).rotations p entries : Finset TimeVal) ≠ ∅ := by
          simp
        rw [if_pos hrotates, if_neg hne, htimes, p.keep_union, Finset.union_assoc]
        split
        next hempty => rw [hempty, Finset.union_empty]
        next => rfl
      · have htimes : (a.log p e.1 e.2).times = a.times := by
          rw [log, if_neg hrotates]
          rfl
        rw [if_neg hrotates, Finset.empty_union, htimes]

/-- At most `n` logs were moved away, and none is larger than `bytes`. -/
structure Within (n bytes : Nat) (a : Archive) : Prop where
  active : a.active ≤ bytes
  few : a.times.card ≤ n
  small : ∀ t ∈ a.times, a.size t ≤ bytes

theorem Within.log {p : Policy} {n bytes : Nat} {a : Archive} (h : a.Within n bytes) (hp : p.trail = some n) (t : TimeVal)
    {length : Nat} (hlength : p.bytes + (length + 1) ≤ bytes) : (a.log p t length).Within n bytes := by
  by_cases hrotates : p.bytes < a.active
  · have htimes : (a.log p t length).times = greatest (insert t a.times) n := by
      rw [Archive.log, if_pos hrotates]
      show p.keep (insert t a.times) = _
      rw [Policy.keep, hp]
    have hsize (u : TimeVal) : (a.log p t length).size u = Function.update a.size t a.active u := by
      rw [Archive.log, if_pos hrotates]
      rfl
    refine ⟨?_, ?_, ?_⟩
    · rw [Archive.log, if_pos hrotates]
      show 0 + (length + 1) ≤ bytes
      omega
    · rw [htimes]
      exact card_sdiff_surplus.trans_le (Nat.min_le_left ..)
    · intro u hu
      rw [htimes] at hu
      rw [hsize]
      by_cases heq : u = t
      · rw [heq, Function.update_self]
        exact h.active
      · rw [Function.update_of_ne heq]
        exact h.small u (Finset.mem_of_mem_insert_of_ne (greatest_subset hu) heq)
  · rw [Archive.log, if_neg hrotates]
    refine ⟨?_, h.few, h.small⟩
    show a.active + (length + 1) ≤ bytes
    omega

theorem Within.logAll {p : Policy} {n bytes : Nat} {a : Archive} (h : a.Within n bytes) (hp : p.trail = some n)
    {entries : List (TimeVal × Nat)} (hlengths : ∀ e ∈ entries, p.bytes + (e.2 + 1) ≤ bytes) :
    (a.logAll p entries).Within n bytes := by
  induction entries generalizing a with
  | nil => exact h
  | cons e entries ih =>
      rw [List.forall_mem_cons] at hlengths
      exact ih (h.log hp e.1 hlengths.1) hlengths.2

end Archive

namespace Logger

variable {lib : RegexLibrary} {s : Logger} {a : Archive} {t : TimeVal}

theorem mem_setw {w n : Nat} {c : Octet} (h : c ∈ setw w n) : isdigit c = true := by
  rcases List.mem_append.mp h with hzero | hdigit
  · rw [List.eq_of_mem_replicate hzero]
    rfl
  · exact mem_decimal hdigit

/-- Digits and a few other characters, which all may stand in the name of a file. -/
theorem mem_formatDateTimeUTC {c : Octet} (h : c ∈ formatDateTimeUTC t) : isdigit c = true ∨ c ∈ lit "-T:.Z" := by
  have hseparator : ∀ separator ∈ [lit "-", lit "T", lit ":", lit ".", lit "Z"], ∀ c ∈ separator, c ∈ lit "-T:.Z" := by
    decide +kernel
  simp only [List.forall_mem_cons] at hseparator
  obtain ⟨hhyphen, hT, hcolon, hdot, hZ, _⟩ := hseparator
  simp only [formatDateTimeUTC, List.mem_append] at h
  rcases h with ((((((((((((h | h) | h) | h) | h) | h) | h) | h) | h) | h) | h) | h) | h) | h
  all_goals
    first
    | exact .inl (mem_setw h)
    | exact .inr (hhyphen c h)
    | exact .inr (hT c h)
    | exact .inr (hcolon c h)
    | exact .inr (hdot c h)
    | exact .inr (hZ c h)

/-- The time, as it is appended to the name of the log. -/
def stamp (t : TimeVal) : FileName :=
  ⟨formatDateTimeUTC t, fun h => absurd (mem_formatDateTimeUTC h) (by decide),
    fun h => absurd (mem_formatDateTimeUTC h) (by decide)⟩

/-- The name of the log that is moved away at the time `t`. -/
def logName (appName : FileName) (t : TimeVal) : FileName :=
  extend (activeName appName) (lit "." ++ (stamp t).val) (by
    have hdot : 47 ∉ lit "." ∧ 0 ∉ lit "." := by decide
    simp [hdot, (stamp t).property.1, (stamp t).property.2])

/-- The entries that are logged one after the other. -/
def logAll (lib : RegexLibrary) (s : Logger) (entries : List (TimeVal × Nat)) : Logger :=
  entries.foldl (fun s e => s.logFile lib (stamp e.1) e.2) s

/-- The directory is spelled with a slash at its end. -/
def slashed (s : Logger) : Bool := s.directory.getLast? = some 47

/-- What the configuration comes to. -/
def policy (s : Logger) : Policy where
  bytes := s.maxSizeMib * 1024 * 1024
  trail := if s.slashed then none else some s.maxFileTrail

/-- The name is one that the logger has to do with: that of the log, of a log that was moved away, or one that looks like
    it. -/
def Concerns (s : Logger) (name : FileName) : Prop :=
  name = activeName s.appName ∨ s.Own name ∨ alike s.activeLog (entryPath s.directory name) = true

instance (s : Logger) (name : FileName) : Decidable (s.Concerns name) :=
  inferInstanceAs (Decidable (_ ∨ _ ∨ _))

/-- The directory holds the archive. -/
structure Shows (s : Logger) (a : Archive) : Prop where
  filesize : s.filesize = a.active
  active : s.content.find (activeName s.appName) = some ⟨activeName s.appName, .file, a.active⟩
  rotated : ∀ t ∈ a.times, s.content.find (logName s.appName t) = some ⟨logName s.appName t, .file, a.size t⟩
  only : ∀ e ∈ s.content.entries, s.Concerns e.name → e.name ≠ activeName s.appName →
    ∃ t ∈ a.times, e.name = logName s.appName t
  printable : ∀ t ∈ a.times, t ∈ printable
  others : ∀ name, ¬ s.Concerns name → s.content.find name = a.others name

/-! ## The names of the logs -/

theorem activeName_ne_logName (appName : FileName) (t : TimeVal) : activeName appName ≠ logName appName t := by
  intro heq
  have hlength := congrArg (fun name : FileName => name.val.length) heq
  simp [logName, extend, lit] at hlength

theorem own_logName (s : Logger) (t : TimeVal) : s.Own (logName s.appName t) := by
  refine ⟨(stamp t).val, ?_⟩
  simp only [activeLog, path, logName, extend, List.append_assoc]

theorem concerns_logName (s : Logger) (t : TimeVal) : s.Concerns (logName s.appName t) := .inr (.inl (own_logName s t))

theorem concerns_activeName (s : Logger) : s.Concerns (activeName s.appName) := .inl rfl

/-- Later logs have greater paths. -/
theorem entryPath_logName_strictMonoOn (directory : Str) (appName : FileName) :
    StrictMonoOn (fun t => entryPath directory (logName appName t)) printable := by
  obtain ⟨base, hbase⟩ := entryPath_eq directory
  intro a ha b hb h
  show entryPath directory (logName appName a) < entryPath directory (logName appName b)
  rw [hbase, hbase, append_lt_append_iff]
  show (activeName appName).val ++ (lit "." ++ formatDateTimeUTC a) <
    (activeName appName).val ++ (lit "." ++ formatDateTimeUTC b)
  rw [append_lt_append_iff, append_lt_append_iff]
  exact formatDateTimeUTC_strictMonoOn ha hb h

theorem logName_injOn (appName : FileName) : Set.InjOn (logName appName) printable := by
  intro a ha b hb h
  exact (entryPath_logName_strictMonoOn [] appName).injOn ha hb (congrArg (entryPath []) h)

/-! ## The names that match -/

theorem alike_append (t p : Str) : alike t (t ++ 46 :: p) = p.all lineless := by
  induction t with
  | nil => rfl
  | cons c t ih =>
      show ((if c = 46 then lineless c else decide (c = c)) && alike t (t ++ 46 :: p)) = p.all lineless
      rw [ih]
      by_cases hdot : c = 46
      · rw [if_pos hdot, hdot]
        rfl
      · simp [hdot]

theorem alike_of_append {u v x y : Str} (hlength : u.length = v.length) (h : alike (u ++ x) (v ++ y) = true) :
    alike x y = true := by
  induction u generalizing v with
  | nil =>
      obtain rfl := List.eq_nil_of_length_eq_zero hlength.symm
      exact h
  | cons c u ih =>
      cases v with
      | nil => cases hlength
      | cons d v =>
          rw [List.cons_append, List.cons_append, alike, Bool.and_eq_true] at h
          exact ih (Nat.succ.inj hlength) h.2

/-- The path of the log has a slash more than the paths of the directory. -/
theorem not_alike_of_slashed (h : s.slashed = true) (name : FileName) :
    alike s.activeLog (entryPath s.directory name) = false := by
  have hslash : s.directory = [] ∨ s.directory.getLast? = some 47 := .inr (by simpa [slashed] using h)
  rw [entryPath, if_pos hslash, Bool.eq_false_iff]
  intro halike
  rw [activeLog, path, List.append_assoc] at halike
  have hrest := alike_of_append rfl halike
  cases hname : name.val with
  | nil =>
      rw [hname] at hrest
      cases hrest
  | cons d rest =>
      rw [hname, show lit "/" ++ (activeName s.appName).val = 47 :: (activeName s.appName).val from rfl, alike,
        Bool.and_eq_true] at hrest
      have heq : 47 = d := by simpa using hrest.1
      exact name.property.1 (by rw [hname, heq]; exact List.mem_cons_self)

theorem alike_logName (hdirectory : s.directory ≠ []) (h : s.slashed = false) (t : TimeVal) :
    alike s.activeLog (entryPath s.directory (logName s.appName t)) = true := by
  have hslash : ¬ (s.directory = [] ∨ s.directory.getLast? = some 47) := by
    simpa [slashed, hdirectory] using h
  have hpath : entryPath s.directory (logName s.appName t) = s.activeLog ++ 46 :: (stamp t).val := by
    rw [entryPath, if_neg hslash]
    simp only [activeLog, path, logName, extend, List.append_assoc]
    rfl
  rw [hpath, alike_append, List.all_eq_true]
  intro c hc
  have hlineless (c : Octet) (h : isdigit c = true ∨ c ∈ lit "-T:.Z") : lineless c = true := by
    rw [lineless, Bool.and_eq_true, decide_eq_true_iff, decide_eq_true_iff]
    refine ⟨?_, ?_⟩ <;>
      · rintro rfl
        revert h
        decide
  exact hlineless c (mem_formatDateTimeUTC hc)

/-! ## One entry -/

namespace Shows

/-- A name that something is moved to is that of a file, or of nothing. -/
theorem free_logName (h : s.Shows a) (t : TimeVal) : s.content.Free (logName s.appName t) := by
  intro e he hname
  obtain ⟨u, hu, heq⟩ := h.only e he (hname ▸ concerns_logName s t) (hname ▸ (activeName_ne_logName _ _).symm)
  have hfind := Directory.find_eq_some_iff.mpr ⟨he, heq⟩
  rw [h.rotated u hu, Option.some.injEq] at hfind
  rw [← hfind]
  rfl

/-- The log is moved away and a new one is opened. -/
theorem find_reopened (h : s.Shows a) (t : TimeVal) (name : FileName) :
    (s.reopened (stamp t)).content.find name =
      if name = activeName s.appName then some ⟨activeName s.appName, .file, 0⟩
      else if name = logName s.appName t then some ⟨logName s.appName t, .file, a.active⟩
      else s.content.find name := by
  have hmoved := Directory.find_rename h.active (h.free_logName t)
  show ((s.content.rename (activeName s.appName) (logName s.appName t)).openAppend (activeName s.appName)).find name = _
  rw [Directory.find_openAppend, hmoved, hmoved, if_neg (activeName_ne_logName _ _), if_pos rfl]
  by_cases hname : name = activeName s.appName
  · rw [if_pos hname, if_pos hname]
    rfl
  · rw [if_neg hname, if_neg hname, if_neg hname]

theorem reopened (h : s.Shows a) (ht : t ∈ Common.printable) : (s.reopened (stamp t)).Shows (a.shelve t) where
  filesize := by
    show (s.reopened (stamp t)).content.getFileSize (activeName s.appName) = 0
    rw [Directory.getFileSize, h.find_reopened, if_pos rfl]
  active := by
    show (s.reopened (stamp t)).content.find (activeName s.appName) = some ⟨activeName s.appName, .file, 0⟩
    rw [h.find_reopened, if_pos rfl]
  rotated := by
    intro u hu
    show (s.reopened (stamp t)).content.find (logName s.appName u) =
      some ⟨logName s.appName u, .file, Function.update a.size t a.active u⟩
    rw [h.find_reopened, if_neg (activeName_ne_logName _ _).symm]
    rcases Finset.mem_insert.mp hu with rfl | hu
    · rw [if_pos rfl, Function.update_self]
    · by_cases heq : u = t
      · rw [heq, if_pos rfl, Function.update_self]
      · have hne : logName s.appName u ≠ logName s.appName t := fun hname =>
          heq (logName_injOn _ (h.printable u hu) ht hname)
        rw [if_neg hne, Function.update_of_ne heq]
        exact h.rotated u hu
  only := by
    intro e he hconcerns hactive
    have hne : e.name ≠ activeName s.appName := hactive
    show ∃ u ∈ insert t a.times, e.name = logName s.appName u
    have hfind := Directory.find_eq_some_iff.mpr ⟨he, rfl⟩
    rw [h.find_reopened, if_neg hne] at hfind
    by_cases hname : e.name = logName s.appName t
    · exact ⟨t, Finset.mem_insert_self t _, hname⟩
    · rw [if_neg hname] at hfind
      obtain ⟨u, hu, heq⟩ := h.only e (Directory.of_find_eq_some hfind).1 hconcerns hne
      exact ⟨u, Finset.mem_insert_of_mem hu, heq⟩
  printable := by
    intro u hu
    rcases Finset.mem_insert.mp hu with rfl | hu
    · exact ht
    · exact h.printable u hu
  others := by
    intro name hforeign
    have hactive : name ≠ activeName s.appName := by
      rintro rfl
      exact hforeign (concerns_activeName s)
    have hmoved : name ≠ logName s.appName t := by
      rintro rfl
      exact hforeign (concerns_logName s t)
    rw [h.find_reopened, if_neg hactive, if_neg hmoved]
    exact h.others name hforeign

/-- The paths that match are those of the logs that were moved away, or none at all. -/
theorem matched_eq (hlib : lib.Lawful) (hplain : ∀ c ∈ s.activeLog, c ∉ special) (hdirectory : s.directory ≠ [])
    (h : s.Shows a) : s.matched lib =
      if s.slashed then ∅ else a.times.image (fun t => entryPath s.directory (logName s.appName t)) := by
  have hmatched (p : Str) : p ∈ s.matched lib ↔
      ∃ e ∈ s.content.entries, entryPath s.directory e.name = p ∧ alike s.activeLog p = true := by
    rw [matched, logRegex, hlib.compile_log _ hplain]
    simp only [trail, List.mem_toFinset, List.mem_filter, List.mem_map]
    constructor
    · rintro ⟨⟨e, he, rfl⟩, halike⟩
      exact ⟨e, he, rfl, halike⟩
    · rintro ⟨e, he, rfl, halike⟩
      exact ⟨⟨e, he, rfl⟩, halike⟩
  cases hslashed : s.slashed with
  | true =>
      rw [if_pos rfl, Finset.eq_empty_iff_forall_notMem]
      intro p hp
      obtain ⟨e, _, rfl, halike⟩ := (hmatched p).mp hp
      rw [not_alike_of_slashed hslashed] at halike
      cases halike
  | false =>
      rw [if_neg (by decide)]
      ext p
      rw [hmatched, Finset.mem_image]
      constructor
      · rintro ⟨e, he, rfl, halike⟩
        by_cases hactive : e.name = activeName s.appName
        · refine absurd ((mem_matched hlib hplain he).mpr halike) (not_mem_matched hlib hplain he hactive)
        · obtain ⟨t, ht, heq⟩ := h.only e he (.inr (.inr halike)) hactive
          exact ⟨t, ht, by rw [heq]⟩
      · rintro ⟨t, ht, rfl⟩
        obtain ⟨he, hname⟩ := Directory.find_eq_some_iff.mp (h.rotated t ht)
        exact ⟨_, he, by rw [hname], alike_logName hdirectory hslashed t⟩

/-- The logs that are removed, by their times. -/
def dropped (s : Logger) (a : Archive) : Finset TimeVal := if s.slashed then ∅ else surplus a.times s.maxFileTrail

theorem dropped_subset (s : Logger) (a : Archive) : dropped s a ⊆ a.times := by
  unfold dropped
  split
  · exact Finset.empty_subset _
  · exact Finset.filter_subset _ _

theorem doomed_eq (hlib : lib.Lawful) (hplain : ∀ c ∈ s.activeLog, c ∉ special) (hdirectory : s.directory ≠ [])
    (h : s.Shows a) : s.doomed lib =
      (dropped s a).image (fun t => entryPath s.directory (logName s.appName t)) := by
  rw [doomed, h.matched_eq hlib hplain hdirectory, dropped]
  cases s.slashed with
  | true =>
      show surplus ∅ _ = Finset.image _ ∅
      rw [surplus_eq_empty (Nat.zero_le _), Finset.image_empty]
  | false =>
      refine surplus_image fun t ht u hu hlt => ?_
      exact entryPath_logName_strictMonoOn s.directory s.appName (h.printable t ht) (h.printable u hu) hlt

theorem keep_eq (s : Logger) (a : Archive) : s.policy.keep a.times = a.times \ dropped s a := by
  unfold Policy.keep policy dropped
  cases s.slashed with
  | true => exact Finset.sdiff_empty.symm
  | false => rfl

/-- The logs that are too many are removed. -/
theorem pruned (hlib : lib.Lawful) (hplain : ∀ c ∈ s.activeLog, c ∉ special) (hdirectory : s.directory ≠ [])
    (h : s.Shows a) : (s.without (s.unlinked (s.doomed lib))).Shows (a.prune s.policy) := by
  have hdoomed := h.doomed_eq hlib hplain hdirectory
  have hfind (name : FileName) : (s.without (s.unlinked (s.doomed lib))).content.find name =
      (s.content.find name).filter (fun e => !s.unlinked (s.doomed lib) e) := Directory.find_filter _ _ name
  -- only the names of the logs that are dropped are affected
  have hkept {e : Entry} (hne : ∀ t ∈ dropped s a, e.name ≠ logName s.appName t) :
      s.unlinked (s.doomed lib) e = false := by
    rw [unlinked, Bool.and_eq_false_iff, decide_eq_false_iff_not]
    refine .inr fun hmem => ?_
    rw [hdoomed] at hmem
    obtain ⟨t, ht, hpath⟩ := Finset.mem_image.mp hmem
    exact hne t ht (entryPath_inj hpath).symm
  have hkeeps : (a.prune s.policy).times = a.times \ dropped s a := keep_eq s a
  refine ⟨h.filesize, ?_, ?_, ?_, ?_, ?_⟩
  · show (s.without (s.unlinked (s.doomed lib))).content.find (activeName s.appName) = some ⟨_, .file, a.active⟩
    rw [hfind, h.active, Option.filter_some, hkept (fun t _ => activeName_ne_logName _ t)]
    rfl
  · intro t ht
    rw [hkeeps, Finset.mem_sdiff] at ht
    have hne : ∀ u ∈ dropped s a, logName s.appName t ≠ logName s.appName u := by
      intro u hu hname
      have hprintable := h.printable u (dropped_subset s a hu)
      exact ht.2 (logName_injOn _ (h.printable t ht.1) hprintable hname ▸ hu)
    show (s.without (s.unlinked (s.doomed lib))).content.find (logName s.appName t) = some ⟨_, .file, a.size t⟩
    rw [hfind, h.rotated t ht.1, Option.filter_some, hkept hne]
    rfl
  · intro e he hconcerns hactive
    obtain ⟨hmem, hlinked⟩ := Directory.mem_filter.mp he
    obtain ⟨t, ht, hname⟩ := h.only e hmem hconcerns hactive
    refine ⟨t, ?_, hname⟩
    rw [hkeeps, Finset.mem_sdiff]
    refine ⟨ht, fun hdrop => ?_⟩
    have hfile : e.isFile = true := h.free_logName t e hmem hname
    have hin : entryPath s.directory e.name ∈ s.doomed lib := by
      rw [hdoomed, hname]
      exact Finset.mem_image_of_mem _ hdrop
    simp [unlinked, hfile, hin] at hlinked
  · intro t ht
    rw [hkeeps, Finset.mem_sdiff] at ht
    exact h.printable t ht.1
  · intro name hforeign
    rw [hfind]
    cases hentry : s.content.find name with
    | none => exact hentry.symm.trans (h.others name hforeign)
    | some e =>
        have hne : ∀ t ∈ dropped s a, e.name ≠ logName s.appName t := by
          rintro t _ hname
          have heq := (Directory.of_find_eq_some hentry).2.symm.trans hname
          exact hforeign (heq ▸ concerns_logName s t)
        rw [Option.filter_some, hkept hne]
        exact hentry.symm.trans (h.others name hforeign)

/-- The entry is written to the log. -/
theorem grown (h : s.Shows a) (length : Nat) (hsize : a.active + (length + 1) < 2 ^ 64) :
    Shows { s with
      filesize := (s.filesize + (length + 1)) % 2 ^ 64
      content := s.content.grow (activeName s.appName) (length + 1) } (a.append length) where
  filesize := by
    show (s.filesize + (length + 1)) % 2 ^ 64 = a.active + (length + 1)
    rw [h.filesize, Nat.mod_eq_of_lt hsize]
  active := by
    show (s.content.grow _ _).find (activeName s.appName) = _
    rw [Directory.find_grow, h.active, Option.map_some, if_pos rfl]
    rfl
  rotated := by
    intro t ht
    show (s.content.grow _ _).find (logName s.appName t) = _
    rw [Directory.find_grow, h.rotated t ht, Option.map_some, if_neg (activeName_ne_logName _ t).symm]
    rfl
  only := by
    intro e he hconcerns hactive
    obtain ⟨f, hf, heq⟩ := List.mem_map.mp he
    have hname : f.name = e.name := by
      rw [← heq]
      split <;> rfl
    obtain ⟨t, ht, hlog⟩ := h.only f hf (hname ▸ hconcerns) (hname ▸ hactive)
    exact ⟨t, ht, hname ▸ hlog⟩
  printable := h.printable
  others := by
    intro name hforeign
    show (s.content.grow _ _).find name = _
    rw [Directory.find_grow]
    cases hentry : s.content.find name with
    | none => exact hentry.symm.trans (h.others name hforeign)
    | some e =>
        have hne : e.name ≠ activeName s.appName := by
          intro heq
          have hname := (Directory.of_find_eq_some hentry).2.symm.trans heq
          exact hforeign (hname ▸ concerns_activeName s)
        rw [Option.map_some, if_neg hne]
        exact hentry.symm.trans (h.others name hforeign)

end Shows

/-- The expression is accepted, so that nothing is thrown. -/
theorem checkRotate_ok (hlib : lib.Lawful) (hplain : ∀ c ∈ s.activeLog, c ∉ special) (time : FileName) :
    (s.checkRotate lib time).1 = .ok () := by
  rw [checkRotate]
  split
  · have hcompile : lib.compile (s.reopened time).logRegex = some (alike s.activeLog) := hlib.compile_log _ hplain
    dsimp only
    rw [hcompile]
  · rfl

theorem logFile_eq (hlib : lib.Lawful) (hplain : ∀ c ∈ s.activeLog, c ∉ special) (time : FileName) (length : Nat) :
    s.logFile lib time length = { (s.checkRotate lib time).2 with
      filesize := ((s.checkRotate lib time).2.filesize + (length + 1)) % 2 ^ 64
      content := (s.checkRotate lib time).2.content.grow (activeName (s.checkRotate lib time).2.appName) (length + 1) } := by
  have hok := checkRotate_ok hlib hplain time
  unfold logFile
  generalize s.checkRotate lib time = result at hok ⊢
  obtain ⟨outcome, s'⟩ := result
  obtain rfl : outcome = .ok () := hok
  rfl

/-- The logger, apart from what changes when an entry is logged. -/
def SameConfig (s s' : Logger) : Prop :=
  s'.directory = s.directory ∧ s'.appName = s.appName ∧ s'.maxSizeMib = s.maxSizeMib ∧ s'.maxFileTrail = s.maxFileTrail

theorem checkRotate_sameConfig (lib : RegexLibrary) (time : FileName) (s : Logger) :
    s.SameConfig (s.checkRotate lib time).2 := by
  by_cases hrotates : s.rotates = true
  · rw [checkRotate_eq hrotates]
    exact ⟨rfl, rfl, rfl, rfl⟩
  · rw [checkRotate, if_neg hrotates]
    exact ⟨rfl, rfl, rfl, rfl⟩

theorem SameConfig.policy_eq {s' : Logger} (h : s.SameConfig s') : s'.policy = s.policy := by
  obtain ⟨hdirectory, _, hsize, htrail⟩ := h
  rw [policy, policy, slashed, slashed, hdirectory, hsize, htrail]

theorem SameConfig.activeLog_eq {s' : Logger} (h : s.SameConfig s') : s'.activeLog = s.activeLog := by
  obtain ⟨hdirectory, hname, _, _⟩ := h
  rw [activeLog, activeLog, path, path, hdirectory, hname]

theorem SameConfig.logFile (lib : RegexLibrary) (time : FileName) (length : Nat) (s : Logger) :
    s.SameConfig (s.logFile lib time length) := by
  have hconfig := checkRotate_sameConfig lib time s
  unfold Logger.logFile
  generalize s.checkRotate lib time = result at hconfig ⊢
  obtain ⟨outcome, s'⟩ := result
  cases outcome with
  | error error => exact hconfig
  | ok _ => exact hconfig

/-- What is known of the configuration: the directory has a name, and the path of the log no special characters. -/
structure Regular (s : Logger) : Prop where
  directory : s.directory ≠ []
  plain : ∀ c ∈ s.activeLog, c ∉ special

theorem SameConfig.regular {s' : Logger} (h : s.SameConfig s') (hs : s.Regular) : s'.Regular :=
  ⟨h.1 ▸ hs.directory, h.activeLog_eq ▸ hs.plain⟩

theorem Shows.rotates_iff (h : s.Shows a) (hbytes : s.policy.bytes < 2 ^ 64) :
    s.rotates = true ↔ s.policy.bytes < a.active := by
  have hmod : s.maxSizeMib * 1024 * 1024 % 2 ^ 64 = s.policy.bytes := Nat.mod_eq_of_lt hbytes
  rw [rotates, decide_eq_true_iff, hmod, h.filesize]

/-- **The logger does with the files what the archive does with the times**, for one entry. -/
theorem Shows.logFile (hlib : lib.Lawful) (hs : s.Regular) (h : s.Shows a) (ht : t ∈ Common.printable) {length : Nat}
    (hsize : s.policy.bytes + (length + 1) < 2 ^ 64) :
    (s.logFile lib (stamp t) length).Shows (a.log s.policy t length) := by
  have hiff := h.rotates_iff (by omega)
  rw [logFile_eq hlib hs.plain, Archive.log]
  by_cases hrotates : s.rotates = true
  · rw [checkRotate_eq hrotates, if_pos (hiff.mp hrotates)]
    have hpruned := Shows.pruned (s := s.reopened (stamp t)) hlib hs.plain hs.directory (h.reopened ht)
    refine hpruned.grown length ?_
    show 0 + (length + 1) < 2 ^ 64
    omega
  · have hfits : a.active ≤ s.policy.bytes := not_lt.mp (mt hiff.mpr hrotates)
    have hstays : (s.checkRotate lib (stamp t)).2 = s := by
      rw [checkRotate, if_neg hrotates]
    rw [hstays, if_neg (not_lt.mpr hfits)]
    exact h.grown length (by omega)

end Logger
end Dodo.Common
