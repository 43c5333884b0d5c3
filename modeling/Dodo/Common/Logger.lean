import Mathlib.Data.List.Lex
import Dodo.Lib.Smallest
import Dodo.Common.Regex

/-!
# `Common.Logger` — rotation of the log file

`checkRotate` moves the log file away once it is too large, opens a new one and removes the oldest of the files that were
moved away. Which files those are is decided by a regular expression that is assembled from the path of the log file,
as it stands: the dot of `.log` stands for any character there, and the special characters of the directory and of the
name of the application have their meaning too. `Lib.Smallest` says what the loop over the matching paths removes; here
is what this means for the files in the directory, and that the active log is not among them as long as its path has no
special characters.
-/

namespace Dodo.Common

open Lib

/-! ## The log directory -/

/-- A text of file-name characters. -/
abbrev FileName := { s : Str // 47 ∉ s ∧ 0 ∉ s }

inductive Kind where
  | file
  | directory (empty : Bool)
deriving DecidableEq, Repr

/-- An entry of a directory; `size` is its `st_size`. -/
structure Entry where
  name : FileName
  kind : Kind
  size : Nat
deriving DecidableEq, Repr

/-- Everything but a directory can be unlinked. -/
def Entry.isFile (e : Entry) : Bool := e.kind = .file

/-- The content of a directory. -/
@[ext]
structure Directory where
  entries : List Entry
  nodup : (entries.map (·.name)).Nodup

namespace Directory

def find (d : Directory) (name : FileName) : Option Entry := d.entries.find? (·.name = name)

def filter (d : Directory) (p : Entry → Bool) : Directory :=
  ⟨d.entries.filter p, d.nodup.sublist (List.filter_sublist.map _)⟩

theorem mem_filter {d : Directory} {p : Entry → Bool} {e : Entry} :
    e ∈ (d.filter p).entries ↔ e ∈ d.entries ∧ p e = true := List.mem_filter

theorem filter_filter (d : Directory) (p q : Entry → Bool) :
    (d.filter p).filter q = d.filter (fun e => q e && p e) := Directory.ext (List.filter_filter ..)

theorem filter_true (d : Directory) : d.filter (fun _ => true) = d := Directory.ext (List.filter_eq_self.mpr (by simp))

/-- The entry, in the place of the one of its name. -/
def put (d : Directory) (e : Entry) : Directory where
  entries := e :: (d.filter (·.name ≠ e.name)).entries
  nodup := by
    rw [List.map_cons, List.nodup_cons]
    refine ⟨?_, (d.filter _).nodup⟩
    intro hmem
    obtain ⟨f, hf, hname⟩ := List.mem_map.mp hmem
    have hne : f.name ≠ e.name := by simpa using (List.mem_filter.mp hf).2
    exact hne hname

/-- Whether `rename` may put an entry in the place of another. -/
def replaceable : Kind → Option Kind → Bool
  | _, none => true
  | .file, some .file => true
  -- a directory takes the place of an empty one
  | .directory _, some (.directory empty) => empty
  | _, _ => false

def rename (d : Directory) (old new : FileName) : Directory :=
  match d.find old with
  | none => d
  | some e =>
      if replaceable e.kind ((d.find new).map (·.kind)) then (d.filter (·.name ≠ old)).put { e with name := new } else d

/-- `file.open( path, std::ofstream::out | std::ofstream::app )`, which creates the file. -/
def openAppend (d : Directory) (name : FileName) : Directory :=
  match d.find name with
  | none => d.put ⟨name, .file, 0⟩
  | some _ => d

/-- What is written to a file makes it longer. -/
def grow (d : Directory) (name : FileName) (n : Nat) : Directory where
  entries := d.entries.map (fun e => if e.name = name then { e with size := e.size + n } else e)
  nodup := by
    have hnames : d.entries.map (fun e => (if e.name = name then { e with size := e.size + n } else e).name) =
        d.entries.map (·.name) := by
      apply List.map_congr_left
      intro e _
      by_cases he : e.name = name
      · rw [if_pos he]
      · rw [if_neg he]
    rw [List.map_map]
    exact hnames ▸ d.nodup

def getFileSize (d : Directory) (name : FileName) : Nat :=
  match d.find name with
  | none => 0
  | some e => e.size

theorem of_find_eq_some {d : Directory} {name : FileName} {e : Entry} (h : d.find name = some e) :
    e ∈ d.entries ∧ e.name = name := ⟨List.mem_of_find?_eq_some h, by simpa using List.find?_some h⟩

/-- There is a file of this name. -/
def Has (d : Directory) (name : FileName) : Prop := ∃ e ∈ d.entries, e.name = name ∧ e.isFile = true

/-- The name is not that of a directory. -/
def Free (d : Directory) (name : FileName) : Prop := ∀ e ∈ d.entries, e.name = name → e.isFile = true

variable {d : Directory} {name old new : FileName}

theorem Has.free (h : d.Has name) : d.Free name := by
  obtain ⟨e, he, hname, hfile⟩ := h
  intro e' he' hname'
  have heq : e' = e := List.inj_on_of_nodup_map d.nodup he' he (hname'.trans hname.symm)
  rwa [heq]

/-- A name that something is moved away from is free afterwards, or nothing was moved. -/
theorem Free.rename (h : d.Free old) (hne : new ≠ old) : (d.rename old new).Free old := by
  unfold Directory.rename
  cases d.find old with
  | none => exact h
  | some e =>
      dsimp only
      split
      · intro e' he' hname
        rcases List.mem_cons.mp he' with rfl | he'
        · exact absurd hname hne
        · have hgone := (mem_filter.mp (mem_filter.mp he').1).2
          exact absurd hname (by simpa using hgone)
      · exact h

theorem Free.openAppend (h : d.Free name) : (d.openAppend name).Has name := by
  unfold Directory.openAppend
  cases hfind : d.find name with
  | none => exact ⟨_, List.mem_cons_self, rfl, rfl⟩
  | some e =>
      obtain ⟨he, hname⟩ := of_find_eq_some hfind
      exact ⟨e, he, hname, h e he hname⟩

theorem Has.grow (h : d.Has name) (name' : FileName) (n : Nat) : (d.grow name' n).Has name := by
  obtain ⟨e, he, hname, hfile⟩ := h
  refine ⟨_, List.mem_map_of_mem he, ?_⟩
  by_cases he' : e.name = name'
  · rw [if_pos he']
    exact ⟨hname, hfile⟩
  · rw [if_neg he']
    exact ⟨hname, hfile⟩

end Directory

/-! ## The logger -/

/-- The file destination of the logger, with the content of the log directory. -/
structure Logger where
  directory : Str
  appName : FileName
  maxSizeMib : Nat
  maxFileTrail : Nat
  filesize : Nat
  content : Directory

/-- The configuration of the file destination. -/
structure FileConfig where
  directory : Str
  appName : FileName
  maxSizeMib : Option Nat
  maxFileTrail : Option Nat

namespace Logger

variable {lib : RegexLibrary} {s : Logger} {time : FileName}

/-- `char` values compare as unsigned values in a `std::string`. -/
scoped instance octetOrder : LinearOrder UInt8 where
  le_refl _ := UInt8.le_refl _
  le_trans _ _ _ := UInt8.le_trans
  lt_iff_le_not_ge a b := by
    rw [UInt8.not_le]
    exact ⟨fun h => ⟨UInt8.le_of_lt h, h⟩, And.right⟩
  le_antisymm _ _ := UInt8.le_antisymm
  le_total := UInt8.le_total
  toDecidableLE := inferInstance
  toDecidableEq := inferInstance
  toDecidableLT := inferInstance

/-- `name` followed by characters of file names. -/
def extend (name : FileName) (t : Str) (ht : 47 ∉ t ∧ 0 ∉ t) : FileName :=
  ⟨name.val ++ t, by simp [name.property.1, ht.1], by simp [name.property.2, ht.2]⟩

/-- The name of the active log. -/
def activeName (appName : FileName) : FileName := extend appName (lit ".log") (by decide)

/-- The path of a file of the directory, as the name of the active log is formed. -/
def path (s : Logger) (name : FileName) : Str := s.directory ++ lit "/" ++ name.val

def activeLog (s : Logger) : Str := s.path (activeName s.appName)

/-- `entry.path().string()`: a separator is put in where there is none. -/
def entryPath (directory : Str) (name : FileName) : Str :=
  if directory = [] ∨ directory.getLast? = some 47 then directory ++ name.val else directory ++ lit "/" ++ name.val

/-- A log directory, as `stat` sees it: whether it is writable, and its content. -/
abbrev Disk := Option (Bool × Directory)

def getFileParams (config : FileConfig) (disk : Disk) : Except Str Logger :=
  match disk with
  | none => .error (lit "directory '" ++ config.directory ++ lit "' does not exist")
  | some (false, _) => .error (lit "directory '" ++ config.directory ++ lit "' not writable")
  | some (true, content) =>
      let name := activeName config.appName
      let content := content.openAppend name
      let logger : Logger := {
        directory := config.directory
        appName := config.appName
        maxSizeMib := config.maxSizeMib.getD 10
        maxFileTrail := config.maxFileTrail.getD 4
        filesize := content.getFileSize name
        content := content }
      -- a directory of this name cannot be opened for writing
      if (content.find name).any (·.isFile) then .ok logger
      else .error (lit "failed to open '" ++ logger.activeLog ++ lit "' for writing")

def rotates (s : Logger) : Bool := s.maxSizeMib * 1024 * 1024 % 2 ^ 64 < s.filesize

/-- The log file is moved away and a new one is opened. -/
def reopened (s : Logger) (time : FileName) : Logger :=
  let name := activeName s.appName
  let rotated := extend name (lit "." ++ time.val) (by
    have hdot : 47 ∉ lit "." ∧ 0 ∉ lit "." := by decide
    simp [hdot, time.property.1, time.property.2])
  let content := (s.content.rename name rotated).openAppend name
  { s with filesize := content.getFileSize name, content := content }

def logRegex (s : Logger) : Str := lit "^" ++ s.activeLog ++ lit "\\..*"

/-- The paths that match, as a `std::set`. -/
def trail (s : Logger) (matches_ : Str → Bool) : Finset Str :=
  ((s.content.entries.map (fun e => entryPath s.directory e.name)).filter matches_).toFinset

/-- The logger, without some of the entries. -/
def without (s : Logger) (p : Entry → Bool) : Logger := { s with content := s.content.filter (fun e => !p e) }

def unlink (s : Logger) (p : Str) : Logger := s.without (fun e => e.isFile && entryPath s.directory e.name = p)

/-- A pass of the loop over `trail`. -/
def prunePass (st : Finset Str × Logger) : Finset Str × Logger :=
  if h : st.1.Nonempty then (st.1.erase (st.1.min' h), st.2.unlink (st.1.min' h)) else st

/-- `while ( trail.size() > max_file_trail )` -/
def prune (s : Logger) (trail : Finset Str) : Logger :=
  (While.loop (fun st => s.maxFileTrail < st.1.card) prunePass trail.card (trail, s)).2

inductive RegexError where
  | regexError
deriving DecidableEq, Repr

/-- `checkRotate()` at the time `time`, as `formatDateTimeUTC` prints it. -/
def checkRotate (lib : RegexLibrary) (time : FileName) (s : Logger) : Except RegexError Unit × Logger :=
  if s.rotates then
    let s := s.reopened time
    match lib.compile s.logRegex with
    -- thrown when the log has been moved away already
    | none => (.error .regexError, s)
    | some matches_ => (.ok (), s.prune (s.trail matches_))
  else (.ok (), s)

/-- What `log` does for the file destination, with an entry of `length` characters. -/
def logFile (lib : RegexLibrary) (time : FileName) (length : Nat) (s : Logger) : Logger :=
  match s.checkRotate lib time with
  | (.error _, s) => s
  | (.ok (), s) => { s with
      filesize := (s.filesize + (length + 1)) % 2 ^ 64
      content := s.content.grow (activeName s.appName) (length + 1) }

/-! ## What is unlinked -/

theorem without_without (s : Logger) (p q : Entry → Bool) :
    (s.without p).without q = s.without (fun e => p e || q e) := by
  simp only [without, Directory.filter_filter, Bool.not_or, Bool.and_comm]

/-- The files whose paths are in `drop`. -/
def unlinked (s : Logger) (drop : Finset Str) (e : Entry) : Bool := e.isFile && entryPath s.directory e.name ∈ drop

theorem without_unlinked_empty (s : Logger) : s.without (s.unlinked ∅) = s := by
  simp only [without, unlinked, Finset.notMem_empty, decide_false, Bool.and_false, Bool.not_false,
    Directory.filter_true]

theorem unlink_without_unlinked (s : Logger) (p : Str) (drop : Finset Str) :
    (s.unlink p).without ((s.unlink p).unlinked drop) = s.without (s.unlinked (insert p drop)) := by
  show (s.unlink p).without (s.unlinked drop) = _
  rw [unlink, without_without]
  congr 1
  funext e
  simp only [unlinked, Finset.mem_insert, Bool.decide_or, Bool.and_or_distrib_left]

/-- The loop unlinks all but the greatest paths: induction on the passes, each of which takes the smallest path. -/
theorem loop_prunePass (n : Nat) {passes : Nat} {trail : Finset Str} (hpasses : trail.card ≤ passes) (s : Logger) :
    (While.loop (fun st => n < st.1.card) prunePass passes (trail, s)).2 = s.without (s.unlinked (surplus trail n)) := by
  induction passes generalizing trail s with
  | zero =>
      rw [surplus_eq_empty (hpasses.trans (Nat.zero_le n)), without_unlinked_empty]
      rfl
  | succ passes ih =>
      rw [While.loop]
      by_cases hlong : n < trail.card
      · have hne : trail.Nonempty := Finset.card_pos.mp (Nat.zero_lt_of_lt hlong)
        have hcard := Finset.card_erase_of_mem (trail.min'_mem hne)
        rw [if_pos (by simpa using hlong), prunePass, dif_pos hne, ih (by rw [hcard]; omega),
          surplus_eq_insert hne hlong]
        exact unlink_without_unlinked s _ _
      · rw [if_neg (by simpa using hlong), surplus_eq_empty (not_lt.mp hlong), without_unlinked_empty]

/-- The paths that the expression matches; none if it is refused. -/
def matched (lib : RegexLibrary) (s : Logger) : Finset Str :=
  match lib.compile s.logRegex with
  | none => ∅
  | some matches_ => s.trail matches_

/-- The paths that are passed to `unlink`. -/
def doomed (lib : RegexLibrary) (s : Logger) : Finset Str := surplus (s.matched lib) s.maxFileTrail

theorem checkRotate_eq (hrotates : s.rotates = true) : (s.checkRotate lib time).2 =
    (s.reopened time).without ((s.reopened time).unlinked ((s.reopened time).doomed lib)) := by
  rw [checkRotate, if_pos hrotates]
  generalize s.reopened time = mid
  simp only [doomed, matched]
  cases lib.compile mid.logRegex with
  | none =>
      rw [surplus_eq_empty (Nat.zero_le _), without_unlinked_empty]
  | some matches_ => exact loop_prunePass _ (Nat.le_refl _) mid

/-! ## The rotated logs -/

/-- The file is a rotated log: its path is that of the active log, a dot and some text. -/
def Own (s : Logger) (name : FileName) : Prop := ∃ suffix : Str, s.path name = s.activeLog ++ lit "." ++ suffix

instance (s : Logger) (name : FileName) : Decidable (s.Own name) :=
  decidable_of_iff (s.activeLog ++ lit "." <+: s.path name) ⟨fun ⟨t, h⟩ => ⟨t, h.symm⟩, fun ⟨t, h⟩ => ⟨t, h.symm⟩⟩

/-- The rotated logs among some entries. -/
def ownFiles (s : Logger) (entries : List Entry) : List Entry := entries.filter (fun e => e.isFile && s.Own e.name)

/-- Only rotated logs are removed from `before`, the oldest ones, and no more than `maxFileTrail` are left. -/
structure RemovesOwnOldest (before after : Logger) : Prop where
  own : ∀ e ∈ before.content.entries, e ∉ after.content.entries → before.Own e.name
  few : (before.ownFiles after.content.entries).length ≤ before.maxFileTrail
  oldest : ∀ r ∈ before.content.entries, r ∉ after.content.entries →
    ∀ k ∈ before.ownFiles after.content.entries, before.path r.name < before.path k.name

/-- The paths that match and are not passed to `unlink`: the greatest ones, `maxFileTrail` of them at most. -/
def newest (lib : RegexLibrary) (s : Logger) : Finset Str := s.matched lib \ s.doomed lib

/-- The rotated logs that the expression misses. -/
def missed (lib : RegexLibrary) (s : Logger) : List Entry :=
  (s.ownFiles s.content.entries).filter (fun e => entryPath s.directory e.name ∉ s.matched lib)

/-- The other entries that it takes. -/
def taken (lib : RegexLibrary) (s : Logger) : List Entry :=
  s.content.entries.filter (fun e => !(e.isFile && s.Own e.name) && entryPath s.directory e.name ∈ s.matched lib)

/-- The expression tells the rotated logs from other files well enough for this directory: the other files that it takes
    are among the greatest paths; there is room for the rotated logs that it misses, because few paths match or because
    others are among the greatest; and those logs are newer than the rotated logs that are removed. -/
structure Discerns (lib : RegexLibrary) (s : Logger) : Prop where
  taken : ∀ e ∈ s.taken lib, e.isFile = true → entryPath s.directory e.name ∈ s.newest lib
  room : (s.missed lib).length ≤ (s.maxFileTrail - (s.matched lib).card) +
    ((s.taken lib).filter (fun e => entryPath s.directory e.name ∈ s.newest lib)).length
  newer : ∀ k ∈ s.missed lib, ∀ r ∈ s.ownFiles s.content.entries, entryPath s.directory r.name ∈ s.matched lib →
    entryPath s.directory r.name ∉ s.newest lib → s.path r.name < s.path k.name

theorem mem_ownFiles {entries : List Entry} {e : Entry} :
    e ∈ s.ownFiles entries ↔ e ∈ entries ∧ e.isFile = true ∧ s.Own e.name := by
  rw [ownFiles, List.mem_filter, Bool.and_eq_true, decide_eq_true_iff]

theorem entryPath_eq (directory : Str) : ∃ base, ∀ name : FileName, entryPath directory name = base ++ name.val := by
  by_cases h : directory = [] ∨ directory.getLast? = some 47
  · exact ⟨directory, fun name => if_pos h⟩
  · exact ⟨directory ++ lit "/", fun name => if_neg h⟩

theorem entryPath_inj {directory : Str} {a b : FileName} (h : entryPath directory a = entryPath directory b) : a = b := by
  obtain ⟨base, hbase⟩ := entryPath_eq directory
  rw [hbase, hbase] at h
  exact Subtype.ext (List.append_cancel_left h)

/-- A common directory does not matter for the order. -/
theorem append_lt_append_iff (base a b : Str) : base ++ a < base ++ b ↔ a < b := by
  have hmono (a b : Str) (h : a < b) : base ++ a < base ++ b := List.Lex.append_left _ h base
  refine ⟨fun h => ?_, hmono a b⟩
  rcases lt_trichotomy a b with hlt | rfl | hgt
  · exact hlt
  · exact absurd h (lt_irrefl _)
  · exact absurd (h.trans (hmono b a hgt)) (lt_irrefl _)

theorem path_lt_iff {a b : FileName} : s.path a < s.path b ↔ entryPath s.directory a < entryPath s.directory b := by
  obtain ⟨base, hbase⟩ := entryPath_eq s.directory
  rw [path, path, hbase, hbase, append_lt_append_iff, append_lt_append_iff]

theorem mem_doomed {p : Str} : p ∈ s.doomed lib ↔
    p ∈ s.matched lib ∧ s.maxFileTrail ≤ (above (s.matched lib) p).card := mem_surplus

theorem notMem_without {e : Entry} (h : e ∈ s.content.entries) (drop : Finset Str) :
    e ∉ (s.without (s.unlinked drop)).content.entries ↔ e.isFile = true ∧ entryPath s.directory e.name ∈ drop := by
  rw [without, Directory.mem_filter, unlinked]
  simp [h]

theorem ownFiles_without (drop : Finset Str) : s.ownFiles (s.without (s.unlinked drop)).content.entries =
    (s.ownFiles s.content.entries).filter (fun e => entryPath s.directory e.name ∉ drop) := by
  simp only [ownFiles, without, Directory.filter, List.filter_filter]
  congr 1
  funext e
  by_cases hfile : e.isFile = true
  · by_cases hdrop : entryPath s.directory e.name ∈ drop <;> simp [unlinked, hfile, hdrop]
  · simp [hfile]

theorem mem_newest {p : Str} : p ∈ s.newest lib ↔ p ∈ s.matched lib ∧ p ∉ s.doomed lib := Finset.mem_sdiff

theorem mem_missed {e : Entry} :
    e ∈ s.missed lib ↔ e ∈ s.ownFiles s.content.entries ∧ entryPath s.directory e.name ∉ s.matched lib := by
  rw [missed, List.mem_filter, decide_eq_true_iff]

theorem mem_taken {e : Entry} : e ∈ s.taken lib ↔ e ∈ s.content.entries ∧ (e.isFile = true → ¬ s.Own e.name) ∧
    entryPath s.directory e.name ∈ s.matched lib := by
  have hforeign : (e.isFile = true → ¬ s.Own e.name) ↔ (!(e.isFile && s.Own e.name)) = true := by
    cases e.isFile <;> simp
  rw [taken, List.mem_filter, Bool.and_eq_true, ← hforeign, decide_eq_true_iff]

/-- Paths that match are those of entries. -/
theorem exists_of_mem_matched {p : Str} (h : p ∈ s.matched lib) :
    ∃ e ∈ s.content.entries, entryPath s.directory e.name = p := by
  unfold matched at h
  cases hcompile : lib.compile s.logRegex with
  | none =>
      rw [hcompile] at h
      cases Finset.notMem_empty p h
  | some matches_ =>
      rw [hcompile] at h
      exact List.mem_map.mp (List.mem_of_mem_filter (List.mem_toFinset.mp h))

/-- The entries of some paths are as many as the paths. -/
theorem length_entries {paths : Finset Str} (h : paths ⊆ s.matched lib) :
    (s.content.entries.filter (fun e => entryPath s.directory e.name ∈ paths)).length = paths.card := by
  generalize hentries : s.content.entries.filter (fun e => entryPath s.directory e.name ∈ paths) = entries
  have hnodup : (entries.map (fun e => entryPath s.directory e.name)).Nodup := by
    have hnames : (entries.map (·.name)).Nodup := by
      rw [← hentries]
      exact s.content.nodup.sublist (List.filter_sublist.map _)
    have hmap := hnames.map (f := entryPath s.directory) (fun _ _ => entryPath_inj)
    rwa [List.map_map] at hmap
  have hpaths : (entries.map (fun e => entryPath s.directory e.name)).toFinset = paths := by
    ext p
    rw [List.mem_toFinset, List.mem_map, ← hentries]
    constructor
    · rintro ⟨e, he, rfl⟩
      simpa using (List.mem_filter.mp he).2
    · intro hp
      obtain ⟨e, he, rfl⟩ := exists_of_mem_matched (h hp)
      exact ⟨e, List.mem_filter.mpr ⟨he, by simpa using hp⟩, rfl⟩
  rw [← hpaths, List.toFinset_card_of_nodup hnodup, List.length_map]

/-- The greatest paths are those of rotated logs and of others. -/
theorem length_newest (lib : RegexLibrary) (s : Logger) :
    ((s.ownFiles s.content.entries).filter (fun e => entryPath s.directory e.name ∈ s.newest lib)).length +
      ((s.taken lib).filter (fun e => entryPath s.directory e.name ∈ s.newest lib)).length =
    min s.maxFileTrail (s.matched lib).card := by
  have hcard : (s.newest lib).card = min s.maxFileTrail (s.matched lib).card := card_sdiff_surplus
  have hsubset : s.newest lib ⊆ s.matched lib := Finset.sdiff_subset
  -- one list, split by whether an entry is a rotated log
  have hown : (s.ownFiles s.content.entries).filter (fun e => entryPath s.directory e.name ∈ s.newest lib) =
      (s.content.entries.filter (fun e => entryPath s.directory e.name ∈ s.newest lib)).filter
        (fun e => e.isFile && s.Own e.name) := by
    rw [ownFiles, List.filter_filter, List.filter_filter]
    congr 1
    funext e
    exact Bool.and_comm _ _
  have htaken : (s.taken lib).filter (fun e => entryPath s.directory e.name ∈ s.newest lib) =
      (s.content.entries.filter (fun e => entryPath s.directory e.name ∈ s.newest lib)).filter
        (fun e => !(e.isFile && s.Own e.name)) := by
    rw [taken, List.filter_filter, List.filter_filter]
    congr 1
    funext e
    by_cases hnew : entryPath s.directory e.name ∈ s.newest lib
    · simp [hnew, hsubset hnew]
    · simp [hnew]
  rw [hown, htaken, ← hcard, ← length_entries hsubset]
  exact (List.length_eq_length_filter_add _).symm

/-- The rotated logs that are kept were missed, or they are among the greatest paths. -/
theorem length_ownFiles_kept : ((s.ownFiles s.content.entries).filter
      (fun e => entryPath s.directory e.name ∉ s.doomed lib)).length = (s.missed lib).length +
    ((s.ownFiles s.content.entries).filter (fun e => entryPath s.directory e.name ∈ s.newest lib)).length := by
  rw [List.length_eq_length_filter_add (fun e => entryPath s.directory e.name ∉ s.matched lib), List.filter_filter,
    List.filter_filter, missed]
  congr 3
  · funext e
    by_cases hmatch : entryPath s.directory e.name ∈ s.matched lib <;> simp [mem_doomed, hmatch]
  · funext e
    by_cases hmatch : entryPath s.directory e.name ∈ s.matched lib <;> simp [mem_newest, mem_doomed, hmatch]

/-- What the loop leaves meets the property exactly if the expression tells the files apart. -/
theorem removesOwnOldest_iff :
    RemovesOwnOldest s (s.without (s.unlinked (s.doomed lib))) ↔ Discerns lib s := by
  have hroom : ((s.ownFiles s.content.entries).filter
      (fun e => entryPath s.directory e.name ∉ s.doomed lib)).length ≤ s.maxFileTrail ↔
      (s.missed lib).length ≤ (s.maxFileTrail - (s.matched lib).card) +
        ((s.taken lib).filter (fun e => entryPath s.directory e.name ∈ s.newest lib)).length := by
    have hnewest := length_newest lib s
    rw [length_ownFiles_kept]
    omega
  constructor
  · intro h
    refine ⟨?_, ?_, ?_⟩
    · intro e he hfile
      obtain ⟨hmem, hforeign, hmatch⟩ := mem_taken.mp he
      refine mem_newest.mpr ⟨hmatch, fun hdoomed => hforeign hfile ?_⟩
      exact h.own e hmem ((notMem_without hmem _).mpr ⟨hfile, hdoomed⟩)
    · rw [← hroom, ← ownFiles_without]
      exact h.few
    · intro k hk r hr hmatch hold
      obtain ⟨hk, hunmatched⟩ := mem_missed.mp hk
      obtain ⟨hr, hfile, -⟩ := mem_ownFiles.mp hr
      have hdoomed : entryPath s.directory r.name ∈ s.doomed lib := by
        by_contra hkept
        exact hold (mem_newest.mpr ⟨hmatch, hkept⟩)
      refine h.oldest r hr ((notMem_without hr _).mpr ⟨hfile, hdoomed⟩) k ?_
      rw [ownFiles_without, List.mem_filter]
      exact ⟨hk, decide_eq_true fun hdoomed => hunmatched (mem_doomed.mp hdoomed).1⟩
  · intro h
    have hown {e : Entry} (he : e ∈ s.content.entries)
        (hremoved : e ∉ (s.without (s.unlinked (s.doomed lib))).content.entries) :
        s.Own e.name ∧ e.isFile = true ∧ entryPath s.directory e.name ∈ s.doomed lib := by
      obtain ⟨hfile, hdoomed⟩ := (notMem_without he _).mp hremoved
      refine ⟨?_, hfile, hdoomed⟩
      by_contra hforeign
      have htaken := mem_taken.mpr ⟨he, fun _ => hforeign, (mem_doomed.mp hdoomed).1⟩
      exact (mem_newest.mp (h.taken e htaken hfile)).2 hdoomed
    refine ⟨fun e he hremoved => (hown he hremoved).1, ?_, ?_⟩
    · rw [ownFiles_without]
      exact hroom.mpr h.room
    · intro r hr hremoved k hk
      obtain ⟨hrown, hfile, hdoomed⟩ := hown hr hremoved
      rw [ownFiles_without, List.mem_filter, decide_eq_true_iff] at hk
      obtain ⟨hk, hkept⟩ := hk
      by_cases hmatched : entryPath s.directory k.name ∈ s.matched lib
      · exact path_lt_iff.mpr (lt_of_mem_surplus hdoomed hmatched hkept)
      · refine h.newer k (mem_missed.mpr ⟨hk, hmatched⟩) r (mem_ownFiles.mpr ⟨hr, hfile, hrown⟩) (mem_doomed.mp hdoomed).1 ?_
        exact fun hnew => (mem_newest.mp hnew).2 hdoomed

/-- If exactly the rotated logs match, the expression tells the files apart in every respect. -/
theorem discerns_of_exact
    (h : ∀ e ∈ s.content.entries, entryPath s.directory e.name ∈ s.matched lib ↔ s.Own e.name) : Discerns lib s := by
  have hmissed : s.missed lib = [] := by
    refine List.eq_nil_iff_forall_not_mem.mpr fun e he => ?_
    obtain ⟨hown, hunmatched⟩ := mem_missed.mp he
    obtain ⟨hmem, -, hown⟩ := mem_ownFiles.mp hown
    exact hunmatched ((h e hmem).mpr hown)
  refine ⟨?_, ?_, ?_⟩
  · intro e he hfile
    obtain ⟨hmem, hforeign, hmatch⟩ := mem_taken.mp he
    exact absurd ((h e hmem).mp hmatch) (hforeign hfile)
  · rw [hmissed]
    exact Nat.zero_le _
  · rw [hmissed]
    exact fun k hk => absurd hk List.not_mem_nil

/-- The paths that match, for a path of the active log without special characters. -/
theorem mem_matched (hlib : lib.Lawful) (hplain : ∀ c ∈ s.activeLog, c ∉ special) {e : Entry}
    (he : e ∈ s.content.entries) :
    entryPath s.directory e.name ∈ s.matched lib ↔ alike s.activeLog (entryPath s.directory e.name) = true := by
  rw [matched, logRegex, hlib.compile_log _ hplain]
  simp only [trail, List.mem_toFinset, List.mem_filter]
  exact and_iff_right (List.mem_map_of_mem he)

/-- **Rotation removes its own oldest files** exactly if the expression tells the rotated logs apart, which it does if
    the path of the active log has no special characters and in the directory only rotated logs, and all of them, look
    like it up to the dots. -/
theorem checkRotate_removes_iff (lib : RegexLibrary) (hlib : lib.Lawful) (time : FileName) (s : Logger)
    (hrotates : s.rotates = true) :
    (RemovesOwnOldest (s.reopened time) (s.checkRotate lib time).2 ↔ Discerns lib (s.reopened time)) ∧
    ((∀ c ∈ s.activeLog, c ∉ special) →
      (∀ e ∈ (s.reopened time).content.entries,
        alike s.activeLog (entryPath s.directory e.name) = true ↔ s.Own e.name) →
      RemovesOwnOldest (s.reopened time) (s.checkRotate lib time).2) := by
  rw [checkRotate_eq hrotates]
  refine ⟨removesOwnOldest_iff, fun hplain hexact => ?_⟩
  refine removesOwnOldest_iff.mpr (discerns_of_exact fun e he => ?_)
  exact (mem_matched (s := s.reopened time) hlib hplain he).trans (hexact e he)

/-- Noon of the first of May 2024. -/
def noon : FileName := ⟨lit "2024-05-01T12:00:00.000000Z", by decide⟩

/-- A log that is too large, with two rotated logs: after the rotation one has to go. -/
def crowdedLog : Logger where
  directory := lit "log"
  appName := ⟨lit "app", by decide⟩
  maxSizeMib := 10
  maxFileTrail := 2
  filesize := 10485761
  content := {
    entries := [⟨⟨lit "app.log", by decide⟩, .file, 10485761⟩,
      ⟨⟨lit "app.log.2024-03-01T12:00:00.000000Z", by decide⟩, .file, 10485770⟩,
      ⟨⟨lit "app.log.2024-04-01T12:00:00.000000Z", by decide⟩, .file, 10485790⟩,
      ⟨⟨lit "other", by decide⟩, .directory false, 4096⟩]
    nodup := by decide }

theorem checkRotate_removes_crowded :
    RemovesOwnOldest (crowdedLog.reopened noon) (crowdedLog.checkRotate simpleRegex noon).2 :=
  (checkRotate_removes_iff simpleRegex lawful_simpleRegex noon crowdedLog (by decide)).2
    (by decide +kernel) (by decide +kernel)

/-- The active log of an application `app-log`. -/
def foreignLog : Entry := ⟨⟨lit "app-log.log", by decide⟩, .file, 20⟩

/-- The log directory of two applications, `app` and `app-log`. -/
def sharedLog : Logger where
  directory := lit "log"
  appName := ⟨lit "app", by decide⟩
  maxSizeMib := 10
  maxFileTrail := 4
  filesize := 10485761
  content := {
    entries := [⟨⟨lit "app.log", by decide⟩, .file, 10485761⟩,
      ⟨⟨lit "app.log.2024-02-01T12:00:00.000000Z", by decide⟩, .file, 10485780⟩,
      ⟨⟨lit "app.log.2024-03-01T12:00:00.000000Z", by decide⟩, .file, 10485770⟩,
      ⟨⟨lit "app.log.2024-04-01T12:00:00.000000Z", by decide⟩, .file, 10485790⟩, foreignLog]
    nodup := by decide }

/-- The dot of `app.log` matches the hyphen of `app-log.log`, which comes before all the rotated logs. -/
theorem checkRotate_removes_foreign :
    sharedLog.rotates = true ∧ foreignLog ∈ (sharedLog.reopened noon).content.entries ∧
      foreignLog ∉ (sharedLog.checkRotate simpleRegex noon).2.content.entries ∧
      ¬ RemovesOwnOldest (sharedLog.reopened noon) (sharedLog.checkRotate simpleRegex noon).2 := by
  have hrotates : sharedLog.rotates = true := by decide
  have hbefore : foreignLog ∈ (sharedLog.reopened noon).content.entries := by decide
  have hafter : foreignLog ∉ (sharedLog.checkRotate simpleRegex noon).2.content.entries := by decide +kernel
  have hforeign : ¬ (sharedLog.reopened noon).Own foreignLog.name := by decide
  exact ⟨hrotates, hbefore, hafter, fun h => hforeign (h.own foreignLog hbefore hafter)⟩

/-! ## The active log -/

theorem getFileParams_has {config : FileConfig} {disk : Disk} (h : getFileParams config disk = .ok s) :
    s.content.Has (activeName s.appName) := by
  cases disk with
  | none => cases h
  | some disk =>
      obtain ⟨writable, content⟩ := disk
      cases writable with
      | false => cases h
      | true =>
          rw [getFileParams] at h
          split at h
          case isTrue hopen =>
            obtain rfl := Except.ok.inj h
            obtain ⟨e, hfind, hfile⟩ := (Option.any_eq_true _ _).mp hopen
            obtain ⟨he, hname⟩ := Directory.of_find_eq_some hfind
            exact ⟨e, he, hname, hfile⟩
          case isFalse => cases h

theorem reopened_has (h : s.content.Has (activeName s.appName)) (time : FileName) :
    (s.reopened time).content.Has (activeName s.appName) := by
  apply (h.free.rename ?_).openAppend
  -- the new name is longer
  intro heq
  have hlength := congrArg (fun name : FileName => name.val.length) heq
  simp [extend, lit] at hlength

/-- The active log is too short to match. -/
theorem not_mem_matched (hlib : lib.Lawful) (hplain : ∀ c ∈ s.activeLog, c ∉ special) {e : Entry}
    (he : e ∈ s.content.entries) (hname : e.name = activeName s.appName) :
    entryPath s.directory e.name ∉ s.matched lib := by
  rw [mem_matched hlib hplain he, hname]
  intro halike
  have hlength := length_lt_of_alike halike
  unfold activeLog path entryPath at hlength
  split at hlength <;> (simp only [List.length_append] at hlength; omega)

theorem checkRotate_has (hlib : lib.Lawful) (hplain : ∀ c ∈ s.activeLog, c ∉ special)
    (h : s.content.Has (activeName s.appName)) (time : FileName) :
    (s.checkRotate lib time).2.content.Has (activeName s.appName) := by
  by_cases hrotates : s.rotates = true
  · rw [checkRotate_eq hrotates]
    obtain ⟨e, he, hname, hfile⟩ := reopened_has h time
    refine ⟨e, ?_, hname, hfile⟩
    by_contra hgone
    obtain ⟨_, hdoomed⟩ := (notMem_without he _).mp hgone
    exact not_mem_matched (s := s.reopened time) hlib hplain he hname (mem_doomed.mp hdoomed).1
  · rw [checkRotate, if_neg hrotates]
    exact h

/-- Rotation leaves the configuration alone. -/
theorem checkRotate_config (lib : RegexLibrary) (time : FileName) (s : Logger) :
    (s.checkRotate lib time).2.directory = s.directory ∧ (s.checkRotate lib time).2.appName = s.appName := by
  by_cases hrotates : s.rotates = true
  · rw [checkRotate_eq hrotates]
    exact ⟨rfl, rfl⟩
  · rw [checkRotate, if_neg hrotates]
    exact ⟨rfl, rfl⟩

/-- Entries that are logged one after the other. -/
inductive Logged (lib : RegexLibrary) : Logger → Logger → Prop where
  | refl (s : Logger) : Logged lib s s
  | entry {s s' : Logger} (h : Logged lib s s') (time : FileName) (length : Nat) :
      Logged lib s (s'.logFile lib time length)

theorem logFile_has (hlib : lib.Lawful) (hplain : ∀ c ∈ s.activeLog, c ∉ special)
    (h : s.content.Has (activeName s.appName)) (time : FileName) (length : Nat) :
    (s.logFile lib time length).content.Has (activeName (s.logFile lib time length).appName) ∧
      (s.logFile lib time length).activeLog = s.activeLog := by
  have hhas := checkRotate_has hlib hplain h time
  obtain ⟨hdirectory, hname⟩ := checkRotate_config lib time s
  unfold logFile
  generalize s.checkRotate lib time = result at *
  obtain ⟨outcome, s'⟩ := result
  have hlog : s'.activeLog = s.activeLog := by
    unfold activeLog path
    rw [show s'.directory = _ from hdirectory, show s'.appName = _ from hname]
  rw [← show s'.appName = _ from hname] at hhas
  cases outcome with
  | error error => exact ⟨hhas, hlog⟩
  | ok _ => exact ⟨hhas.grow _ _, hlog⟩

/-- **The active log stays in the directory**, however often it is rotated, if its path has no special characters. -/
theorem logged_has (hlib : lib.Lawful) {config : FileConfig} {disk : Disk} {s' : Logger}
    (hstart : getFileParams config disk = .ok s) (hplain : ∀ c ∈ s.activeLog, c ∉ special) (h : Logged lib s s') :
    s'.content.Has (activeName s'.appName) ∧ s'.activeLog = s.activeLog := by
  induction h with
  | refl => exact ⟨getFileParams_has hstart, rfl⟩
  | entry _ time length ih =>
      obtain ⟨hhas, hlog⟩ := ih
      obtain ⟨hhas', hlog'⟩ := logFile_has hlib (hlog ▸ hplain) hhas time length
      exact ⟨hhas', hlog'.trans hlog⟩

end Logger
end Dodo.Common
