import Mathlib.Algebra.Ring.Nat
import Mathlib.Algebra.Order.BigOperators.Group.List
import Dodo.Common.LogArchive

/-!
# `Common.LogTrail` — the logs of a whole run

From the step of `Common.LogArchive`, what holds after any number of entries. The logs that are left are those of the
latest times, whatever the clock did in between, and the space they take is bounded by the configuration and the longest
entry. A logger that is started again goes on with the archive it finds.
-/

namespace Dodo.Common

open Lib
open scoped Logger

namespace Logger

variable {lib : RegexLibrary} {s : Logger} {a : Archive}

/-- The times at which the log is moved away. -/
def rotations (lib : RegexLibrary) (s : Logger) : List (TimeVal × Nat) → Finset TimeVal
  | [] => ∅
  | e :: entries => (if s.rotates then {e.1} else ∅) ∪ (s.logFile lib (stamp e.1) e.2).rotations lib entries

/-- A run that the names and the sizes are made for: no year has more than four digits, and no size is too large for a
    `size_t`. -/
def Moderate (s : Logger) (entries : List (TimeVal × Nat)) : Prop :=
  ∀ e ∈ entries, e.1.date.year ≤ 9999 ∧ s.policy.bytes + (e.2 + 1) < 2 ^ 64

/-- The simulation over a run, with the times at which the log is moved away. -/
theorem Shows.logAll (hlib : lib.Lawful) (hs : s.Regular) (h : s.Shows a) {entries : List (TimeVal × Nat)}
    (hentries : s.Moderate entries) :
    (s.logAll lib entries).Shows (a.logAll s.policy entries) ∧
      s.rotations lib entries = a.rotations s.policy entries ∧ s.SameConfig (s.logAll lib entries) := by
  induction entries generalizing s a with
  | nil => exact ⟨h, rfl, rfl, rfl, rfl, rfl⟩
  | cons e entries ih =>
      obtain ⟨⟨hyear, hsize⟩, hrest⟩ := List.forall_mem_cons.mp hentries
      have hconfig := SameConfig.logFile lib (stamp e.1) e.2 s
      have hstep := h.logFile hlib hs hyear hsize
      have hmoderate : (s.logFile lib (stamp e.1) e.2).Moderate entries := by
        rw [Moderate, hconfig.policy_eq]
        exact hrest
      obtain ⟨hshows, hrotations, hsame⟩ := ih (hconfig.regular hs) hstep hmoderate
      rw [hconfig.policy_eq] at hshows hrotations
      refine ⟨hshows, ?_, ?_⟩
      · rw [rotations, Archive.rotations, hrotations]
        simp only [h.rotates_iff (by omega : s.policy.bytes < 2 ^ 64)]
      · obtain ⟨h₁, h₂, h₃, h₄⟩ := hsame
        exact ⟨h₁.trans hconfig.1, h₂.trans hconfig.2.1, h₃.trans hconfig.2.2.1, h₄.trans hconfig.2.2.2⟩

/-- A logger begins with an empty archive in a directory without logs, whatever else is there. -/
theorem getFileParams_shows {config : FileConfig} {content : Directory}
    (hstart : getFileParams config (some (true, content)) = .ok s)
    (hclean : ∀ e ∈ content.entries, s.Concerns e.name → e.name = activeName s.appName) :
    s.Shows ⟨s.filesize, ∅, fun _ => 0, content.find⟩ := by
  obtain ⟨e, he, hname, hfile⟩ := getFileParams_has hstart
  rw [getFileParams] at hstart
  split at hstart
  case isFalse => cases hstart
  case isTrue =>
    obtain rfl := Except.ok.inj hstart
    have hfind := Directory.find_eq_some_iff.mpr ⟨he, hname⟩
    refine ⟨rfl, ?_, ?_, ?_, ?_, ?_⟩
    · show (content.openAppend (activeName config.appName)).find (activeName config.appName) =
        some ⟨_, .file, (content.openAppend (activeName config.appName)).getFileSize (activeName config.appName)⟩
      have hkind : e.kind = .file := by simpa [Entry.isFile] using hfile
      rw [Directory.getFileSize, show (content.openAppend _).find _ = some e from hfind]
      obtain ⟨name, kind, size⟩ := e
      obtain rfl : name = _ := hname
      obtain rfl : kind = _ := hkind
      rfl
    · intro t ht
      cases ht
    · intro f hf hconcerns hne
      have hfound := Directory.find_eq_some_iff.mpr ⟨hf, rfl⟩
      rw [Directory.find_openAppend, if_neg hne] at hfound
      exact absurd (hclean f (Directory.of_find_eq_some hfound).1 hconcerns) hne
    · intro t ht
      cases ht
    · intro name hforeign
      have hne : name ≠ activeName config.appName := fun heq => hforeign (.inl heq)
      show (content.openAppend _).find name = content.find name
      rw [Directory.find_openAppend, if_neg hne]

/-- The archive outlives the logger: a new one with the same configuration goes on where the old one stopped. -/
theorem Shows.getFileParams_eq (h : s.Shows a) :
    getFileParams ⟨s.directory, s.appName, some s.maxSizeMib, some s.maxFileTrail⟩ (some (true, s.content)) = .ok s := by
  have hopen : s.content.openAppend (activeName s.appName) = s.content := by
    rw [Directory.openAppend, h.active]
  have hsize : s.content.getFileSize (activeName s.appName) = s.filesize := by
    rw [Directory.getFileSize, h.active, h.filesize]
  simp only [getFileParams, hopen, hsize, h.active, Option.getD_some]
  rfl

/-- **The logger keeps an archive.** Whatever is logged, at whatever times, the directory holds what the archive does, and
    the files that are none of the logger's stay as they are. -/
theorem logAll_refines (hlib : lib.Lawful) (hs : s.Regular) (h : s.Shows a) {entries : List (TimeVal × Nat)}
    (hentries : s.Moderate entries) : (s.logAll lib entries).Shows (a.logAll s.policy entries) :=
  (h.logAll hlib hs hentries).1

/-- A logger that moves the log away before every entry and keeps one, in a directory with another file. -/
def eagerLog : Logger where
  directory := lit "log"
  appName := ⟨lit "eager", by decide⟩
  maxSizeMib := 0
  maxFileTrail := 1
  filesize := 0
  content := {
    entries := [⟨⟨lit "eager.log", by decide⟩, .file, 0⟩, ⟨⟨lit "notes", by decide⟩, .file, 7⟩]
    nodup := by decide }

def eagerArchive : Archive := ⟨0, ∅, fun _ => 0, eagerLog.content.find⟩

theorem eagerLog_regular : eagerLog.Regular := ⟨by decide, by decide +kernel⟩

theorem eagerLog_shows : eagerLog.Shows eagerArchive := by
  have hstart : getFileParams ⟨lit "log", ⟨lit "eager", by decide⟩, some 0, some 1⟩ (some (true, eagerLog.content)) =
      .ok eagerLog := by
    rfl
  exact getFileParams_shows hstart (by decide +kernel)

/-- Three entries, with a clock that is put back after the second one. -/
def backwards : List (TimeVal × Nat) := [(februaryEnds, 3), (marchBegins, 5), (februaryEnds, 2)]

theorem eagerLog_moderate : eagerLog.Moderate backwards := by
  unfold Moderate backwards
  simp only [List.forall_mem_cons]
  decide +kernel

theorem logAll_refines_backwards :
    (eagerLog.logAll simpleRegex backwards).Shows (eagerArchive.logAll eagerLog.policy backwards) :=
  logAll_refines lawful_simpleRegex eagerLog_regular eagerLog_shows eagerLog_moderate

/-- The logs in the directory, by name. -/
def logs (s : Logger) : Set FileName := {name | (∃ e ∈ s.content.entries, e.name = name) ∧ s.Concerns name}

theorem Shows.logs_eq (h : s.Shows a) :
    s.logs = insert (activeName s.appName) (logName s.appName '' (a.times : Set TimeVal)) := by
  ext name
  constructor
  · rintro ⟨⟨e, he, rfl⟩, hconcerns⟩
    by_cases hactive : e.name = activeName s.appName
    · exact .inl hactive
    · obtain ⟨t, ht, hname⟩ := h.only e he hconcerns hactive
      exact .inr ⟨t, ht, hname.symm⟩
  · rintro (rfl | ⟨t, ht, rfl⟩)
    · obtain ⟨he, hname⟩ := Directory.of_find_eq_some h.active
      exact ⟨⟨_, he, hname⟩, concerns_activeName s⟩
    · obtain ⟨he, hname⟩ := Directory.of_find_eq_some (h.rotated t ht)
      exact ⟨⟨_, he, hname⟩, concerns_logName s t⟩

/-- **The latest logs are left.** If the log was moved away at all, the logs after the run are those of the latest of all
    times at which one was moved, in the run or before it, in any order; or those of all times, if the directory is
    spelled with a slash at its end. -/
theorem logs_logAll (hlib : lib.Lawful) (hs : s.Regular) (h : s.Shows a) {entries : List (TimeVal × Nat)}
    (hentries : s.Moderate entries) (hrotated : s.rotations lib entries ≠ ∅) :
    (s.logAll lib entries).logs = insert (activeName s.appName) (logName s.appName ''
      (if s.slashed then a.times ∪ s.rotations lib entries
        else greatest (a.times ∪ s.rotations lib entries) s.maxFileTrail : Finset TimeVal)) := by
  obtain ⟨hshows, hrotations, hconfig⟩ := h.logAll hlib hs hentries
  have hkeep (times : Finset TimeVal) :
      s.policy.keep times = if s.slashed then times else greatest times s.maxFileTrail := by
    unfold Policy.keep policy
    cases s.slashed with
    | true => rfl
    | false => rfl
  rw [hrotations] at hrotated
  rw [hshows.logs_eq, hconfig.2.1, Archive.times_logAll, if_neg hrotated, hkeep, hrotations]

/-- The log that was moved away last is removed at once, as its time is before that of the other one. -/
theorem logs_logAll_backwards :
    (eagerLog.logAll simpleRegex backwards).logs =
      insert (activeName eagerLog.appName) (logName eagerLog.appName '' ({marchBegins} : Finset TimeVal)) := by
  have hrotations : eagerLog.rotations simpleRegex backwards = {februaryEnds, marchBegins} := by decide +kernel
  have hlogs := logs_logAll lawful_simpleRegex eagerLog_regular eagerLog_shows eagerLog_moderate
    (by rw [hrotations]; decide)
  rw [hlogs, hrotations]
  congr 3

/-- The space that the logs take. -/
def usage (s : Logger) : Nat := ((s.content.entries.filter (fun e => s.Concerns e.name)).map (·.size)).sum

theorem Shows.usage_le {n bytes : Nat} (h : s.Shows a) (hwithin : a.Within n bytes) : s.usage ≤ (n + 1) * bytes := by
  generalize hlogs : s.content.entries.filter (fun e => s.Concerns e.name) = logs
  have hmem (e : Entry) (he : e ∈ logs) : e ∈ s.content.entries ∧ s.Concerns e.name := by
    rw [← hlogs, List.mem_filter, decide_eq_true_iff] at he
    exact he
  have hsize (size : Nat) (hsize : size ∈ logs.map (·.size)) : size ≤ bytes := by
    obtain ⟨e, he, rfl⟩ := List.mem_map.mp hsize
    obtain ⟨hentry, hconcerns⟩ := hmem e he
    have hfind := Directory.find_eq_some_iff.mpr ⟨hentry, rfl⟩
    by_cases hactive : e.name = activeName s.appName
    · rw [hactive, h.active, Option.some.injEq] at hfind
      rw [← hfind]
      exact hwithin.active
    · obtain ⟨t, ht, hname⟩ := h.only e hentry hconcerns hactive
      rw [hname, h.rotated t ht, Option.some.injEq] at hfind
      rw [← hfind]
      exact hwithin.small t ht
  -- the names of the logs are different, and each is that of the log or of a time
  have hnodup : (logs.map (·.name)).Nodup := by
    rw [← hlogs]
    exact s.content.nodup.sublist (List.filter_sublist.map _)
  have hsubset : (logs.map (·.name)).toFinset ⊆
      insert (activeName s.appName) (a.times.image (logName s.appName)) := by
    intro name hname
    obtain ⟨e, he, rfl⟩ := List.mem_map.mp (List.mem_toFinset.mp hname)
    obtain ⟨hentry, hconcerns⟩ := hmem e he
    by_cases hactive : e.name = activeName s.appName
    · exact hactive ▸ Finset.mem_insert_self _ _
    · obtain ⟨t, ht, heq⟩ := h.only e hentry hconcerns hactive
      exact Finset.mem_insert_of_mem (heq ▸ Finset.mem_image_of_mem _ ht)
  have hlength : (logs.map (·.size)).length ≤ n + 1 := by
    calc (logs.map (·.size)).length = (logs.map (·.name)).toFinset.card := by
          rw [List.toFinset_card_of_nodup hnodup, List.length_map, List.length_map]
      _ ≤ (insert (activeName s.appName) (a.times.image (logName s.appName))).card := Finset.card_le_card hsubset
      _ ≤ (a.times.image (logName s.appName)).card + 1 := Finset.card_insert_le _ _
      _ ≤ n + 1 := Nat.succ_le_succ (Finset.card_image_le.trans hwithin.few)
  rw [usage, hlogs]
  exact (List.sum_le_card_nsmul _ bytes hsize).trans (Nat.mul_le_mul_right bytes hlength)

/-- **The logs take a limited space**: that of the logs that are kept and of the one that is written, none of which is
    larger than what is configured and the longest entry. -/
theorem usage_logAll_le (hlib : lib.Lawful) (hs : s.Regular) (h : s.Shows a) {entries : List (TimeVal × Nat)}
    (hentries : s.Moderate entries) (hslashed : s.slashed = false) {longest : Nat}
    (hlongest : ∀ e ∈ entries, e.2 ≤ longest)
    (hwithin : a.Within s.maxFileTrail (s.maxSizeMib * 1024 * 1024 + (longest + 1))) :
    (s.logAll lib entries).usage ≤ (s.maxFileTrail + 1) * (s.maxSizeMib * 1024 * 1024 + (longest + 1)) := by
  have htrail : s.policy.trail = some s.maxFileTrail := by
    rw [policy, hslashed]
    rfl
  have hlengths (e : TimeVal × Nat) (he : e ∈ entries) :
      s.policy.bytes + (e.2 + 1) ≤ s.maxSizeMib * 1024 * 1024 + (longest + 1) :=
    Nat.add_le_add_left (Nat.succ_le_succ (hlongest e he)) _
  exact (h.logAll hlib hs hentries).1.usage_le (hwithin.logAll htrail hlengths)

theorem usage_logAll_le_backwards : (eagerLog.logAll simpleRegex backwards).usage ≤ 2 * 6 := by
  have hwithin : eagerArchive.Within eagerLog.maxFileTrail (eagerLog.maxSizeMib * 1024 * 1024 + (5 + 1)) :=
    ⟨Nat.zero_le _, Nat.zero_le _, fun _ _ => Nat.zero_le _⟩
  exact usage_logAll_le lawful_simpleRegex eagerLog_regular eagerLog_shows eagerLog_moderate (by decide)
    (by decide) hwithin

end Logger
end Dodo.Common
