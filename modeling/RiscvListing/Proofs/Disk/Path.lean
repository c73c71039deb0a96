import RiscvListing.Disk.Path
import RiscvListing.Proofs.Elf.Reading

namespace RiscvListing

namespace Path

theorem split_ne_nil (text : List Char) : split text ≠ [] := by
  fun_cases split text
  all_goals exact List.cons_ne_nil _ _

theorem of_getLast?_split {text : List Char} (last : (split text).getLast? = some []) :
    text = [] ∨ text.getLast? = some '/' := by
  fun_induction split text with
  | case1 => exact .inl rfl
  | case2 rest ih =>
    right
    rw [List.getLast?_cons_of_ne_nil (split_ne_nil rest)] at last
    rcases ih last with rfl | slash
    · rfl
    · rw [List.getLast?_cons, slash, Option.getD_some]
  | case3 rest c first others _ found ih =>
    cases others with
    | nil => simp at last
    | cons other others =>
      right
      rw [List.getLast?_cons_cons] at last
      rcases ih (by rw [found, List.getLast?_cons_cons, last]) with rfl | slash
      · simp [split] at found
      · rw [List.getLast?_cons, slash, Option.getD_some]
  | case4 rest c _ found => exact absurd found (split_ne_nil rest)

theorem exists_names_eq_append {path : String} (given : path ≠ "")
    (closed : path.toList.getLast? ≠ some '/') :
    ∃ before name, names path = before ++ [name] ∧ name ≠ "" := by
  obtain ⟨before, last, parts⟩ : ∃ before last, split path.toList = before ++ [last] :=
    ⟨_, _, (List.dropLast_concat_getLast (split_ne_nil path.toList)).symm⟩
  refine ⟨before.map String.ofList, String.ofList last, ?_, ?_⟩
  · rw [names, parts, List.map_append, List.map_singleton]
  · intro empty
    obtain rfl : last = [] := by simpa using empty
    rcases of_getLast?_split (by rw [parts, List.getLast?_concat]) with nothing | slash
    · exact given (String.toList_eq_nil_iff.mp nothing)
    · exact closed slash

end Path

namespace Disk

open Elf (bind_eq_ok_iff)

/-- The place that a path leads to, whether or not something stands there. -/
def locate (disk : Disk) (path : String) : Except FileFault Place := do
  checkPath path
  (Path.names path).foldlM disk.step (disk.start path)

variable {disk : Disk}

theorem find_eq_ok_iff (path : String) (node : Node) :
    disk.find path = .ok node ↔
      ∃ place, disk.locate path = .ok place ∧ disk.node place = some node := by
  constructor
  · intro found
    obtain ⟨_, checked, walked⟩ := (bind_eq_ok_iff _ _ _).mp found
    obtain ⟨place, reached, there⟩ := (bind_eq_ok_iff _ _ _).mp walked
    have located : disk.locate path = .ok place :=
      (bind_eq_ok_iff _ _ _).mpr ⟨_, checked, reached⟩
    cases present : disk.node place with
    | none => simp [present] at there
    | some other =>
      rw [present] at there
      cases there
      exact ⟨place, located, present⟩
  · rintro ⟨place, located, present⟩
    obtain ⟨_, checked, reached⟩ := (bind_eq_ok_iff _ _ _).mp located
    simp only [find, checked, reached, present, bind, Except.bind]
    rfl

theorem checkDirectory_eq_ok_iff (place : Place) :
    disk.checkDirectory place = .ok () ↔ disk.node place = some .directory := by
  rw [checkDirectory]
  split
  next absent => simp [absent]
  next bytes file => simp [file]
  next directory => simp [directory]

theorem directory_of_step {place next : Place} {name : String}
    (stepped : disk.step place name = .ok next) : disk.node place = some .directory := by
  obtain ⟨_, checked, -⟩ := (bind_eq_ok_iff _ _ _).mp stepped
  exact (checkDirectory_eq_ok_iff place).mp checked

theorem step_of_directory {place : Place} (directory : disk.node place = some .directory)
    (name : String) :
    disk.step place name =
      if name = "" ∨ name = "." then .ok place
      else if name = ".." then .ok place.dropLast
      else (checkName name).map fun _ => place ++ [name] := by
  rw [step, (checkDirectory_eq_ok_iff place).mpr directory]
  rfl

/-- A disk that has all directories of another one, and the same home. -/
structure Keeps (disk other : Disk) : Prop where
  home : other.home = disk.home
  directories : ∀ place, disk.node place = some .directory → other.node place = some .directory

theorem keeps_write {place : Place} (free : disk.node place ≠ some .directory) (bytes : Bytes) :
    disk.Keeps (disk.write place bytes) := by
  refine ⟨rfl, fun other directory => ?_⟩
  have apart : other ≠ place := by
    rintro rfl
    exact free directory
  rw [node_write, if_neg apart, directory]

theorem Keeps.start {other : Disk} (keeps : disk.Keeps other) (path : String) :
    other.start path = disk.start path := by
  rw [Disk.start, Disk.start, keeps.home]

theorem Keeps.foldlM_step {other : Disk} (keeps : disk.Keeps other) {names : List String}
    {place last : Place} (walked : names.foldlM disk.step place = .ok last) :
    names.foldlM other.step place = .ok last := by
  induction names generalizing place with
  | nil => exact walked
  | cons name names ih =>
    rw [List.foldlM_cons] at walked ⊢
    obtain ⟨next, stepped, later⟩ := (bind_eq_ok_iff _ _ _).mp walked
    have before := directory_of_step stepped
    refine (bind_eq_ok_iff _ _ _).mpr ⟨next, ?_, ih later⟩
    rw [step_of_directory (keeps.directories place before), ← step_of_directory before, stepped]

theorem directory_of_foldlM_step {names : List String} {place last : Place}
    (walked : names.foldlM disk.step place = .ok last)
    (directory : disk.node last = some .directory) : disk.node place = some .directory := by
  cases names with
  | nil =>
    cases walked
    exact directory
  | cons name names =>
    rw [List.foldlM_cons] at walked
    obtain ⟨next, stepped, -⟩ := (bind_eq_ok_iff _ _ _).mp walked
    exact directory_of_step stepped

theorem foldlM_step_of_filter {names : List String} {place last : Place}
    (walked : (names.filter (· ≠ "")).foldlM disk.step place = .ok last)
    (directory : disk.node last = some .directory) : names.foldlM disk.step place = .ok last := by
  induction names generalizing place with
  | nil => exact walked
  | cons name names ih =>
    rw [List.foldlM_cons]
    by_cases empty : name = ""
    · subst empty
      have later : (names.filter (· ≠ "")).foldlM disk.step place = .ok last := walked
      rw [step_of_directory (directory_of_foldlM_step later directory), if_pos (.inl rfl)]
      exact ih later
    · rw [List.filter_cons_of_pos (by simpa using empty), List.foldlM_cons] at walked
      obtain ⟨next, stepped, later⟩ := (bind_eq_ok_iff _ _ _).mp walked
      rw [stepped]
      exact ih later

/-- What it takes to write at the end of a path: a directory and a proper name of a file in it. -/
structure Grants (disk : Disk) (path : String) (before : List String) (name : String)
    (parent : Place) : Prop where
  usable : checkPath path = .ok ()
  names : Path.names path = before ++ [name]
  walked : before.foldlM disk.step (disk.start path) = .ok parent
  directory : disk.node parent = some .directory
  proper : ¬(name = "" ∨ name = ".") ∧ name ≠ ".."
  short : checkName name = .ok ()
  free : disk.node (parent ++ [name]) ≠ some .directory

theorem ne_empty_of_checkPath {path : String} (usable : checkPath path = .ok ()) : path ≠ "" := by
  rintro rfl
  cases usable

theorem grants_of_writable {path : String} {place : Place}
    (writable : disk.writable path = .ok place) :
    ∃ before name parent, disk.Grants path before name parent ∧ place = parent ++ [name] := by
  obtain ⟨_, usable, writable⟩ := (bind_eq_ok_iff _ _ _).mp writable
  obtain ⟨parent, walked, writable⟩ := (bind_eq_ok_iff _ _ _).mp writable
  obtain ⟨_, checked, writable⟩ := (bind_eq_ok_iff _ _ _).mp writable
  have directory := (checkDirectory_eq_ok_iff parent).mp checked
  have nonempty := ne_empty_of_checkPath usable
  by_cases slash : path.toList.getLast? = some '/'
  · split at writable
    · cases writable
    · rw [if_pos (.inr (.inr slash))] at writable
      cases writable
  · obtain ⟨before, name, names, given⟩ := Path.exists_names_eq_append nonempty slash
    have filtered : (Path.names path).filter (· ≠ "") = before.filter (· ≠ "") ++ [name] := by
      rw [names, List.filter_append, List.filter_cons_of_pos (by simpa using given)]
      rfl
    rw [filtered, List.dropLast_concat] at walked
    simp only [filtered, List.getLast?_concat] at writable
    split at writable
    next => cases writable
    next plain =>
      obtain ⟨_, short, writable⟩ := (bind_eq_ok_iff _ _ _).mp writable
      split at writable
      next => cases writable
      next free =>
        cases writable
        have proper : ¬(name = "" ∨ name = ".") ∧ name ≠ ".." :=
          ⟨fun either => either.elim given fun dot => plain (.inl dot),
            fun dots => plain (.inr (.inl dots))⟩
        exact ⟨before, name, parent, ⟨usable, names, foldlM_step_of_filter walked directory,
          directory, proper, short, free⟩, rfl⟩

theorem Keeps.locate {other : Disk} (keeps : disk.Keeps other) {path : String} {place : Place}
    (writable : disk.writable path = .ok place) : other.locate path = .ok place := by
  obtain ⟨before, name, parent, grants, rfl⟩ := grants_of_writable writable
  have there := keeps.directories parent grants.directory
  have move : other.step parent name = .ok (parent ++ [name]) := by
    rw [step_of_directory there, if_neg grants.proper.1, if_neg grants.proper.2, grants.short]
    rfl
  have arrived : [name].foldlM other.step parent = .ok (parent ++ [name]) := by
    rw [List.foldlM_cons, move]
    rfl
  rw [Disk.locate, grants.usable, grants.names, List.foldlM_append, keeps.start,
    keeps.foldlM_step grants.walked]
  exact arrived

theorem free_of_writable {path : String} {place : Place}
    (writable : disk.writable path = .ok place) : disk.node place ≠ some .directory := by
  obtain ⟨before, name, parent, grants, rfl⟩ := grants_of_writable writable
  exact grants.free

theorem read_write {path : String} {place : Place} (writable : disk.writable path = .ok place)
    (bytes : Bytes) : (disk.write place bytes).read path = .ok bytes := by
  have kept := keeps_write (free_of_writable writable) bytes
  have there : (disk.write place bytes).node place = some (.file bytes) := by
    rw [node_write, if_pos rfl]
  have found := (find_eq_ok_iff path _).mpr ⟨place, kept.locate writable, there⟩
  rw [read, found]
  rfl

end Disk

end RiscvListing
