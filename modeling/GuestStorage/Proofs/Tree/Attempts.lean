import GuestStorage.Tree.Mount
import Mathlib.Data.List.Basic

namespace GuestStorage.Tree.DirectoryView

variable {σ F D : Type} [Backing σ F D] {s : σ} {dir : DirectoryView D} {path : String}

theorem createDirectoryAt_eq (direct : dir.readOnly = false) :
    dir.createDirectoryAt s path =
      if Path.components path = [] then (none, s) else ensureAlong (Path.components path) s dir := by
  rw [createDirectoryAt, direct, if_neg Bool.false_ne_true]
  split
  · rename_i bare
    rw [if_pos bare]
  · rename_i proper
    rw [if_neg proper]

theorem createFileAt_of_nil (direct : dir.readOnly = false) (bare : Path.components path = []) :
    dir.createFileAt s path = (none, s) := by
  simp [createFileAt, direct, bare]

theorem createFileAt_of_concat {front : List String} {last : String} (direct : dir.readOnly = false)
    (parts : Path.components path = front ++ [last]) :
    dir.createFileAt s path =
      match ensureAlong front s dir with
      | (none, s') => (none, s')
      | (some holder, s') => holder.createFile s' last := by
  rcases made : ensureAlong front s dir with ⟨_ | holder, s'⟩ <;>
    simp only [createFileAt, direct, parts, Bool.false_eq_true, if_false, List.getLast?_concat, List.dropLast_concat,
      made]

end GuestStorage.Tree.DirectoryView

namespace GuestStorage.Tree.Mount

variable {σ F D : Type} [Backing σ F D] {s : σ} {mount : Mount D} {path : String}

theorem locateAlong_eq_ok {names : List String} {dir : DirectoryView D} {name : String} :
    mount.locateAlong s names = .ok (dir, name) ↔
      ∃ front, names = front ++ [name] ∧ mount.root.descend? s front = some dir := by
  constructor
  · intro located
    rw [locateAlong] at located
    split at located
    · cases located
    · rename_i last ends
      split at located
      · cases located
      · rename_i holder reached
        cases located
        exact ⟨names.dropLast, (List.dropLast_append_getLast? _ ends).symm, reached⟩
  · rintro ⟨front, rfl, reached⟩
    rw [locateAlong, List.getLast?_concat, List.dropLast_concat]
    simp only [reached]

theorem locate_eq_ok {dir : DirectoryView D} {name : String} :
    mount.locate s path = .ok (dir, name) ↔
      ∃ front, normalize path = .ok (front ++ [name]) ∧ mount.root.descend? s front = some dir := by
  rw [locate]
  cases normal : normalize path with
  | error e => simp [Except.bind]
  | ok names =>
    simp only [Except.bind, locateAlong_eq_ok, Except.ok.injEq]

theorem file?_of_openFile {mode : Wire.OpenMode} {file : FileView F} (opened : mount.openFile s path mode = .ok file) :
    ∃ dir name, mount.locate s path = .ok (dir, name) ∧ dir.file? s name = some file := by
  rw [openFile] at opened
  split at opened
  · cases opened
  · rename_i dir name located
    split at opened
    · cases opened
    · rename_i found held
      split at opened
      · cases opened
      · split at opened
        · cases opened
        · cases opened
          exact ⟨dir, name, located, held⟩

/-- A request for a path finds the directory that holds its last name, and takes a step there if nothing bars it. -/
def attempt (s : σ) (mount : Mount D) (path : String) (fault : Error) (barred : DirectoryView D → String → Bool)
    (step : DirectoryView D → String → Except Error Unit × σ) : Except Error Unit × σ :=
  match mount.locate s path with
  | .error e => (.error e, s)
  | .ok (dir, name) => if barred dir name then (.error fault, s) else step dir name

def told (dir : DirectoryView D) (step : Bool × σ) : Except Error Unit × σ :=
  (orRefused step.2 dir step.1, step.2)

def createSized (s : σ) (dir : DirectoryView D) (name : String) (size : Nat) : Except Error Unit × σ :=
  match dir.createFile s name with
  | (none, s) => (.error (.ofRefusal (dir.isWritable s)), s)
  | (some file, s) =>
    match file.resize s size with
    | (true, s) => (.ok (), s)
    | (false, s) => (.error (.ofRefusal (file.isWritable s)), (dir.deleteFile s name).2)

theorem createFile_eq_attempt (s : σ) (mount : Mount D) (path : String) (size : Nat) :
    mount.createFile s path size = mount.attempt s path .pathAlreadyExists (fun dir name => dir.hasEntry s name)
      fun dir name => createSized s dir name size := rfl

theorem createDirectory_eq_attempt (s : σ) (mount : Mount D) (path : String) :
    mount.createDirectory s path = mount.attempt s path .pathAlreadyExists (fun dir name => dir.hasEntry s name)
      fun dir name => told dir ((dir.createSubdirectory s name).map Option.isSome id) := rfl

theorem deleteFile_eq_attempt (s : σ) (mount : Mount D) (path : String) :
    mount.deleteFile s path = mount.attempt s path .entityNotFound (fun dir name => (dir.file? s name).isNone)
      fun dir name => told dir (dir.deleteFile s name) := rfl

theorem onSubdirectory_eq_attempt (step : σ → DirectoryView D → String → Bool × σ) (s : σ) (mount : Mount D)
    (path : String) :
    mount.onSubdirectory step s path = mount.attempt s path .entityNotFound
      (fun dir name => (dir.subdirectory? s name).isNone) fun dir name => told dir (step s dir name) := rfl

theorem told_of_failed {dir : DirectoryView D} {step : Bool × σ} (failed : step.1 = false) :
    told dir step = (.error (.ofRefusal (dir.isWritable step.2)), step.2) := by
  simp [told, orRefused, failed]

theorem told_eq_ok {dir : DirectoryView D} {step : Bool × σ} : (told dir step).1 = .ok () ↔ step.1 = true := by
  cases done : step.1 <;> simp [told, orRefused, done]

/-- A request for a path is refused with nothing done, or it comes to its step where the path leads. -/
theorem attempt_cases (s : σ) (mount : Mount D) (path : String) (fault : Error)
    (barred : DirectoryView D → String → Bool) (step : DirectoryView D → String → Except Error Unit × σ) :
    (∃ e, mount.attempt s path fault barred step = (.error e, s)) ∨
      ∃ dir name, mount.locate s path = .ok (dir, name) ∧ barred dir name = false ∧
        mount.attempt s path fault barred step = step dir name := by
  rw [attempt]
  split
  · exact .inl ⟨_, rfl⟩
  · rename_i dir name located
    split
    · exact .inl ⟨_, rfl⟩
    · rename_i free
      exact .inr ⟨dir, name, located, Bool.eq_false_iff.mpr free, rfl⟩

variable {fault : Error} {barred : DirectoryView D → String → Bool}
  {step : DirectoryView D → String → Except Error Unit × σ} {dir : DirectoryView D} {name : String}

theorem attempt_of_located (located : mount.locate s path = .ok (dir, name)) (free : barred dir name = false) :
    mount.attempt s path fault barred step = step dir name := by
  simp only [attempt, located, free, Bool.false_eq_true, if_false]

theorem attempt_fails (located : mount.locate s path = .ok (dir, name)) (fails : ∃ e, (step dir name).1 = .error e) :
    ∃ e, (mount.attempt s path fault barred step).1 = .error e := by
  rcases mount.attempt_cases s path fault barred step with ⟨e, refused⟩ | ⟨home, last, located', -, taken⟩
  · exact ⟨e, by rw [refused]⟩
  · obtain ⟨rfl, rfl⟩ := Prod.mk.inj (Except.ok.inj (located.symm.trans located'))
    rw [taken]
    exact fails

theorem attempt_refused
    (each : ∀ dir name, mount.locate s path = .ok (dir, name) → barred dir name = false →
      ∃ e, step dir name = (.error e, s)) :
    ∃ e, mount.attempt s path fault barred step = (.error e, s) := by
  rcases mount.attempt_cases s path fault barred step with refused | ⟨dir, name, located, free, taken⟩
  · exact refused
  · rw [taken]
    exact each dir name located free

end GuestStorage.Tree.Mount
