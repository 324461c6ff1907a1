import GuestStorage.Tree.Desk
import GuestStorage.Tree.Mount

namespace GuestStorage.Tree

variable {σ F D : Type} [Backing σ F D] {s : σ}

def AnyView.project : AnyView F D → AnyView F D
  | .file view => .file view.project
  | .directory view => .directory view.project

def AnyView.isWritable (s : σ) : AnyView F D → Bool
  | .file view => view.isWritable s
  | .directory view => view.isWritable s

theorem AnyView.not_writable_of_readOnly {view : AnyView F D} (projected : view.readOnly = true) :
    view.isWritable s = false := by
  cases view with
  | file view =>
    simp only [AnyView.readOnly] at projected
    simp [AnyView.isWritable, FileView.isWritable, projected]
  | directory view =>
    simp only [AnyView.readOnly] at projected
    simp [AnyView.isWritable, DirectoryView.isWritable, projected]

def FileCall.isChange : FileCall → Bool
  | .write _ _ | .resize _ | .rename _ => true
  | .info | .read _ _ | .readAll | .project | .parent => false

def DirectoryCall.isChange : DirectoryCall → Bool
  | .createFile _ | .createFileAt _ | .createFileFromTop _ | .createSubdirectory _
  | .createDirectoryAt _ | .createDirectoryFromTop _ | .deleteFile _ | .deleteSubdirectory _
  | .deleteTree _ | .cleanSubdirectory _ | .rename _ | .copyFile _ _ => true
  | .info | .files | .subdirectories | .file _ | .fileAt _ | .fileFromTop _ | .subdirectory _
  | .directoryAt _ | .directoryFromTop _ | .parent | .project => false

def Call.isChange : Call → Bool
  | .file call => call.isChange
  | .directory call => call.isChange

def Yield.views : Yield F D → List (AnyView F D)
  | .found view | .renamed view => view.toList
  | .listed views => views
  | .itself _ | .described | .bytes .. | .count .. | .flag _ => []

def Yield.isRefusal : Yield F D → Bool
  | .found view | .renamed view => view.isNone
  | .count taken => taken == 0
  | .flag done => !done
  | .itself _ | .listed _ | .described | .bytes .. => false

namespace DirectoryView

variable {dir : DirectoryView D}

theorem readOnly_of_subdirectory? {name : String} {sub : DirectoryView D}
    (found : dir.subdirectory? s name = some sub) : sub.readOnly = dir.readOnly := by
  obtain ⟨node, _, rfl⟩ := Option.map_eq_some_iff.mp found
  rfl

theorem readOnly_of_file? {name : String} {file : FileView F} (found : dir.file? s name = some file) :
    file.readOnly = dir.readOnly := by
  obtain ⟨node, _, rfl⟩ := Option.map_eq_some_iff.mp found
  rfl

theorem readOnly_of_parent? {parent : DirectoryView D} (found : dir.parent? s = some parent) :
    parent.readOnly = dir.readOnly := by
  obtain ⟨node, _, rfl⟩ := Option.map_eq_some_iff.mp found
  rfl

theorem readOnly_of_descend? {names : List String} {sub : DirectoryView D}
    (found : dir.descend? s names = some sub) : sub.readOnly = dir.readOnly := by
  induction names generalizing dir with
  | nil =>
    cases found
    rfl
  | cons name rest ih =>
    obtain ⟨next, first, others⟩ := Option.bind_eq_some_iff.mp found
    rw [ih others, readOnly_of_subdirectory? first]

theorem readOnly_climb (steps : Nat) (dir : DirectoryView D) :
    (climb s steps dir).readOnly = dir.readOnly := by
  induction steps generalizing dir with
  | zero => rfl
  | succ steps ih =>
    rw [climb]
    split
    · rfl
    · rename_i parent found
      rw [ih, readOnly_of_parent? found]

theorem readOnly_top (dir : DirectoryView D) : (dir.top s).readOnly = dir.readOnly :=
  readOnly_climb _ dir

theorem readOnly_of_fileAt? {path : String} {file : FileView F}
    (found : dir.fileAt? s path = some file) : file.readOnly = dir.readOnly := by
  obtain ⟨last, _, inner⟩ := Option.bind_eq_some_iff.mp found
  obtain ⟨holder, reached, held⟩ := Option.bind_eq_some_iff.mp inner
  rw [readOnly_of_file? held, readOnly_of_descend? reached]

section Projected

variable (projected : dir.readOnly = true)
include projected

theorem createFile_of_readOnly (name : String) : dir.createFile s name = (none, s) := by
  simp [createFile, projected]

theorem createSubdirectory_of_readOnly (name : String) : dir.createSubdirectory s name = (none, s) := by
  simp [createSubdirectory, projected]

theorem deleteFile_of_readOnly (name : String) : dir.deleteFile s name = (false, s) := by
  simp [deleteFile, projected]

theorem deleteSubdirectory_of_readOnly (name : String) :
    dir.deleteSubdirectory s name = (false, s) := by
  simp [deleteSubdirectory, projected]

theorem rename_of_readOnly (name : String) : dir.rename s name = (none, s) := by
  simp [rename, projected]

theorem isWritable_of_readOnly : dir.isWritable s = false := by simp [isWritable, projected]

theorem cleanSubdirectory_of_readOnly (name : String) : dir.cleanSubdirectory s name = (false, s) := by
  unfold cleanSubdirectory
  cases Backing.reach s dir.node <;> simp [cleanWithin, projected]

theorem deleteTree_of_readOnly (name : String) : dir.deleteTree s name = (false, s) := by
  rw [deleteTree, cleanSubdirectory_of_readOnly projected]

theorem createDirectoryAt_of_readOnly (path : String) : dir.createDirectoryAt s path = (none, s) := by
  simp [createDirectoryAt, projected]

theorem createFileAt_of_readOnly (path : String) : dir.createFileAt s path = (none, s) := by
  simp [createFileAt, projected]

theorem createDirectoryFromTop_of_readOnly (path : String) :
    dir.createDirectoryFromTop s path = (none, s) :=
  createDirectoryAt_of_readOnly ((readOnly_top dir).trans projected) path

theorem createFileFromTop_of_readOnly (path : String) : dir.createFileFromTop s path = (none, s) :=
  createFileAt_of_readOnly ((readOnly_top dir).trans projected) path

theorem copyFile_of_readOnly (source target : String) : dir.copyFile s source target = (false, s) := by
  simp [copyFile, projected]

end Projected

end DirectoryView

section Harmless

omit [Backing σ F D]

structure Harmless (s : σ) (change : Bool) (outcome : Yield F D × σ) : Prop where
  kept : outcome.2 = s
  refused : change = true → outcome.1.isRefusal = true
  projected : ∀ view ∈ outcome.1.views, view.readOnly = true

theorem Harmless.foundFile {found : Option (FileView F)} (projected : ∀ file ∈ found, file.readOnly = true) :
    Harmless (D := D) s false (foundFile (found, s)) := by
  refine ⟨rfl, by simp, ?_⟩
  intro view listed
  simp only [Tree.foundFile, Yield.views, Option.mem_toList, Option.map_eq_some_iff] at listed
  obtain ⟨file, found, rfl⟩ := listed
  exact projected file found

theorem Harmless.foundDirectory {found : Option (DirectoryView D)}
    (projected : ∀ dir ∈ found, dir.readOnly = true) :
    Harmless (F := F) s false (foundDirectory (found, s)) := by
  refine ⟨rfl, by simp, ?_⟩
  intro view listed
  simp only [Tree.foundDirectory, Yield.views, Option.mem_toList, Option.map_eq_some_iff] at listed
  obtain ⟨dir, found, rfl⟩ := listed
  exact projected dir found

theorem Harmless.refusal {yield : Yield F D} (refused : yield.isRefusal = true)
    (empty : yield.views = []) : Harmless s true (yield, s) :=
  ⟨rfl, fun _ => refused, by simp [empty]⟩

theorem Harmless.noFile {step : Option (FileView F) × σ} (refused : step = (none, s)) :
    Harmless (D := D) s true (Tree.foundFile step) := by
  subst refused
  exact .refusal rfl rfl

theorem Harmless.noDirectory {step : Option (DirectoryView D) × σ} (refused : step = (none, s)) :
    Harmless (F := F) s true (Tree.foundDirectory step) := by
  subst refused
  exact .refusal rfl rfl

theorem Harmless.notDone {step : Bool × σ} (refused : step = (false, s)) :
    Harmless (F := F) (D := D) s true (flagged step) := by
  subst refused
  exact .refusal rfl rfl

theorem Harmless.silent {yield : Yield F D} (empty : yield.views = []) :
    Harmless s false (yield, s) :=
  ⟨rfl, by simp, by simp [empty]⟩

end Harmless

theorem FileView.call_projected {view : FileView F} (projected : view.readOnly = true)
    (call : FileCall) : Harmless (D := D) s call.isChange (view.call s call) := by
  cases call with
  | info | read | readAll | project => exact .silent rfl
  | write offset data =>
    simp only [FileView.call, FileView.write, projected, ↓reduceIte]
    exact .refusal rfl rfl
  | resize size =>
    simp only [FileView.call, FileView.resize, projected, ↓reduceIte]
    exact .refusal rfl rfl
  | rename name =>
    simp only [FileView.call, FileView.rename, projected, ↓reduceIte]
    exact .refusal rfl rfl
  | parent =>
    apply Harmless.foundDirectory
    intro dir found
    obtain ⟨node, _, rfl⟩ := Option.map_eq_some_iff.mp found
    exact projected

theorem DirectoryView.call_projected {view : DirectoryView D} (projected : view.readOnly = true)
    (call : DirectoryCall) : Harmless s call.isChange (view.call s call) := by
  cases call with
  | info | project => exact .silent rfl
  | files =>
    refine ⟨rfl, by simp [DirectoryCall.isChange], ?_⟩
    simp [DirectoryView.call, Yield.views, DirectoryView.files, AnyView.readOnly, projected]
  | subdirectories =>
    refine ⟨rfl, by simp [DirectoryCall.isChange], ?_⟩
    simp [DirectoryView.call, Yield.views, DirectoryView.subdirectories, AnyView.readOnly, projected]
  | file name => exact .foundFile fun _ found => (readOnly_of_file? found).trans projected
  | fileAt path => exact .foundFile fun _ found => (readOnly_of_fileAt? found).trans projected
  | fileFromTop path =>
    exact .foundFile fun _ found =>
      (readOnly_of_fileAt? found).trans ((readOnly_top view).trans projected)
  | subdirectory name =>
    exact .foundDirectory fun _ found => (readOnly_of_subdirectory? found).trans projected
  | directoryAt path =>
    simp only [DirectoryView.call]
    split
    · exact .silent rfl
    · exact .foundDirectory fun _ found => (readOnly_of_descend? found).trans projected
  | directoryFromTop path =>
    exact .foundDirectory fun _ found =>
      (readOnly_of_descend? found).trans ((readOnly_top view).trans projected)
  | parent => exact .foundDirectory fun _ found => (readOnly_of_parent? found).trans projected
  | createFile name => exact .noFile (createFile_of_readOnly projected name)
  | createFileAt path => exact .noFile (createFileAt_of_readOnly projected path)
  | createFileFromTop path => exact .noFile (createFileFromTop_of_readOnly projected path)
  | createSubdirectory name => exact .noDirectory (createSubdirectory_of_readOnly projected name)
  | createDirectoryAt path => exact .noDirectory (createDirectoryAt_of_readOnly projected path)
  | createDirectoryFromTop path => exact .noDirectory (createDirectoryFromTop_of_readOnly projected path)
  | deleteFile name => exact .notDone (deleteFile_of_readOnly projected name)
  | deleteSubdirectory name => exact .notDone (deleteSubdirectory_of_readOnly projected name)
  | deleteTree name => exact .notDone (deleteTree_of_readOnly projected name)
  | cleanSubdirectory name => exact .notDone (cleanSubdirectory_of_readOnly projected name)
  | rename name =>
    simp only [DirectoryView.call, rename_of_readOnly projected]
    exact .refusal rfl rfl
  | copyFile source target => exact .notDone (copyFile_of_readOnly projected source target)

end GuestStorage.Tree
