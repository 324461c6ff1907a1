import GuestStorage.Memory.Guarded
import GuestStorage.Proofs.Memory.Changes
import GuestStorage.Tree.Mount

namespace GuestStorage.Memory

open GuestStorage.Tree

/-- What such storage tells of its nodes it reads off the store. A change is refused or carried out; of
    a write a first part may be passed on alone. -/
class Stored (σ : Type) [Backing σ FileId DirectoryId] where
  store : σ → Store
  fileName (s : σ) (file : FileId) : Backing.fileName s file = (store s).fileName file
  fileSize (s : σ) (file : FileId) : Backing.fileSize s file = ((store s).fileBytes file).length
  read (s : σ) (file : FileId) (offset length : Nat) :
    Backing.read s file offset length = (store s).read file offset length
  directoryName (s : σ) (dir : DirectoryId) : Backing.directoryName s dir = (store s).directoryName dir
  directoryPath (s : σ) (dir : DirectoryId) : Backing.directoryPath s dir = (store s).directoryPath dir
  files (s : σ) (dir : DirectoryId) : Backing.files s dir = (store s).files dir
  subdirectories (s : σ) (dir : DirectoryId) : Backing.subdirectories s dir = (store s).subdirectories dir
  file? (s : σ) (dir : DirectoryId) (name : String) : Backing.file? s dir name = (store s).file? dir name
  subdirectory? (s : σ) (dir : DirectoryId) (name : String) :
    Backing.subdirectory? s dir name = (store s).subdirectory? dir name
  reach (s : σ) (dir : DirectoryId) : Backing.reach s dir = (store s).reach
  createFile (s : σ) (dir : DirectoryId) (name : String) :
    ∃ s', Backing.createFile s dir name = (none, s') ∧ store s' = store s ∨
      ∃ file, Backing.createFile s dir name = (some file, s') ∧
        (store s).createFile dir name = (some file, store s')
  createSubdirectory (s : σ) (dir : DirectoryId) (name : String) :
    ∃ s', Backing.createSubdirectory s dir name = (none, s') ∧ store s' = store s ∨
      ∃ sub, Backing.createSubdirectory s dir name = (some sub, s') ∧
        (store s).createSubdirectory dir name = (some sub, store s')
  deleteFile (s : σ) (dir : DirectoryId) (name : String) :
    ∃ s', Backing.deleteFile s dir name = (false, s') ∧ store s' = store s ∨
      Backing.deleteFile s dir name = (true, s') ∧ (store s).deleteFile dir name = (true, store s')
  deleteSubdirectory (s : σ) (dir : DirectoryId) (name : String) :
    ∃ s', Backing.deleteSubdirectory s dir name = (false, s') ∧ store s' = store s ∨
      Backing.deleteSubdirectory s dir name = (true, s') ∧
        (store s).deleteSubdirectory dir name = (true, store s')
  renameFile (s : σ) (file : FileId) (name : String) :
    ∃ s', Backing.renameFile s file name = (none, s') ∧ store s' = store s ∨
      Backing.renameFile s file name = (some file, s') ∧
        (store s).renameFile file name = (true, store s')
  renameDirectory (s : σ) (dir : DirectoryId) (name : String) :
    ∃ s', Backing.renameDirectory s dir name = (none, s') ∧ store s' = store s ∨
      Backing.renameDirectory s dir name = (some dir, s') ∧
        (store s).renameDirectory dir name = (true, store s')
  resize (s : σ) (file : FileId) (size : Nat) :
    ∃ s', Backing.resize s file size = (false, s') ∧ store s' = store s ∨
      Backing.resize s file size = (true, s') ∧ (store s).resize file size = (true, store s')
  write (s : σ) (file : FileId) (offset : Nat) (data : Bytes) :
    ∃ sent count s', sent <+: data ∧ Backing.write s file offset data = (count, s') ∧
      (store s).write file offset sent = (count, store s')

namespace Store

variable {s : Store}

theorem createFile_cases (s : Store) (dir : DirectoryId) (name : String) :
    s.createFile dir name = (none, s) ∨ ∃ file after, s.createFile dir name = (some file, after) := by
  by_cases accepts : s.acceptsChild dir name = true
  · obtain ⟨file, after, created, -⟩ := createFile_adds accepts
    exact .inr ⟨file, after, created⟩
  · exact .inl (createFile_refused (by simpa using accepts))

theorem createSubdirectory_cases (s : Store) (dir : DirectoryId) (name : String) :
    s.createSubdirectory dir name = (none, s) ∨
      ∃ sub after, s.createSubdirectory dir name = (some sub, after) := by
  by_cases accepts : s.acceptsChild dir name = true
  · obtain ⟨sub, after, created, -⟩ := createSubdirectory_adds accepts
    exact .inr ⟨sub, after, created⟩
  · exact .inl (createSubdirectory_refused (by simpa using accepts))

theorem deleteFile_cases (s : Store) (dir : DirectoryId) (name : String) :
    s.deleteFile dir name = (false, s) ∨ ∃ after, s.deleteFile dir name = (true, after) := by
  unfold deleteFile
  repeat' split
  all_goals simp

theorem deleteSubdirectory_cases (s : Store) (dir : DirectoryId) (name : String) :
    s.deleteSubdirectory dir name = (false, s) ∨
      ∃ after, s.deleteSubdirectory dir name = (true, after) := by
  unfold deleteSubdirectory
  repeat' split
  all_goals simp

theorem renameFile_cases (s : Store) (file : FileId) (name : String) :
    s.renameFile file name = (false, s) ∨ ∃ after, s.renameFile file name = (true, after) := by
  unfold renameFile
  split <;> simp

theorem renameDirectory_cases (s : Store) (dir : DirectoryId) (name : String) :
    s.renameDirectory dir name = (false, s) ∨ ∃ after, s.renameDirectory dir name = (true, after) := by
  unfold renameDirectory
  split <;> simp

theorem resize_cases (s : Store) (file : FileId) (size : Nat) :
    s.resize file size = (false, s) ∨ ∃ after, s.resize file size = (true, after) := by
  unfold resize
  split <;> simp

end Store

instance : Stored Store where
  store s := s
  fileName _ _ := rfl
  fileSize _ _ := rfl
  read _ _ _ _ := rfl
  directoryName _ _ := rfl
  directoryPath _ _ := rfl
  files _ _ := rfl
  subdirectories _ _ := rfl
  file? _ _ _ := rfl
  subdirectory? _ _ _ := rfl
  reach _ _ := rfl
  createFile s dir name := by
    rcases s.createFile_cases dir name with refused | ⟨file, after, created⟩
    · exact ⟨s, .inl ⟨refused, rfl⟩⟩
    · exact ⟨after, .inr ⟨file, created, created⟩⟩
  createSubdirectory s dir name := by
    rcases s.createSubdirectory_cases dir name with refused | ⟨sub, after, created⟩
    · exact ⟨s, .inl ⟨refused, rfl⟩⟩
    · exact ⟨after, .inr ⟨sub, created, created⟩⟩
  deleteFile s dir name := by
    rcases s.deleteFile_cases dir name with refused | ⟨after, deleted⟩
    · exact ⟨s, .inl ⟨refused, rfl⟩⟩
    · exact ⟨after, .inr ⟨deleted, deleted⟩⟩
  deleteSubdirectory s dir name := by
    rcases s.deleteSubdirectory_cases dir name with refused | ⟨after, deleted⟩
    · exact ⟨s, .inl ⟨refused, rfl⟩⟩
    · exact ⟨after, .inr ⟨deleted, deleted⟩⟩
  renameFile s file name := by
    rcases s.renameFile_cases file name with refused | ⟨after, renamed⟩
    · exact ⟨s, .inl ⟨by simp [Backing.renameFile, refused], rfl⟩⟩
    · exact ⟨after, .inr ⟨by simp [Backing.renameFile, renamed], renamed⟩⟩
  renameDirectory s dir name := by
    rcases s.renameDirectory_cases dir name with refused | ⟨after, renamed⟩
    · exact ⟨s, .inl ⟨by simp [Backing.renameDirectory, refused], rfl⟩⟩
    · exact ⟨after, .inr ⟨by simp [Backing.renameDirectory, renamed], renamed⟩⟩
  resize s file size := by
    rcases s.resize_cases file size with refused | ⟨after, resized⟩
    · exact ⟨s, .inl ⟨refused, rfl⟩⟩
    · exact ⟨after, .inr ⟨resized, resized⟩⟩
  write s file offset data := ⟨data, _, _, List.prefix_refl _, rfl, rfl⟩

theorem store_self (s : Store) : Stored.store s = s := rfl

instance : Stored Guarded where
  store g := g.store
  fileName _ _ := rfl
  fileSize _ _ := rfl
  read _ _ _ _ := rfl
  directoryName _ _ := rfl
  directoryPath _ _ := rfl
  files _ _ := rfl
  subdirectories _ _ := rfl
  file? _ _ _ := rfl
  subdirectory? _ _ _ := rfl
  reach _ _ := rfl
  createFile g dir name := by
    simp only [Backing.createFile, Guarded.createFile]
    split
    · exact ⟨g, .inl ⟨rfl, rfl⟩⟩
    · rcases g.store.createFile_cases dir name with refused | ⟨file, after, created⟩
      · exact ⟨g, .inl ⟨by simp [Guarded.replace, refused], rfl⟩⟩
      · exact ⟨_, .inr ⟨file, by simp only [Guarded.replace, created]; rfl, created⟩⟩
  createSubdirectory g dir name := by
    simp only [Backing.createSubdirectory, Guarded.createSubdirectory]
    split
    · exact ⟨g, .inl ⟨rfl, rfl⟩⟩
    · rcases g.store.createSubdirectory_cases dir name with refused | ⟨sub, after, created⟩
      · exact ⟨g, .inl ⟨by simp [Guarded.replace, refused], rfl⟩⟩
      · exact ⟨_, .inr ⟨sub, by simp only [Guarded.replace, created]; rfl, created⟩⟩
  deleteFile g dir name := by
    simp only [Backing.deleteFile, Guarded.deleteFile]
    split
    · exact ⟨g, .inl ⟨rfl, rfl⟩⟩
    · rcases g.store.deleteFile_cases dir name with refused | ⟨after, deleted⟩
      · exact ⟨g, .inl ⟨by simp [Guarded.replace, refused], rfl⟩⟩
      · exact ⟨_, .inr ⟨by simp only [Guarded.replace, deleted]; rfl, deleted⟩⟩
  deleteSubdirectory g dir name := by
    simp only [Backing.deleteSubdirectory, Guarded.deleteSubdirectory]
    split
    · exact ⟨g, .inl ⟨rfl, rfl⟩⟩
    · rcases g.store.deleteSubdirectory_cases dir name with refused | ⟨after, deleted⟩
      · exact ⟨g, .inl ⟨by simp [Guarded.replace, refused], rfl⟩⟩
      · exact ⟨_, .inr ⟨by simp only [Guarded.replace, deleted]; rfl, deleted⟩⟩
  renameFile g file name := by
    simp only [Backing.renameFile, Guarded.renameFile]
    split
    · exact ⟨g, .inl ⟨rfl, rfl⟩⟩
    · rcases g.store.renameFile_cases file name with refused | ⟨after, renamed⟩
      · exact ⟨g, .inl ⟨by simp [Guarded.replace, refused], rfl⟩⟩
      · exact ⟨_, .inr ⟨by simp only [Guarded.replace, renamed]; rfl, renamed⟩⟩
  renameDirectory g dir name := by
    simp only [Backing.renameDirectory, Guarded.renameDirectory]
    split
    · exact ⟨g, .inl ⟨rfl, rfl⟩⟩
    · rcases g.store.renameDirectory_cases dir name with refused | ⟨after, renamed⟩
      · exact ⟨g, .inl ⟨by simp [Guarded.replace, refused], rfl⟩⟩
      · exact ⟨_, .inr ⟨by simp only [Guarded.replace, renamed]; rfl, renamed⟩⟩
  resize g file size := by
    simp only [Backing.resize, Guarded.resize]
    split
    · exact ⟨g, .inl ⟨rfl, rfl⟩⟩
    · rcases g.store.resize_cases file size with refused | ⟨after, resized⟩
      · exact ⟨g, .inl ⟨by simp [Guarded.replace, refused], rfl⟩⟩
      · exact ⟨_, .inr ⟨by simp only [Guarded.replace, resized]; rfl, resized⟩⟩
  write g file offset data := by
    simp only [Backing.write, Guarded.write]
    split
    · exact ⟨data, _, _, List.prefix_refl _, rfl, rfl⟩
    · exact ⟨_, _, _, List.take_prefix _ _, rfl, rfl⟩

section Views

variable {σ : Type} [Backing σ FileId DirectoryId] [Stored σ] (s : σ)

open Stored (store)

@[simp] theorem node_direct_directory (dir : DirectoryId) : (DirectoryView.direct dir).node = dir := rfl

@[simp] theorem node_direct_file (file : FileId) : (FileView.direct file).node = file := rfl

@[simp] theorem direct_name (dir : DirectoryId) :
    (DirectoryView.direct dir).name s = (store s).directoryName dir := Stored.directoryName s dir

@[simp] theorem direct_file_name (file : FileId) :
    (FileView.direct file).name s = (store s).fileName file := Stored.fileName s file

@[simp] theorem direct_file_size (file : FileId) :
    (FileView.direct file).size s = ((store s).fileBytes file).length := Stored.fileSize s file

@[simp] theorem direct_readAll (file : FileId) :
    (FileView.direct file).readAll s = (store s).fileBytes file := by
  rw [FileView.readAll, FileView.read, direct_file_size, node_direct_file, Stored.read, Store.read,
    Bytes.slice, List.drop_zero, List.take_length]

@[simp] theorem direct_path (dir : DirectoryId) :
    (DirectoryView.direct dir).path s = (store s).directoryPath dir := Stored.directoryPath s dir

@[simp] theorem direct_files (dir : DirectoryId) :
    (DirectoryView.direct dir).files s = ((store s).files dir).map FileView.direct :=
  congrArg (List.map FileView.direct) (Stored.files s dir)

@[simp] theorem direct_subdirectories (dir : DirectoryId) :
    (DirectoryView.direct dir).subdirectories s =
      ((store s).subdirectories dir).map DirectoryView.direct :=
  congrArg (List.map DirectoryView.direct) (Stored.subdirectories s dir)

@[simp] theorem direct_file? (dir : DirectoryId) (name : String) :
    (DirectoryView.direct dir).file? s name = ((store s).file? dir name).map FileView.direct :=
  congrArg (Option.map FileView.direct) (Stored.file? s dir name)

@[simp] theorem direct_subdirectory? (dir : DirectoryId) (name : String) :
    (DirectoryView.direct dir).subdirectory? s name =
      ((store s).subdirectory? dir name).map DirectoryView.direct :=
  congrArg (Option.map DirectoryView.direct) (Stored.subdirectory? s dir name)

@[simp] theorem direct_hasEntry (dir : DirectoryId) (name : String) :
    (DirectoryView.direct dir).hasEntry s name = (store s).hasChild dir name := by
  simp [DirectoryView.hasEntry, Store.hasChild]

theorem view_descend?_eq_some {dir found : DirectoryView DirectoryId} {names : List String} :
    dir.descend? s names = some found ↔
      found.readOnly = dir.readOnly ∧
        (Node.directory dir.node).descend? (store s) names = some (.directory found.node) := by
  induction names generalizing dir with
  | nil =>
    simp only [DirectoryView.descend?, List.foldlM_nil, Option.pure_def, Node.descend?_nil,
      Option.some.injEq, Node.directory.injEq]
    constructor
    · rintro rfl
      exact ⟨rfl, rfl⟩
    · rintro ⟨access, node⟩
      cases dir
      cases found
      simp_all
  | cons name rest ih =>
    have step : ∀ next : DirectoryView DirectoryId, dir.subdirectory? s name = some next ↔
        next.readOnly = dir.readOnly ∧
          (Node.directory dir.node).child? (store s) name = some (.directory next.node) := by
      rintro ⟨next, readOnly⟩
      rw [DirectoryView.subdirectory?, Stored.subdirectory?, Option.map_eq_some_iff,
        Node.child?_directory_eq_some]
      simp [and_comm, eq_comm]
    rw [DirectoryView.descend?, List.foldlM_cons, Option.bind_eq_bind, Option.bind_eq_some_iff,
      Node.descend?_cons, Option.bind_eq_some_iff]
    constructor
    · rintro ⟨next, present, further⟩
      obtain ⟨access, child⟩ := (step next).mp present
      obtain ⟨same, reached⟩ := ih.mp further
      exact ⟨same.trans access, _, child, reached⟩
    · rintro ⟨access, y, child, reached⟩
      cases y with
      | file id => cases rest <;> cases reached
      | directory id => exact ⟨⟨id, dir.readOnly⟩, (step _).mpr ⟨rfl, child⟩, ih.mpr ⟨access, reached⟩⟩

theorem direct_descend?_eq_some {dir : DirectoryId} {names : List String}
    {holder : DirectoryView DirectoryId} :
    (DirectoryView.direct dir).descend? s names = some holder ↔
      ∃ inner, holder = .direct inner ∧
        (Node.directory dir).descend? (store s) names = some (.directory inner) := by
  rw [view_descend?_eq_some]
  constructor
  · rintro ⟨access, reached⟩
    obtain ⟨node, readOnly⟩ := holder
    cases access
    exact ⟨node, rfl, reached⟩
  · rintro ⟨inner, rfl, reached⟩
    exact ⟨rfl, reached⟩

end Views

section Operations

open Stored (store)

variable {σ : Type} [Backing σ FileId DirectoryId] [Stored σ] {s : σ} (sound : (store s).Sound)
  (dir : DirectoryId) (file : FileId) (name : String)
include sound

theorem direct_createFile :
    ∃ s', (DirectoryView.direct dir).createFile s name = (none, s') ∧ store s' = store s ∨
      ∃ new, (DirectoryView.direct dir).createFile s name = (some (.direct new), s') ∧
        (store s').Sound ∧ (Node.directory dir).child? (store s) name = none ∧
        Adds (store s) (store s') (.directory dir) (.file new) name ⟨.file [], true⟩ := by
  obtain ⟨s', ⟨refused, same⟩ | ⟨new, created, done⟩⟩ := Stored.createFile s dir name
  · refine ⟨s', .inl ⟨?_, same⟩⟩
    simp [DirectoryView.createFile, DirectoryView.direct, refused]
  · refine ⟨s', .inr ⟨new, ?_, ?_⟩⟩
    · simp [DirectoryView.createFile, DirectoryView.direct, created]
    · obtain ⟨accepts, effect⟩ := Store.createFile_some done
      exact ⟨effect.sound sound accepts, Node.child?_eq_none_iff.mpr accepts, adds_file effect⟩

theorem direct_createSubdirectory :
    ∃ s', (DirectoryView.direct dir).createSubdirectory s name = (none, s') ∧ store s' = store s ∨
      ∃ new, (DirectoryView.direct dir).createSubdirectory s name = (some (.direct new), s') ∧
        (store s').Sound ∧ (Node.directory dir).child? (store s) name = none ∧
        Adds (store s) (store s') (.directory dir) (.directory new) name ⟨.directory, true⟩ := by
  obtain ⟨s', ⟨refused, same⟩ | ⟨new, created, done⟩⟩ := Stored.createSubdirectory s dir name
  · refine ⟨s', .inl ⟨?_, same⟩⟩
    simp [DirectoryView.createSubdirectory, DirectoryView.direct, refused]
  · refine ⟨s', .inr ⟨new, ?_, ?_⟩⟩
    · simp [DirectoryView.createSubdirectory, DirectoryView.direct, created]
    · obtain ⟨free, effect⟩ := Store.createSubdirectory_some done
      exact ⟨effect.sound sound free, Node.child?_eq_none_iff.mpr free, adds_directory effect⟩

theorem direct_deleteFile :
    ∃ s', (DirectoryView.direct dir).deleteFile s name = (false, s') ∧ store s' = store s ∨
      ∃ file, (DirectoryView.direct dir).deleteFile s name = (true, s') ∧ (store s').Sound ∧
        (Node.directory dir).child? (store s) name = some (.file file) ∧
        Cuts (store s) (store s') [.file file] := by
  obtain ⟨s', ⟨refused, same⟩ | ⟨deleted, done⟩⟩ := Stored.deleteFile s dir name
  · exact ⟨s', .inl ⟨refused, same⟩⟩
  · rcases sound.deleteFile_drops dir name with refused | ⟨file, after, removed, found, effect⟩
    · simp [done] at refused
    · rw [done] at removed
      cases removed
      refine ⟨s', .inr ⟨file, deleted, effect.sound sound, ?_, cuts_of_drops effect⟩⟩
      exact sound.child?_file_eq_some.mpr found

theorem direct_deleteSubdirectory :
    ∃ s', (DirectoryView.direct dir).deleteSubdirectory s name = (false, s') ∧ store s' = store s ∨
      ∃ sub, (DirectoryView.direct dir).deleteSubdirectory s name = (true, s') ∧ (store s').Sound ∧
        (Node.directory dir).child? (store s) name = some (.directory sub) ∧
        (Node.directory sub).children (store s) = [] ∧
        Cuts (store s) (store s') [.directory sub] := by
  obtain ⟨s', ⟨refused, same⟩ | ⟨deleted, done⟩⟩ := Stored.deleteSubdirectory s dir name
  · exact ⟨s', .inl ⟨refused, same⟩⟩
  · rcases sound.deleteSubdirectory_drops dir name with refused | ⟨sub, after, removed, found, bare, effect⟩
    · simp [done] at refused
    · rw [done] at removed
      cases removed
      refine ⟨s', .inr ⟨sub, deleted, effect.sound sound, ?_, ?_, cuts_of_drops effect⟩⟩
      · exact Node.child?_directory_eq_some.mpr found
      · simpa [Store.holdsNothing, Node.children] using bare

theorem direct_rename_directory (held : (Node.directory dir).held (store s) = true) :
    ∃ s', (DirectoryView.direct dir).rename s name = (none, s') ∧ store s' = store s ∨
      (DirectoryView.direct dir).rename s name = (some (.direct dir), s') ∧ (store s').Sound ∧
        Renames (store s) (store s') (.directory dir) name := by
  obtain ⟨s', ⟨refused, same⟩ | ⟨renamed, done⟩⟩ := Stored.renameDirectory s dir name
  · exact ⟨s', .inl ⟨by simp [DirectoryView.rename, DirectoryView.direct, refused], same⟩⟩
  · rcases Store.renameDirectory_renames (store s) dir name with
      refused | ⟨after, same, -, free, effect⟩
    · simp [done] at refused
    · rw [done] at same
      cases same
      refine ⟨s', .inr ⟨by simp [DirectoryView.rename, DirectoryView.direct, renamed], ?_, ?_⟩⟩
      · exact effect.sound sound free
      · exact renames_directory effect held

theorem direct_rename_file (held : (Node.file file).held (store s) = true) :
    ∃ s', (FileView.direct file).rename s name = (none, s') ∧ store s' = store s ∨
      (FileView.direct file).rename s name = (some (.direct file), s') ∧ (store s').Sound ∧
        Renames (store s) (store s') (.file file) name := by
  obtain ⟨s', ⟨refused, same⟩ | ⟨renamed, done⟩⟩ := Stored.renameFile s file name
  · exact ⟨s', .inl ⟨by simp [FileView.rename, FileView.direct, refused], same⟩⟩
  · rcases Store.renameFile_renames (store s) file name with refused | ⟨after, same, -, free, effect⟩
    · simp [done] at refused
    · rw [done] at same
      cases same
      refine ⟨s', .inr ⟨by simp [FileView.rename, FileView.direct, renamed], ?_, ?_⟩⟩
      · exact effect.sound sound free
      · exact renames_file effect held

theorem direct_resize (held : (Node.file file).held (store s) = true) (size : Nat) :
    ∃ s', (FileView.direct file).resize s size = (false, s') ∧ store s' = store s ∨
      (FileView.direct file).resize s size = (true, s') ∧ (store s').Sound ∧
        Refills (store s) (store s') (.file file)
          ⟨.file (((store s).fileBytes file).resize size), (store s).fileWritable file⟩ := by
  obtain ⟨s', ⟨refused, same⟩ | ⟨resized, done⟩⟩ := Stored.resize s file size
  · exact ⟨s', .inl ⟨refused, same⟩⟩
  · rcases Store.resize_fills (store s) file size with refused | ⟨after, same, effect⟩
    · simp [done] at refused
    · rw [done] at same
      cases same
      exact ⟨s', .inr ⟨resized, effect.sound sound, refills_file effect held⟩⟩

theorem direct_write (held : (Node.file file).held (store s) = true) (offset : Nat) (data : Bytes) :
    ∃ s', (FileView.direct file).write s offset data = (0, s') ∧ store s' = store s ∨
      ∃ sent, sent <+: data ∧ (FileView.direct file).write s offset data = (sent.length, s') ∧
        (store s').Sound ∧
        Refills (store s) (store s') (.file file)
          ⟨.file (((store s).fileBytes file).overwrite offset sent), (store s).fileWritable file⟩ := by
  obtain ⟨sent, count, s', first, wrote, done⟩ := Stored.write s file offset data
  rcases Store.write_fills (store s) file offset sent with refused | ⟨after, same, effect⟩
  · rw [done] at refused
    obtain ⟨rfl, same⟩ := Prod.mk.inj refused
    exact ⟨s', .inl ⟨wrote, same⟩⟩
  · rw [done] at same
    cases same
    exact ⟨s', .inr ⟨sent, first, wrote, effect.sound sound, refills_file effect held⟩⟩

end Operations

end GuestStorage.Memory
