import GuestStorage.Memory.Store

namespace GuestStorage.Memory.Store

variable {s s' : Store}

/-- A new file stands at the end of a directory's listing. -/
structure AddsFile (s s' : Store) (dir : DirectoryId) (file : FileId) (name : String) (bytes : Bytes)
    (writable : Bool) : Prop where
  held : (s.directoryNode? dir).isSome
  fresh : s.fileNode? file = none
  fileNode : ∀ other, s'.fileNode? other =
    if other = file then some ⟨name, bytes, writable, some dir⟩ else s.fileNode? other
  directoryNode : ∀ other, s'.directoryNode? other = (s.directoryNode? other).map fun node =>
    if other = dir then { node with files := node.files ++ [file] } else node

/-- A new empty directory stands at the end of a directory's listing. -/
structure AddsDirectory (s s' : Store) (dir sub : DirectoryId) (name : String) : Prop where
  held : (s.directoryNode? dir).isSome
  fresh : s.directoryNode? sub = none
  fileNode : ∀ other, s'.fileNode? other = s.fileNode? other
  directoryNode : ∀ other, s'.directoryNode? other =
    if other = sub then some ⟨name, true, some dir, [], []⟩
    else (s.directoryNode? other).map fun node =>
      if other = dir then { node with subdirectories := node.subdirectories ++ [sub] } else node

/-- Some files and directories are no longer listed and belong to no directory. -/
structure Drops (s s' : Store) (files : List FileId) (dirs : List DirectoryId) : Prop where
  fileNode : ∀ other, s'.fileNode? other = (s.fileNode? other).map fun node =>
    if other ∈ files then { node with parent := none } else node
  directoryNode : ∀ other, s'.directoryNode? other = (s.directoryNode? other).map fun node =>
    { node with
      parent := if other ∈ dirs then none else node.parent
      files := node.files.filter (· ∉ files)
      subdirectories := node.subdirectories.filter (· ∉ dirs) }

structure RenamesFile (s s' : Store) (file : FileId) (name : String) : Prop where
  fileNode : ∀ other, s'.fileNode? other = (s.fileNode? other).map fun node =>
    if other = file then { node with name } else node
  directoryNode : ∀ other, s'.directoryNode? other = s.directoryNode? other

structure RenamesDirectory (s s' : Store) (dir : DirectoryId) (name : String) : Prop where
  fileNode : ∀ other, s'.fileNode? other = s.fileNode? other
  directoryNode : ∀ other, s'.directoryNode? other = (s.directoryNode? other).map fun node =>
    if other = dir then { node with name } else node

structure FillsFile (s s' : Store) (file : FileId) (change : Bytes → Bytes) : Prop where
  fileNode : ∀ other, s'.fileNode? other = (s.fileNode? other).map fun node =>
    if other = file then { node with bytes := change node.bytes } else node
  directoryNode : ∀ other, s'.directoryNode? other = s.directoryNode? other

section Observations

variable {dir sub : DirectoryId} {file : FileId} {name : String} {lostFiles : List FileId}
  {lost : List DirectoryId} {change : Bytes → Bytes} {bytes : Bytes} {writable : Bool}

theorem files_of_node {other : DirectoryId} (same : s'.directoryNode? other = s.directoryNode? other) :
    s'.files other = s.files other := by rw [Store.files, same, Store.files]

theorem subdirectories_of_node {other : DirectoryId}
    (same : s'.directoryNode? other = s.directoryNode? other) :
    s'.subdirectories other = s.subdirectories other := by
  rw [Store.subdirectories, same, Store.subdirectories]

theorem directoryName_of_node {other : DirectoryId}
    (same : s'.directoryNode? other = s.directoryNode? other) :
    s'.directoryName other = s.directoryName other := by
  rw [Store.directoryName, same, Store.directoryName]

theorem directoryWritable_of_node {other : DirectoryId}
    (same : s'.directoryNode? other = s.directoryNode? other) :
    s'.directoryWritable other = s.directoryWritable other := by
  rw [Store.directoryWritable, same, Store.directoryWritable]

theorem directoryParent?_of_node {other : DirectoryId}
    (same : s'.directoryNode? other = s.directoryNode? other) :
    s'.directoryParent? other = s.directoryParent? other := by
  rw [Store.directoryParent?, same, Store.directoryParent?]

theorem fileName_of_node {other : FileId} (same : s'.fileNode? other = s.fileNode? other) :
    s'.fileName other = s.fileName other := by rw [Store.fileName, same, Store.fileName]

theorem fileBytes_of_node {other : FileId} (same : s'.fileNode? other = s.fileNode? other) :
    s'.fileBytes other = s.fileBytes other := by rw [Store.fileBytes, same, Store.fileBytes]

theorem fileWritable_of_node {other : FileId} (same : s'.fileNode? other = s.fileNode? other) :
    s'.fileWritable other = s.fileWritable other := by rw [Store.fileWritable, same, Store.fileWritable]

theorem fileParent?_of_node {other : FileId} (same : s'.fileNode? other = s.fileNode? other) :
    s'.fileParent? other = s.fileParent? other := by rw [Store.fileParent?, same, Store.fileParent?]

theorem AddsFile.files (effect : AddsFile s s' dir file name bytes writable) (other : DirectoryId) :
    s'.files other = s.files other ++ if other = dir then [file] else [] := by
  have held := effect.held
  rw [Store.files, effect.directoryNode, Store.files]
  by_cases here : other = dir
  · subst here
    cases node : s.directoryNode? other <;> simp_all
  · simp [here]

theorem AddsFile.subdirectories (effect : AddsFile s s' dir file name bytes writable) (other : DirectoryId) :
    s'.subdirectories other = s.subdirectories other := by
  rw [Store.subdirectories, effect.directoryNode, Store.subdirectories]
  cases s.directoryNode? other <;> simp [apply_ite]

theorem AddsFile.directoryName (effect : AddsFile s s' dir file name bytes writable) (other : DirectoryId) :
    s'.directoryName other = s.directoryName other := by
  rw [Store.directoryName, effect.directoryNode, Store.directoryName]
  cases s.directoryNode? other <;> simp [apply_ite]

theorem AddsFile.directoryWritable (effect : AddsFile s s' dir file name bytes writable) (other : DirectoryId) :
    s'.directoryWritable other = s.directoryWritable other := by
  rw [Store.directoryWritable, effect.directoryNode, Store.directoryWritable]
  cases s.directoryNode? other <;> simp [apply_ite]

theorem AddsFile.directoryParent? (effect : AddsFile s s' dir file name bytes writable) (other : DirectoryId) :
    s'.directoryParent? other = s.directoryParent? other := by
  rw [Store.directoryParent?, effect.directoryNode, Store.directoryParent?]
  by_cases here : other = dir <;> cases s.directoryNode? other <;> simp [here]

theorem AddsFile.fileName (effect : AddsFile s s' dir file name bytes writable) (other : FileId) :
    s'.fileName other = if other = file then name else s.fileName other := by
  rw [Store.fileName, effect.fileNode, Store.fileName]
  split <;> simp

theorem AddsFile.fileParent? (effect : AddsFile s s' dir file name bytes writable) (other : FileId) :
    s'.fileParent? other = if other = file then some dir else s.fileParent? other := by
  rw [Store.fileParent?, effect.fileNode, Store.fileParent?]
  split <;> simp

theorem AddsFile.fileBytes (effect : AddsFile s s' dir file name bytes writable) (other : FileId) :
    s'.fileBytes other = if other = file then bytes else s.fileBytes other := by
  rw [Store.fileBytes, effect.fileNode, Store.fileBytes]
  split <;> simp

theorem AddsFile.fileWritable (effect : AddsFile s s' dir file name bytes writable) (other : FileId) :
    s'.fileWritable other = if other = file then writable else s.fileWritable other := by
  rw [Store.fileWritable, effect.fileNode, Store.fileWritable]
  split <;> simp

theorem AddsDirectory.files (effect : AddsDirectory s s' dir sub name) (other : DirectoryId) :
    s'.files other = s.files other := by
  have fresh := effect.fresh
  rw [Store.files, effect.directoryNode, Store.files]
  by_cases new : other = sub
  · subst new
    simp [fresh]
  · cases node : s.directoryNode? other <;> simp [new, apply_ite]

theorem AddsDirectory.subdirectories (effect : AddsDirectory s s' dir sub name) (other : DirectoryId) :
    s'.subdirectories other = s.subdirectories other ++ if other = dir then [sub] else [] := by
  have held := effect.held
  have fresh := effect.fresh
  have apart : sub ≠ dir := by
    rintro rfl
    simp [fresh] at held
  rw [Store.subdirectories, effect.directoryNode, Store.subdirectories]
  by_cases new : other = sub
  · subst new
    simp [fresh, apart]
  · by_cases here : other = dir
    · subst here
      cases node : s.directoryNode? other <;> simp_all
    · simp [new, here]

theorem AddsDirectory.directoryName (effect : AddsDirectory s s' dir sub name) (other : DirectoryId) :
    s'.directoryName other = if other = sub then name else s.directoryName other := by
  rw [Store.directoryName, effect.directoryNode, Store.directoryName]
  split
  · simp
  · cases s.directoryNode? other <;> simp [apply_ite]

theorem AddsDirectory.directoryWritable (effect : AddsDirectory s s' dir sub name)
    (other : DirectoryId) :
    s'.directoryWritable other = if other = sub then true else s.directoryWritable other := by
  rw [Store.directoryWritable, effect.directoryNode, Store.directoryWritable]
  split
  · simp
  · cases s.directoryNode? other <;> simp [apply_ite]

theorem AddsDirectory.directoryParent? (effect : AddsDirectory s s' dir sub name)
    (other : DirectoryId) :
    s'.directoryParent? other = if other = sub then some dir else s.directoryParent? other := by
  rw [Store.directoryParent?, effect.directoryNode, Store.directoryParent?]
  split
  · simp
  · by_cases here : other = dir <;> cases s.directoryNode? other <;> simp [here]

theorem Drops.files (effect : Drops s s' lostFiles lost) (other : DirectoryId) :
    s'.files other = (s.files other).filter (· ∉ lostFiles) := by
  rw [Store.files, effect.directoryNode, Store.files]
  cases s.directoryNode? other <;> simp

theorem Drops.subdirectories (effect : Drops s s' lostFiles lost) (other : DirectoryId) :
    s'.subdirectories other = (s.subdirectories other).filter (· ∉ lost) := by
  rw [Store.subdirectories, effect.directoryNode, Store.subdirectories]
  cases s.directoryNode? other <;> simp

theorem Drops.directoryName (effect : Drops s s' lostFiles lost) (other : DirectoryId) :
    s'.directoryName other = s.directoryName other := by
  rw [Store.directoryName, effect.directoryNode, Store.directoryName]
  cases s.directoryNode? other <;> simp

theorem Drops.directoryWritable (effect : Drops s s' lostFiles lost) (other : DirectoryId) :
    s'.directoryWritable other = s.directoryWritable other := by
  rw [Store.directoryWritable, effect.directoryNode, Store.directoryWritable]
  cases s.directoryNode? other <;> simp

theorem Drops.directoryParent? (effect : Drops s s' lostFiles lost) (other : DirectoryId) :
    s'.directoryParent? other = if other ∈ lost then none else s.directoryParent? other := by
  rw [Store.directoryParent?, effect.directoryNode, Store.directoryParent?]
  cases s.directoryNode? other <;> simp

theorem Drops.fileName (effect : Drops s s' lostFiles lost) (other : FileId) :
    s'.fileName other = s.fileName other := by
  rw [Store.fileName, effect.fileNode, Store.fileName]
  cases s.fileNode? other <;> simp [apply_ite]

theorem Drops.fileBytes (effect : Drops s s' lostFiles lost) (other : FileId) :
    s'.fileBytes other = s.fileBytes other := by
  rw [Store.fileBytes, effect.fileNode, Store.fileBytes]
  cases s.fileNode? other <;> simp [apply_ite]

theorem Drops.fileWritable (effect : Drops s s' lostFiles lost) (other : FileId) :
    s'.fileWritable other = s.fileWritable other := by
  rw [Store.fileWritable, effect.fileNode, Store.fileWritable]
  cases s.fileNode? other <;> simp [apply_ite]

theorem Drops.fileParent? (effect : Drops s s' lostFiles lost) (other : FileId) :
    s'.fileParent? other = if other ∈ lostFiles then none else s.fileParent? other := by
  rw [Store.fileParent?, effect.fileNode, Store.fileParent?]
  by_cases gone : other ∈ lostFiles <;> cases s.fileNode? other <;> simp [gone]

theorem RenamesFile.fileName (effect : RenamesFile s s' file name) (held : (s.fileNode? file).isSome)
    (other : FileId) : s'.fileName other = if other = file then name else s.fileName other := by
  rw [Store.fileName, effect.fileNode, Store.fileName]
  by_cases here : other = file
  · subst here
    cases node : s.fileNode? other <;> simp_all
  · cases s.fileNode? other <;> simp [here]

theorem RenamesFile.fileBytes (effect : RenamesFile s s' file name) (other : FileId) :
    s'.fileBytes other = s.fileBytes other := by
  rw [Store.fileBytes, effect.fileNode, Store.fileBytes]
  cases s.fileNode? other <;> simp [apply_ite]

theorem RenamesFile.fileWritable (effect : RenamesFile s s' file name) (other : FileId) :
    s'.fileWritable other = s.fileWritable other := by
  rw [Store.fileWritable, effect.fileNode, Store.fileWritable]
  cases s.fileNode? other <;> simp [apply_ite]

theorem RenamesFile.fileParent? (effect : RenamesFile s s' file name) (other : FileId) :
    s'.fileParent? other = s.fileParent? other := by
  rw [Store.fileParent?, effect.fileNode, Store.fileParent?]
  by_cases here : other = file <;> cases s.fileNode? other <;> simp [here]

theorem RenamesDirectory.directoryName (effect : RenamesDirectory s s' dir name)
    (held : (s.directoryNode? dir).isSome) (other : DirectoryId) :
    s'.directoryName other = if other = dir then name else s.directoryName other := by
  rw [Store.directoryName, effect.directoryNode, Store.directoryName]
  by_cases here : other = dir
  · subst here
    cases node : s.directoryNode? other <;> simp_all
  · cases s.directoryNode? other <;> simp [here]

theorem RenamesDirectory.files (effect : RenamesDirectory s s' dir name) (other : DirectoryId) :
    s'.files other = s.files other := by
  rw [Store.files, effect.directoryNode, Store.files]
  cases s.directoryNode? other <;> simp [apply_ite]

theorem RenamesDirectory.subdirectories (effect : RenamesDirectory s s' dir name)
    (other : DirectoryId) : s'.subdirectories other = s.subdirectories other := by
  rw [Store.subdirectories, effect.directoryNode, Store.subdirectories]
  cases s.directoryNode? other <;> simp [apply_ite]

theorem RenamesDirectory.directoryWritable (effect : RenamesDirectory s s' dir name)
    (other : DirectoryId) : s'.directoryWritable other = s.directoryWritable other := by
  rw [Store.directoryWritable, effect.directoryNode, Store.directoryWritable]
  cases s.directoryNode? other <;> simp [apply_ite]

theorem RenamesDirectory.directoryParent? (effect : RenamesDirectory s s' dir name)
    (other : DirectoryId) : s'.directoryParent? other = s.directoryParent? other := by
  rw [Store.directoryParent?, effect.directoryNode, Store.directoryParent?]
  by_cases here : other = dir <;> cases s.directoryNode? other <;> simp [here]

theorem FillsFile.fileBytes (effect : FillsFile s s' file change) (held : (s.fileNode? file).isSome)
    (other : FileId) :
    s'.fileBytes other = if other = file then change (s.fileBytes file) else s.fileBytes other := by
  simp only [Store.fileBytes, effect.fileNode]
  by_cases here : other = file
  · subst here
    cases node : s.fileNode? other <;> simp_all
  · cases s.fileNode? other <;> simp [here]

theorem FillsFile.fileName (effect : FillsFile s s' file change) (other : FileId) :
    s'.fileName other = s.fileName other := by
  rw [Store.fileName, effect.fileNode, Store.fileName]
  cases s.fileNode? other <;> simp [apply_ite]

theorem FillsFile.fileWritable (effect : FillsFile s s' file change) (other : FileId) :
    s'.fileWritable other = s.fileWritable other := by
  rw [Store.fileWritable, effect.fileNode, Store.fileWritable]
  cases s.fileNode? other <;> simp [apply_ite]

theorem FillsFile.fileParent? (effect : FillsFile s s' file change) (other : FileId) :
    s'.fileParent? other = s.fileParent? other := by
  rw [Store.fileParent?, effect.fileNode, Store.fileParent?]
  by_cases here : other = file <;> cases s.fileNode? other <;> simp [here]

end Observations

@[simp] theorem fst_newFile (s : Store) (name : String) (bytes : Bytes) (writable : Bool) :
    (s.newFile name bytes writable).1 = ⟨s.fileNodes.size⟩ := rfl

@[simp] theorem fst_newDirectory (s : Store) (name : String) (writable : Bool) :
    (s.newDirectory name writable).1 = ⟨s.directoryNodes.size⟩ := rfl

theorem fileNode?_newFile (s : Store) (name : String) (bytes : Bytes) (writable : Bool) (file : FileId) :
    (s.newFile name bytes writable).2.fileNode? file =
      if file = ⟨s.fileNodes.size⟩ then some ⟨name, bytes, writable, none⟩ else s.fileNode? file := by
  obtain ⟨index⟩ := file
  simp only [fileNode?, newFile, Array.getElem?_push, FileId.mk.injEq]

@[simp] theorem directoryNode?_newFile (s : Store) (name : String) (bytes : Bytes) (writable : Bool)
    (dir : DirectoryId) : (s.newFile name bytes writable).2.directoryNode? dir = s.directoryNode? dir := rfl

theorem directoryNode?_newDirectory (s : Store) (name : String) (writable : Bool) (dir : DirectoryId) :
    (s.newDirectory name writable).2.directoryNode? dir =
      if dir = ⟨s.directoryNodes.size⟩ then some ⟨name, writable, none, [], []⟩
      else s.directoryNode? dir := by
  obtain ⟨index⟩ := dir
  simp only [directoryNode?, newDirectory, Array.getElem?_push, DirectoryId.mk.injEq]

@[simp] theorem fileNode?_newDirectory (s : Store) (name : String) (writable : Bool) (file : FileId) :
    (s.newDirectory name writable).2.fileNode? file = s.fileNode? file := rfl

theorem fileNode?_size (s : Store) : s.fileNode? ⟨s.fileNodes.size⟩ = none := by simp [fileNode?]

theorem directoryNode?_size (s : Store) : s.directoryNode? ⟨s.directoryNodes.size⟩ = none := by
  simp [directoryNode?]

theorem held_of_writable {dir : DirectoryId} (writable : s.directoryWritable dir = true) :
    (s.directoryNode? dir).isSome := by
  cases node : s.directoryNode? dir with
  | none => simp [directoryWritable, node] at writable
  | some node => rfl

theorem held_of_accepts {dir : DirectoryId} {name : String} (accepts : s.acceptsChild dir name = true) :
    (s.directoryNode? dir).isSome := by
  simp only [acceptsChild, Bool.and_eq_true] at accepts
  exact held_of_writable accepts.1.1

theorem newFile_linkFile_adds {dir : DirectoryId} (held : (s.directoryNode? dir).isSome) (name : String)
    (bytes : Bytes) (writable : Bool) :
    AddsFile s ((s.newFile name bytes writable).2.linkFile dir ⟨s.fileNodes.size⟩) dir
      ⟨s.fileNodes.size⟩ name bytes writable := by
  refine ⟨held, fileNode?_size s, ?_, ?_⟩
  · intro other
    by_cases same : other = ⟨s.fileNodes.size⟩ <;>
      simp [linkFile, fileNode?_modifyFile, fileNode?_newFile, same]
  · intro other
    by_cases same : other = dir <;> simp [linkFile, directoryNode?_modifyDirectory, same]

theorem createFile_adds {dir : DirectoryId} {name : String} (accepts : s.acceptsChild dir name = true) :
    ∃ file after, s.createFile dir name = (some file, after) ∧ AddsFile s after dir file name [] true :=
  ⟨_, _, by simp only [createFile, if_pos accepts]; rfl,
    newFile_linkFile_adds (held_of_accepts accepts) name [] true⟩

theorem createSubdirectory_adds {dir : DirectoryId} {name : String}
    (accepts : s.acceptsChild dir name = true) :
    ∃ sub after, s.createSubdirectory dir name = (some sub, after) ∧
      AddsDirectory s after dir sub name := by
  refine ⟨_, _, by simp only [createSubdirectory, if_pos accepts]; rfl, ?_⟩
  have held := held_of_accepts accepts
  have apart : dir ≠ ⟨s.directoryNodes.size⟩ := by
    rintro rfl
    simp [directoryNode?_size] at held
  refine ⟨held, directoryNode?_size s, fun _ => rfl, ?_⟩
  intro other
  by_cases same : other = ⟨s.directoryNodes.size⟩
  · simp [linkDirectory, directoryNode?_modifyDirectory, directoryNode?_newDirectory, same, apart.symm]
  · by_cases here : other = dir <;>
      simp [linkDirectory, directoryNode?_modifyDirectory, directoryNode?_newDirectory, same, here, apart]

theorem createFile_refused {dir : DirectoryId} {name : String}
    (refuses : s.acceptsChild dir name = false) : s.createFile dir name = (none, s) := by
  simp [createFile, refuses]

theorem createSubdirectory_refused {dir : DirectoryId} {name : String}
    (refuses : s.acceptsChild dir name = false) : s.createSubdirectory dir name = (none, s) := by
  simp [createSubdirectory, refuses]

theorem renameFile_renames (s : Store) (file : FileId) (name : String) :
    s.renameFile file name = (false, s) ∨
      ∃ after, s.renameFile file name = (true, after) ∧ name ≠ "" ∧
        s.nameIsFree (s.fileParent? file) name = true ∧ RenamesFile s after file name := by
  unfold renameFile
  split
  · rename_i allowed
    simp only [Bool.and_eq_true, Bool.not_eq_true', String.isEmpty_eq_false_iff] at allowed
    refine .inr ⟨_, rfl, allowed.1.2, allowed.2, ?_, fun _ => rfl⟩
    intro other
    by_cases same : other = file <;> simp [fileNode?_modifyFile, same]
  · exact .inl rfl

theorem renameDirectory_renames (s : Store) (dir : DirectoryId) (name : String) :
    s.renameDirectory dir name = (false, s) ∨
      ∃ after, s.renameDirectory dir name = (true, after) ∧ name ≠ "" ∧
        s.nameIsFree (s.directoryParent? dir) name = true ∧ RenamesDirectory s after dir name := by
  unfold renameDirectory
  split
  · rename_i allowed
    simp only [Bool.and_eq_true, Bool.not_eq_true', String.isEmpty_eq_false_iff] at allowed
    refine .inr ⟨_, rfl, allowed.1.2, allowed.2, fun _ => rfl, ?_⟩
    intro other
    by_cases same : other = dir <;> simp [directoryNode?_modifyDirectory, same]
  · exact .inl rfl

theorem modifyFile_fills (s : Store) (file : FileId) (change : Bytes → Bytes) :
    FillsFile s (s.modifyFile file fun node => { node with bytes := change node.bytes }) file change := by
  refine ⟨?_, fun _ => rfl⟩
  intro other
  by_cases same : other = file <;> simp [fileNode?_modifyFile, same]

theorem resize_fills (s : Store) (file : FileId) (size : Nat) :
    s.resize file size = (false, s) ∨
      ∃ after, s.resize file size = (true, after) ∧ FillsFile s after file (·.resize size) := by
  unfold resize
  split
  · exact .inr ⟨_, rfl, modifyFile_fills s file (·.resize size)⟩
  · exact .inl rfl

theorem write_fills (s : Store) (file : FileId) (offset : Nat) (data : Bytes) :
    s.write file offset data = (0, s) ∨
      ∃ after, s.write file offset data = (data.length, after) ∧
        FillsFile s after file (·.overwrite offset data) := by
  unfold write
  split
  · exact .inr ⟨_, rfl, modifyFile_fills s file (·.overwrite offset data)⟩
  · exact .inl rfl

end GuestStorage.Memory.Store
