import GuestStorage.Proofs.Memory.Depth
import GuestStorage.Proofs.Memory.Move
import GuestStorage.Proofs.Projection.Mount

namespace GuestStorage.Memory

open GuestStorage.Tree

variable {s s' s'' : Store} {dir : DirectoryId} {file : FileId} {name : String} {bytes : Bytes}
  {writable : Bool}

namespace Store

theorem AddsFile.filled {change : Bytes → Bytes} (adds : AddsFile s s' dir file name bytes writable)
    (fills : FillsFile s' s'' file change) : AddsFile s s'' dir file name (change bytes) writable := by
  refine ⟨adds.held, adds.fresh, fun other => ?_, fun other => ?_⟩
  · rw [fills.fileNode, adds.fileNode]
    by_cases same : other = file
    · simp [same]
    · cases s.fileNode? other <;> simp [same]
  · rw [fills.directoryNode, adds.directoryNode]

theorem size_directoryNodes_eq (same : ∀ other, s'.directoryNode? other = none ↔ s.directoryNode? other = none) :
    s'.directoryNodes.size = s.directoryNodes.size := by
  have upper := (same ⟨s.directoryNodes.size⟩).mpr (directoryNode?_size s)
  have lower := (same ⟨s'.directoryNodes.size⟩).mp (directoryNode?_size s')
  simp only [directoryNode?, Array.getElem?_eq_none_iff] at upper lower
  omega

theorem AddsFile.size_directoryNodes (adds : AddsFile s s' dir file name bytes writable) :
    s'.directoryNodes.size = s.directoryNodes.size :=
  size_directoryNodes_eq fun other => by rw [adds.directoryNode, Option.map_eq_none_iff]

theorem directoryPathWithin_congr {above : DirectoryId → Prop}
    (closed : ∀ dir parent, above dir → s.directoryParent? dir = some parent → above parent)
    (same : ∀ dir, above dir →
      s'.directoryName dir = s.directoryName dir ∧ s'.directoryParent? dir = s.directoryParent? dir)
    (here : above dir) (steps : Nat) : s'.directoryPathWithin steps dir = s.directoryPathWithin steps dir := by
  induction steps generalizing dir with
  | zero => exact (same dir here).1
  | succ steps ih =>
    rw [directoryPathWithin, directoryPathWithin, (same dir here).1, (same dir here).2]
    cases owned : s.directoryParent? dir with
    | none => rfl
    | some parent => simp only [ih (closed dir parent here owned)]

theorem directoryPath_congr (size : s'.directoryNodes.size = s.directoryNodes.size)
    (name : ∀ other, s'.directoryName other = s.directoryName other)
    (parent : ∀ other, s'.directoryParent? other = s.directoryParent? other) (dir : DirectoryId) :
    s'.directoryPath dir = s.directoryPath dir := by
  have same : ∀ other, True → s'.directoryName other = s.directoryName other ∧
      s'.directoryParent? other = s.directoryParent? other := fun other _ => ⟨name other, parent other⟩
  rw [directoryPath, directoryPath, reach, reach, size,
    directoryPathWithin_congr (fun _ _ _ _ => trivial) same trivial]

theorem AddsFile.dropped (adds : AddsFile s s' dir file name bytes writable) (sound : s.Sound)
    (drops : Drops s' s'' [file] []) (other : DirectoryId) : s''.directoryNode? other = s.directoryNode? other := by
  rw [drops.directoryNode, adds.directoryNode, Option.map_map]
  cases node : s.directoryNode? other with
  | none => rfl
  | some inner =>
    have unlisted : file ∉ inner.files := by
      simpa [Store.files, node] using sound.fresh_file_unlisted adds.fresh other
    by_cases same : other = dir <;> simp [same, filter_ne_of_notMem unlisted]

end Store

theorem Grows.content?_of_some {target : Node} (grows : Grows s s' target) (sound : s.Sound)
    (sound' : s'.Sound) {root : DirectoryId} {path : List String}
    (shown : (Node.directory root).content? s path = some (.file bytes)) :
    (Node.directory root).content? s' path = some (.file bytes) := by
  obtain ⟨entry, looked, content⟩ := Option.map_eq_some_iff.mp shown
  obtain ⟨y, reached, rfl⟩ := Option.map_eq_some_iff.mp looked
  have held : y.held s = true := by
    rcases List.eq_nil_or_concat' path with rfl | ⟨front, name, rfl⟩
    · cases reached
      cases content
    · obtain ⟨holder, -, owned, -⟩ := sound.descend?_concat_eq_some.mp reached
      exact (sound.parent_held owned).2
  rw [Node.content?, Node.lookup, grows.descend? sound sound' reached, Option.map_some, grows.entry y held,
    Option.map_some, content]

namespace Guarded

variable {g g' g'' : Guarded}

theorem stored_store (g : Guarded) : Stored.store g = g.store := rfl

structure SameRules (g g' : Guarded) : Prop where
  ofDirectory : g'.ofDirectory = g.ofDirectory
  ofFile : g'.ofFile = g.ofFile

theorem SameRules.trans (first : SameRules g g') (second : SameRules g' g'') : SameRules g g'' :=
  ⟨second.ofDirectory.trans first.ofDirectory, second.ofFile.trans first.ofFile⟩

theorem SameRules.eq (rules : SameRules g g') (same : g'.store = g.store) : g' = g := by
  cases g
  cases g'
  cases rules.ofDirectory
  cases rules.ofFile
  cases same
  rfl

section Rules

variable {dir : DirectoryId} {file : FileId} {name : String}

theorem createFile_sameRules : SameRules g (g.createFile dir name).2 := by
  unfold Guarded.createFile
  split <;> exact ⟨rfl, rfl⟩

theorem createSubdirectory_sameRules : SameRules g (g.createSubdirectory dir name).2 := by
  unfold Guarded.createSubdirectory
  split <;> exact ⟨rfl, rfl⟩

theorem deleteFile_sameRules : SameRules g (g.deleteFile dir name).2 := by
  unfold Guarded.deleteFile
  split <;> exact ⟨rfl, rfl⟩

theorem deleteSubdirectory_sameRules : SameRules g (g.deleteSubdirectory dir name).2 := by
  unfold Guarded.deleteSubdirectory
  split <;> exact ⟨rfl, rfl⟩

theorem renameFile_sameRules : SameRules g (g.renameFile file name).2 := by
  unfold Guarded.renameFile
  split <;> exact ⟨rfl, rfl⟩

theorem resize_sameRules (size : Nat) : SameRules g (g.resize file size).2 := by
  unfold Guarded.resize
  split <;> exact ⟨rfl, rfl⟩

theorem write_sameRules (offset : Nat) (data : Bytes) : SameRules g (g.write file offset data).2 := by
  unfold Guarded.write
  split <;> exact ⟨rfl, rfl⟩

theorem createSubdirectory_refused (refused : g.createSubdirectory dir name = (none, g')) : g' = g := by
  have rules : SameRules g (g.createSubdirectory dir name).2 := createSubdirectory_sameRules
  obtain ⟨s', ⟨also, same⟩ | ⟨sub, created, -⟩⟩ := Stored.createSubdirectory g dir name
  · cases refused.symm.trans also
    rw [refused] at rules
    exact rules.eq same
  · cases refused.symm.trans created

theorem deleteFile_refused (refused : g.deleteFile dir name = (false, g')) : g' = g := by
  have rules : SameRules g (g.deleteFile dir name).2 := deleteFile_sameRules
  obtain ⟨s', ⟨also, same⟩ | ⟨deleted, -⟩⟩ := Stored.deleteFile g dir name
  · cases refused.symm.trans also
    rw [refused] at rules
    exact rules.eq same
  · cases refused.symm.trans deleted

theorem deleteSubdirectory_refused (refused : g.deleteSubdirectory dir name = (false, g')) : g' = g := by
  have rules : SameRules g (g.deleteSubdirectory dir name).2 := deleteSubdirectory_sameRules
  obtain ⟨s', ⟨also, same⟩ | ⟨deleted, -⟩⟩ := Stored.deleteSubdirectory g dir name
  · cases refused.symm.trans also
    rw [refused] at rules
    exact rules.eq same
  · cases refused.symm.trans deleted

theorem renameFile_refused (refused : g.renameFile file name = (none, g')) : g' = g := by
  have rules : SameRules g (g.renameFile file name).2 := renameFile_sameRules
  obtain ⟨s', ⟨also, same⟩ | ⟨renamed, -⟩⟩ := Stored.renameFile g file name
  · cases refused.symm.trans also
    rw [refused] at rules
    exact rules.eq same
  · cases refused.symm.trans renamed

end Rules

/-- No node that was held is different, and files that have come since belong to no directory. -/
structure Untouched (g g' : Guarded) : Prop where
  rules : SameRules g g'
  directoryNodes : g'.store.directoryNodes = g.store.directoryNodes
  fileNode : ∀ file node, g.store.fileNode? file = some node → g'.store.fileNode? file = some node
  unlisted : ∀ file, g.store.fileNode? file = none → g'.store.fileParent? file = none

theorem Untouched.refl (g : Guarded) : Untouched g g :=
  ⟨⟨rfl, rfl⟩, rfl, fun _ _ held => held, fun file absent => by simp [Store.fileParent?, absent]⟩

theorem Untouched.snapshot (untouched : Untouched g g') (sound : g.store.Sound)
    (view : DirectoryView DirectoryId) : view.snapshot g' = view.snapshot g := by
  have node : ∀ dir, g'.store.directoryNode? dir = g.store.directoryNode? dir := fun dir => by
    rw [Store.directoryNode?, Store.directoryNode?, untouched.directoryNodes]
  have path := Store.directoryPath_congr (congrArg Array.size untouched.directoryNodes)
    (fun dir => Store.directoryName_of_node (node dir)) fun dir => Store.directoryParent?_of_node (node dir)
  have fileNode : ∀ dir, ∀ file ∈ g.store.files dir, g'.store.fileNode? file = g.store.fileNode? file := by
    intro dir file listed
    obtain ⟨node, held⟩ := Option.isSome_iff_exists.mp (sound.listed_file_held listed)
    rw [held, untouched.fileNode file node held]
  have same : ∀ dir, SameView g g' dir := by
    intro dir
    refine ⟨Store.directoryName_of_node (node dir), ?_, Store.files_of_node (node dir),
      Store.subdirectories_of_node (node dir), fun file listed readOnly => ?_⟩
    · simp only [Backing.directoryWritable, directoryRefusals, untouched.rules.ofDirectory, path,
        Store.directoryWritable_of_node (node dir)]
    · have own := fileNode dir file listed
      simp only [FileView.snapshot, FileView.name, FileView.size, FileView.isWritable, FileView.readAll,
        FileView.read, Backing.fileName, Backing.fileSize, Backing.fileWritable, Backing.read, fileRefusals,
        Store.filePath, Store.read, untouched.rules.ofFile, path, Store.fileName_of_node own,
        Store.fileBytes_of_node own, Store.fileWritable_of_node own, Store.fileParent?_of_node own]
  have reach : g'.store.reach = g.store.reach := by
    rw [Store.reach, Store.reach, untouched.directoryNodes]
  simp only [DirectoryView.snapshot, Backing.reach, reach]
  exact DirectoryView.snapshotWithin_congr (fun _ (_ : True) _ _ => trivial)
    (fun dir (_ : True) => same dir) trivial _

theorem Untouched.grows (untouched : Untouched g g') (target : Node) : Grows g.store g'.store target := by
  have node : ∀ dir, g'.store.directoryNode? dir = g.store.directoryNode? dir := fun dir => by
    rw [Store.directoryNode?, Store.directoryNode?, untouched.directoryNodes]
  have fileNode : ∀ {file}, (Node.file file).held g.store = true →
      g'.store.fileNode? file = g.store.fileNode? file := by
    intro file held
    obtain ⟨inner, there⟩ := Option.isSome_iff_exists.mp held
    rw [there, untouched.fileNode file inner there]
  refine ⟨?_, ?_, ?_, ?_, ?_⟩ <;> intro x
  · intro held
    cases x with
    | file file => rwa [Node.held, fileNode held]
    | directory dir => rwa [Node.held, node]
  · intro held
    cases x with
    | file file => exact Store.fileName_of_node (fileNode held)
    | directory dir => exact Store.directoryName_of_node (node dir)
  · intro held
    cases x with
    | file file => rw [Node.parent?, Node.parent?, Store.fileParent?_of_node (fileNode held)]
    | directory dir => rw [Node.parent?, Node.parent?, Store.directoryParent?_of_node (node dir)]
  · intro held
    cases x with
    | file file =>
      rw [Node.entry, Node.entry, Store.fileBytes_of_node (fileNode held),
        Store.fileWritable_of_node (fileNode held)]
    | directory dir => rw [Node.entry, Node.entry, Store.directoryWritable_of_node (node dir)]
  · intro y absent owned
    cases x with
    | file file =>
      rw [Node.parent?, untouched.unlisted file (by simpa [Node.held] using absent)] at owned
      cases owned
    | directory dir =>
      have none : g.store.directoryNode? dir = none := by simpa [Node.held] using absent
      simp [Node.parent?, Store.directoryParent?, node, none] at owned

/-- A new file stands at the end of a directory, and apart from it nothing is different. -/
structure Pending (g g' : Guarded) (dir : DirectoryId) (file : FileId) (name : String) : Prop where
  rules : SameRules g g'
  writable : g.store.directoryWritable dir = true
  free : name ∉ g.store.childNames dir
  adds : ∃ bytes, g.store.AddsFile g'.store dir file name bytes true

section Pending

variable {dir : DirectoryId} {file : FileId} {name : String}

theorem createFile_pending (g : Guarded) (dir : DirectoryId) (name : String) :
    g.createFile dir name = (none, g) ∨
      ∃ file g', g.createFile dir name = (some file, g') ∧ Pending g g' dir file name := by
  have rules : SameRules g (g.createFile dir name).2 := createFile_sameRules
  obtain ⟨g', ⟨refused, same⟩ | ⟨file, created, done⟩⟩ := Stored.createFile g dir name
  · have refused : g.createFile dir name = (none, g') := refused
    rw [refused] at rules
    obtain rfl := rules.eq same
    exact .inl refused
  · have created : g.createFile dir name = (some file, g') := created
    rw [created] at rules
    obtain ⟨free, adds⟩ := Store.createFile_some done
    refine .inr ⟨file, g', created, rules, ?_, free, [], adds⟩
    by_contra closed
    have done : g.store.createFile dir name = (some file, g'.store) := done
    rw [Store.createFile, if_neg (by simp [Store.acceptsChild, closed])] at done
    cases done

theorem Pending.refilled (pending : Pending g g' dir file name) (rules : SameRules g' g'')
    {change : Bytes → Bytes} (fills : g'.store.FillsFile g''.store file change) :
    Pending g g'' dir file name := by
  obtain ⟨bytes, adds⟩ := pending.adds
  exact ⟨pending.rules.trans rules, pending.writable, pending.free, _, adds.filled fills⟩

theorem Pending.resized (pending : Pending g g' dir file name) (size : Nat) :
    Pending g (g'.resize file size).2 dir file name := by
  have rules : SameRules g' (g'.resize file size).2 := resize_sameRules size
  obtain ⟨g'', ⟨refused, same⟩ | ⟨resized, done⟩⟩ := Stored.resize g' file size
  · have refused : g'.resize file size = (false, g'') := refused
    rw [refused] at rules ⊢
    exact rules.eq same ▸ pending
  · have resized : g'.resize file size = (true, g'') := resized
    rw [resized] at rules ⊢
    rcases g'.store.resize_fills file size with refused | ⟨after, also, fills⟩
    · cases done.symm.trans refused
    · cases done.symm.trans also
      exact pending.refilled rules fills

theorem Pending.written (pending : Pending g g' dir file name) (offset : Nat) (data : Bytes) :
    Pending g (g'.write file offset data).2 dir file name := by
  have rules : SameRules g' (g'.write file offset data).2 := write_sameRules offset data
  obtain ⟨sent, count, g'', -, wrote, done⟩ := Stored.write g' file offset data
  have wrote : g'.write file offset data = (count, g'') := wrote
  rw [wrote] at rules ⊢
  rcases g'.store.write_fills file offset sent with refused | ⟨after, also, fills⟩
  · have same := congrArg Prod.snd (done.symm.trans refused)
    exact rules.eq same ▸ pending
  · cases done.symm.trans also
    exact pending.refilled rules fills

theorem Pending.file? (pending : Pending g g' dir file name) (sound : g.store.Sound) :
    g'.store.Sound ∧ g'.store.file? dir name = some file := by
  obtain ⟨bytes, adds⟩ := pending.adds
  have sound' := adds.sound sound pending.free
  refine ⟨sound', sound'.file?_eq_some.mpr ⟨?_, ?_⟩⟩
  · simp [adds.files]
  · simp [adds.fileName]

/-- The new file stays, or it is taken away again, as happens where no deletion of files is refused. -/
theorem Pending.undone (pending : Pending g g' dir file name) (sound : g.store.Sound) :
    (g'.deleteFile dir name).2.store.Sound ∧
      (Untouched g (g'.deleteFile dir name).2 ∨
        (g'.deleteFile dir name).2 = g' ∧ (g.directoryRefusals dir).deleteFile = true) := by
  obtain ⟨bytes, adds⟩ := pending.adds
  obtain ⟨sound', found⟩ := pending.file? sound
  have rules : SameRules g' (g'.deleteFile dir name).2 := deleteFile_sameRules
  have still : g'.directoryRefusals dir = g.directoryRefusals dir := by
    rw [directoryRefusals, pending.rules.ofDirectory,
      Store.directoryPath_congr adds.size_directoryNodes adds.directoryName adds.directoryParent?]
    rfl
  rw [Guarded.deleteFile, still] at rules ⊢
  split
  · rename_i refuses
    exact ⟨sound', .inr ⟨rfl, refuses⟩⟩
  · rename_i willing
    rw [if_neg willing] at rules
    rcases sound'.deleteFile_drops dir name with refused | ⟨other, after, deleted, also, drops⟩
    · have open' := pending.writable
      rw [← adds.directoryWritable] at open'
      simp [Store.deleteFile, open', found] at refused
    · cases found.symm.trans also
      rw [replace, deleted] at rules ⊢
      refine ⟨drops.sound sound', .inl ⟨pending.rules.trans rules, ?_, ?_, ?_⟩⟩
      · refine Array.ext_getElem? fun i => ?_
        exact adds.dropped sound drops ⟨i⟩
      · intro old node held
        have apart : old ≠ file := by
          rintro rfl
          cases adds.fresh.symm.trans held
        simp [drops.fileNode, adds.fileNode, apart, held]
      · intro new absent
        rw [drops.fileParent?, adds.fileParent?]
        by_cases same : new = file
        · simp [same]
        · simp [same, Store.fileParent?, absent]

theorem Pending.content?_kept (pending : Pending g g' dir file name) (sound : g.store.Sound)
    {root : DirectoryId} {path : List String} {bytes : Bytes}
    (shown : (Node.directory root).content? g.store path = some (.file bytes)) :
    (Node.directory root).content? (g'.deleteFile dir name).2.store path = some (.file bytes) := by
  obtain ⟨later, adds⟩ := pending.adds
  obtain ⟨sound', ended⟩ := pending.undone sound
  have grows : Grows g.store (g'.deleteFile dir name).2.store (.directory dir) := by
    rcases ended with untouched | ⟨still, -⟩
    · exact untouched.grows _
    · rw [still]
      exact (adds_file adds).grows sound
  exact grows.content?_of_some sound sound' shown

end Pending

end Guarded

end GuestStorage.Memory
