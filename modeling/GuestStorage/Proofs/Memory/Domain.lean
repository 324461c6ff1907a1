import GuestStorage.Proofs.Memory.Depth
import GuestStorage.Proofs.Memory.Stored
import GuestStorage.Proofs.Tree.Region

namespace GuestStorage.Memory.Store

open Node

/-- Only nodes of a set are new or changed, and no node that was there has another directory. One
    directory of the set keeps its own name, access and place. -/
structure OnlyIn (inside : Node → Prop) (top : DirectoryId) (s s' : Store) : Prop where
  held : ∀ x : Node, x.held s = true → x.held s' = true
  file : ∀ id, ¬ inside (.file id) → s'.fileNode? id = s.fileNode? id
  directory : ∀ id, ¬ inside (.directory id) → s'.directoryNode? id = s.directoryNode? id
  name : s'.directoryName top = s.directoryName top
  writable : s'.directoryWritable top = s.directoryWritable top
  place : s'.directoryParent? top = s.directoryParent? top
  owned : ∀ x y : Node, y.parent? s' = some x → y.parent? s = some x ∨ y.held s = false

section Changes

variable {inside : Node → Prop} {top dir sub : DirectoryId} {file : FileId} {s s' s'' : Store} {name : String}
  {bytes : Bytes} {writable : Bool}

theorem OnlyIn.refl (inside : Node → Prop) (top : DirectoryId) (s : Store) : OnlyIn inside top s s :=
  ⟨fun _ => id, fun _ _ => rfl, fun _ _ => rfl, rfl, rfl, rfl, fun _ _ => .inl⟩

theorem OnlyIn.trans (first : OnlyIn inside top s s') (second : OnlyIn inside top s' s'') :
    OnlyIn inside top s s'' := by
  refine ⟨fun x there => second.held x (first.held x there),
    fun id outside => (second.file id outside).trans (first.file id outside),
    fun id outside => (second.directory id outside).trans (first.directory id outside),
    second.name.trans first.name, second.writable.trans first.writable,
    second.place.trans first.place, fun x y owned => ?_⟩
  rcases second.owned x y owned with before | fresh
  · exact first.owned x y before
  · right
    cases there : y.held s with
    | false => rfl
    | true => simp [first.held y there] at fresh

theorem held_of_nodes (files : ∀ id, (s.fileNode? id).isSome → (s'.fileNode? id).isSome)
    (directories : ∀ id, (s.directoryNode? id).isSome → (s'.directoryNode? id).isSome) (x : Node)
    (there : x.held s = true) : x.held s' = true := by
  cases x with
  | file id => exact files id there
  | directory id => exact directories id there

theorem onlyIn_of_map {onFile : FileId → FileNode → FileNode}
    {onDirectory : DirectoryId → DirectoryNode → DirectoryNode}
    (files : ∀ id, s'.fileNode? id = (s.fileNode? id).map (onFile id))
    (directories : ∀ id, s'.directoryNode? id = (s.directoryNode? id).map (onDirectory id))
    (file : ∀ id node, s.fileNode? id = some node → ¬ inside (.file id) → onFile id node = node)
    (directory : ∀ id node, s.directoryNode? id = some node → ¬ inside (.directory id) →
      onDirectory id node = node)
    (fileKept : ∀ id node, (onFile id node).parent = none ∨ (onFile id node).parent = node.parent)
    (directoryKept : ∀ id node,
      (onDirectory id node).parent = none ∨ (onDirectory id node).parent = node.parent)
    (own : ∀ node, (onDirectory top node).name = node.name ∧ (onDirectory top node).writable = node.writable ∧
      (onDirectory top node).parent = node.parent) : OnlyIn inside top s s' where
  held := held_of_nodes (fun id there => by simpa [files] using there)
    (fun id there => by simpa [directories] using there)
  file id outside := by
    rw [files]
    cases node : s.fileNode? id with
    | none => rfl
    | some record => rw [Option.map_some, file id record node outside]
  directory id outside := by
    rw [directories]
    cases node : s.directoryNode? id with
    | none => rfl
    | some record => rw [Option.map_some, directory id record node outside]
  name := by
    rw [Store.directoryName, directories, Store.directoryName]
    cases s.directoryNode? top <;> simp [own]
  writable := by
    rw [Store.directoryWritable, directories, Store.directoryWritable]
    cases s.directoryNode? top <;> simp [own]
  place := by
    rw [Store.directoryParent?, directories, Store.directoryParent?]
    cases s.directoryNode? top <;> simp [own]
  owned x y owned := by
    -- a parent that is told afterwards was not lost, so it is the one from before
    left
    cases y with
    | file id =>
      rw [Node.parent?, Store.fileParent?, files] at owned
      rw [Node.parent?, Store.fileParent?]
      cases node : s.fileNode? id with
      | none => simp [node] at owned
      | some record => rcases fileKept id record with lost | kept <;> simp_all
    | directory id =>
      rw [Node.parent?, Store.directoryParent?, directories] at owned
      rw [Node.parent?, Store.directoryParent?]
      cases node : s.directoryNode? id with
      | none => simp [node] at owned
      | some record => rcases directoryKept id record with lost | kept <;> simp_all

theorem AddsFile.onlyIn (effect : AddsFile s s' dir file name bytes writable) (here : inside (.directory dir))
    (new : inside (.file file)) : OnlyIn inside top s s' where
  held := by
    refine held_of_nodes (fun id there => ?_) (fun id there => ?_)
    · rw [effect.fileNode]
      split <;> simp_all
    · rw [effect.directoryNode]
      simpa using there
  file id outside := by
    have apart : id ≠ file := fun same => outside (same ▸ new)
    rw [effect.fileNode, if_neg apart]
  directory id outside := by
    have apart : id ≠ dir := fun same => outside (same ▸ here)
    rw [effect.directoryNode]
    cases s.directoryNode? id <;> simp [apart]
  name := effect.directoryName top
  writable := effect.directoryWritable top
  place := effect.directoryParent? top
  owned x y owned := by
    cases y with
    | directory id => simpa [Node.parent?, effect.directoryParent?] using Or.inl owned
    | file id =>
      by_cases new : id = file
      · exact .inr (by simp [Node.held, new, effect.fresh])
      · simp only [Node.parent?, effect.fileParent?, if_neg new] at owned
        exact .inl owned

theorem AddsDirectory.onlyIn (effect : AddsDirectory s s' dir sub name) (here : inside (.directory dir))
    (new : inside (.directory sub)) (held : (s.directoryNode? top).isSome) : OnlyIn inside top s s' := by
  have apart : top ≠ sub := by
    rintro rfl
    simp [effect.fresh] at held
  exact {
    held := by
      refine held_of_nodes (fun id there => ?_) (fun id there => ?_)
      · rwa [effect.fileNode]
      · rw [effect.directoryNode]
        split <;> simp_all
    file := fun id _ => effect.fileNode id
    directory := fun id outside => by
      have other : id ≠ sub := fun same => outside (same ▸ new)
      have notHere : id ≠ dir := fun same => outside (same ▸ here)
      rw [effect.directoryNode, if_neg other]
      cases s.directoryNode? id <;> simp [notHere]
    name := by rw [effect.directoryName, if_neg apart]
    writable := by rw [effect.directoryWritable, if_neg apart]
    place := by rw [effect.directoryParent?, if_neg apart]
    owned := fun x y owned => by
      cases y with
      | file id =>
        left
        simpa [Node.parent?, Store.fileParent?, effect.fileNode] using owned
      | directory id =>
        by_cases new : id = sub
        · exact .inr (by simp [Node.held, new, effect.fresh])
        · simp only [Node.parent?, effect.directoryParent?, if_neg new] at owned
          exact .inl owned }

theorem Drops.onlyIn {files : List FileId} {dirs : List DirectoryId} (effect : Drops s s' files dirs)
    (lostFiles : ∀ id ∈ files, inside (.file id)) (lost : ∀ id ∈ dirs, inside (.directory id))
    (apart : top ∉ dirs)
    (unlisted : ∀ id, ¬ inside (.directory id) → (∀ file ∈ files, file ∉ s.files id) ∧
      ∀ sub ∈ dirs, sub ∉ s.subdirectories id) : OnlyIn inside top s s' := by
  refine onlyIn_of_map effect.fileNode effect.directoryNode ?_ ?_ ?_ ?_ ?_
  · intro id record _ outside
    rw [if_neg fun among => outside (lostFiles id among)]
  · intro id record node outside
    obtain ⟨noFile, noDirectory⟩ := unlisted id outside
    have filesOf : s.files id = record.files := by simp [Store.files, node]
    have dirsOf : s.subdirectories id = record.subdirectories := by simp [Store.subdirectories, node]
    rw [filesOf] at noFile
    rw [dirsOf] at noDirectory
    have sameFiles : record.files.filter (· ∉ files) = record.files :=
      List.filter_eq_self.mpr fun file listed => by simpa using fun among => noFile file among listed
    have sameDirs : record.subdirectories.filter (· ∉ dirs) = record.subdirectories :=
      List.filter_eq_self.mpr fun sub listed => by simpa using fun among => noDirectory sub among listed
    rw [if_neg fun among => outside (lost id among), sameFiles, sameDirs]
  · intro id record
    by_cases gone : id ∈ files <;> simp [gone]
  · intro id record
    by_cases gone : id ∈ dirs <;> simp [gone]
  · simp [apart]

theorem onlyIn_of_file {change : FileNode → FileNode}
    (files : ∀ id, s'.fileNode? id = (s.fileNode? id).map fun node => if id = file then change node else node)
    (directories : ∀ id, s'.directoryNode? id = s.directoryNode? id)
    (kept : ∀ node, (change node).parent = node.parent) (here : inside (.file file)) : OnlyIn inside top s s' := by
  refine onlyIn_of_map files (fun id => by rw [directories, Option.map_id'])
    ?_ (fun _ _ _ _ => rfl) ?_ (fun _ _ => .inr rfl) (fun _ => ⟨rfl, rfl, rfl⟩)
  · intro id record _ outside
    have apart : id ≠ file := fun same => outside (same ▸ here)
    rw [if_neg apart]
  · intro id record
    by_cases same : id = file <;> simp [same, kept]

theorem RenamesFile.onlyIn (effect : RenamesFile s s' file name) (here : inside (.file file)) :
    OnlyIn inside top s s' := onlyIn_of_file effect.fileNode effect.directoryNode (fun _ => rfl) here

theorem RenamesDirectory.onlyIn (effect : RenamesDirectory s s' dir name) (here : inside (.directory dir))
    (apart : dir ≠ top) : OnlyIn inside top s s' := by
  refine onlyIn_of_map (fun id => by rw [effect.fileNode, Option.map_id']) effect.directoryNode
    (fun _ _ _ _ => rfl) ?_ (fun _ _ => .inr rfl) ?_ ?_
  · intro id record _ outside
    have other : id ≠ dir := fun same => outside (same ▸ here)
    rw [if_neg other]
  · intro id record
    by_cases same : id = dir <;> simp [same]
  · simp [apart.symm]

theorem FillsFile.onlyIn {change : Bytes → Bytes} (effect : FillsFile s s' file change)
    (here : inside (.file file)) : OnlyIn inside top s s' :=
  onlyIn_of_file effect.fileNode effect.directoryNode (fun _ => rfl) here

end Changes

def Domain (s : Store) (top : DirectoryId) (x : Node) : Prop :=
  x.held s = false ∨ Within s (.directory top) x

section Domain

variable {s₀ s s' : Store} {top dir : DirectoryId} {file : FileId} {x y : Node}

/-- The states that differ from the first within a directory alone. -/
structure Apart (s₀ : Store) (top : DirectoryId) (s : Store) : Prop where
  first : s₀.Sound
  sound : s.Sound
  stands : (s₀.directoryNode? top).isSome
  only : OnlyIn (s₀.Domain top) top s₀ s

variable (apart : Apart s₀ top s)
include apart

theorem Apart.fresh (new : x.held s = false) : s₀.Domain top x := by
  left
  cases there : x.held s₀ with
  | false => rfl
  | true => simp [apart.only.held x there] at new

theorem Apart.child (here : s₀.Domain top x) (owned : y.parent? s = some x) : s₀.Domain top y := by
  rcases apart.only.owned x y owned with before | new
  · obtain ⟨held, -⟩ := apart.first.parent_held before
    rcases here with fresh | within
    · simp [fresh] at held
    · exact .inr (within.child (apart.first.child?_eq_some.mpr ⟨before, rfl⟩))
  · exact .inl new

theorem Apart.child_ne_top (here : s₀.Domain top (.directory dir)) {sub : DirectoryId}
    (owned : s.directoryParent? sub = some dir) : sub ≠ top := by
  rintro rfl
  have before : (Node.directory sub).parent? s₀ = some (.directory dir) := by
    rw [Node.parent?, ← apart.only.place, owned]
    rfl
  obtain ⟨held, -⟩ := apart.first.parent_held before
  rcases here with fresh | ⟨path, reached⟩
  · simp [fresh] at held
  · have back := apart.first.descend?_concat_eq_some.mpr ⟨_, reached, before, rfl⟩
    simpa using apart.first.no_cycle back

theorem Apart.after (sound : s'.Sound) (change : OnlyIn (s₀.Domain top) top s s') : Apart s₀ top s' :=
  ⟨apart.first, sound, apart.stands, apart.only.trans change⟩

theorem Apart.file_mem (here : s₀.Domain top (.directory dir)) (listed : file ∈ s.files dir) :
    s₀.Domain top (.file file) := by
  refine apart.child here ?_
  rw [Node.parent?, (apart.sound.file_listed file dir).mp listed]
  rfl

theorem Apart.directory_mem (here : s₀.Domain top (.directory dir)) {sub : DirectoryId}
    (listed : sub ∈ s.subdirectories dir) : s₀.Domain top (.directory sub) ∧ sub ≠ top := by
  have owned := (apart.sound.directory_listed sub dir).mp listed
  refine ⟨apart.child here ?_, apart.child_ne_top here owned⟩
  rw [Node.parent?, owned]
  rfl

theorem Apart.write (here : s₀.Domain top (.file file)) (offset : Nat) (data : Bytes) :
    Apart s₀ top (s.write file offset data).2 := by
  rcases s.write_fills file offset data with same | ⟨after, done, effect⟩
  · rwa [same]
  · rw [done]
    exact apart.after (effect.sound apart.sound) (effect.onlyIn here)

theorem Apart.resize (here : s₀.Domain top (.file file)) (size : Nat) :
    Apart s₀ top (s.resize file size).2 := by
  rcases s.resize_fills file size with same | ⟨after, done, effect⟩
  · rwa [same]
  · rw [done]
    exact apart.after (effect.sound apart.sound) (effect.onlyIn here)

theorem Apart.renameFile (here : s₀.Domain top (.file file)) (name : String) :
    Apart s₀ top (s.renameFile file name).2 := by
  rcases s.renameFile_renames file name with same | ⟨after, done, -, free, effect⟩
  · rwa [same]
  · rw [done]
    exact apart.after (effect.sound apart.sound free) (effect.onlyIn here)

theorem Apart.renameDirectory (here : s₀.Domain top (.directory dir)) (below : dir ≠ top) (name : String) :
    Apart s₀ top (s.renameDirectory dir name).2 := by
  rcases s.renameDirectory_renames dir name with same | ⟨after, done, -, free, effect⟩
  · rwa [same]
  · rw [done]
    exact apart.after (effect.sound apart.sound free) (effect.onlyIn here below)

theorem Apart.createFile (here : s₀.Domain top (.directory dir)) (name : String) :
    Apart s₀ top (s.createFile dir name).2 ∧
      ∀ new, (s.createFile dir name).1 = some new → s₀.Domain top (.file new) := by
  rcases s.createFile_cases dir name with refused | ⟨new, after, created⟩
  · rw [refused]
    exact ⟨apart, by simp⟩
  · obtain ⟨free, effect⟩ := createFile_some created
    have inside : s₀.Domain top (.file new) := apart.fresh (by simp [Node.held, effect.fresh])
    rw [created]
    refine ⟨apart.after (effect.sound apart.sound free) (effect.onlyIn here inside), ?_⟩
    rintro _ ⟨⟩
    exact inside

theorem Apart.createSubdirectory (here : s₀.Domain top (.directory dir)) (name : String) :
    Apart s₀ top (s.createSubdirectory dir name).2 ∧ ∀ new, (s.createSubdirectory dir name).1 = some new →
      s₀.Domain top (.directory new) ∧ new ≠ top := by
  rcases s.createSubdirectory_cases dir name with refused | ⟨new, after, created⟩
  · rw [refused]
    exact ⟨apart, by simp⟩
  · obtain ⟨free, effect⟩ := createSubdirectory_some created
    have inside : s₀.Domain top (.directory new) := apart.fresh (by simp [Node.held, effect.fresh])
    have held := apart.only.held (.directory top) apart.stands
    rw [created]
    refine ⟨apart.after (effect.sound apart.sound free) (effect.onlyIn here inside held), ?_⟩
    rintro _ ⟨⟩
    refine ⟨inside, ?_⟩
    rintro rfl
    simp [Node.held, effect.fresh] at held

theorem Apart.deleteFile (here : s₀.Domain top (.directory dir)) (name : String) :
    Apart s₀ top (s.deleteFile dir name).2 := by
  rcases apart.sound.deleteFile_drops dir name with refused | ⟨file, after, done, found, effect⟩
  · rwa [refused]
  · have listed := (file?_some found).1
    rw [done]
    refine apart.after (effect.sound apart.sound) (effect.onlyIn ?_ (by simp) (by simp) ?_)
    · simpa using apart.file_mem here listed
    · intro id outside
      have other : id ≠ dir := fun same => outside (same ▸ here)
      refine ⟨fun gone among there => other ?_, by simp⟩
      obtain rfl := List.mem_singleton.mp among
      have one := (apart.sound.file_listed gone id).mp there
      have two := (apart.sound.file_listed gone dir).mp listed
      exact Option.some.inj (one.symm.trans two)

theorem Apart.deleteSubdirectory (here : s₀.Domain top (.directory dir)) (name : String) :
    Apart s₀ top (s.deleteSubdirectory dir name).2 := by
  rcases apart.sound.deleteSubdirectory_drops dir name with refused | ⟨sub, after, done, found, -, effect⟩
  · rwa [refused]
  · have listed := (subdirectory?_some found).1
    obtain ⟨inside, below⟩ := apart.directory_mem here listed
    rw [done]
    refine apart.after (effect.sound apart.sound) (effect.onlyIn (by simp) ?_ ?_ ?_)
    · simpa using inside
    · simpa using below.symm
    · intro id outside
      have other : id ≠ dir := fun same => outside (same ▸ here)
      refine ⟨by simp, fun gone among there => other ?_⟩
      obtain rfl := List.mem_singleton.mp among
      have one := (apart.sound.directory_listed gone id).mp there
      have two := (apart.sound.directory_listed gone dir).mp listed
      exact Option.some.inj (one.symm.trans two)

end Domain

def domain (s₀ : Store) (top : DirectoryId) : Tree.Region Store where
  holds := Apart s₀ top
  file id := s₀.Domain top (.file id)
  directory id := s₀.Domain top (.directory id)
  below id := s₀.Domain top (.directory id) ∧ id ≠ top
  directory_of_below below := below.1
  subdirectories apart here listed := apart.directory_mem here listed
  file? apart here found := apart.file_mem here (file?_some found).1
  subdirectory? apart here found := apart.directory_mem here (subdirectory?_some found).1
  write offset data apart here := apart.write here offset data
  resize size apart here := apart.resize here size
  renameFile name apart here := apart.renameFile here name
  renameDirectory name apart below := apart.renameDirectory below.1 below.2 name
  createFile name apart here := apart.createFile here name
  createSubdirectory name apart here := apart.createSubdirectory here name
  deleteFile name apart here := apart.deleteFile here name
  deleteSubdirectory name apart here := apart.deleteSubdirectory here name

section Outside

variable {s₀ s : Store} {top dir : DirectoryId} {x y : Node} {root : Node} {path : List String}

theorem not_domain (held : x.held s₀ = true) (outside : ¬ Within s₀ (.directory top) x) :
    ¬ s₀.Domain top x := by
  rintro (fresh | within)
  · simp [fresh] at held
  · exact outside within

variable (apart : Apart s₀ top s)
include apart

theorem Apart.child_outside (outside : ¬ s₀.Domain top x) (owned : y.parent? s₀ = some x) :
    ¬ s₀.Domain top y ∨ y = .directory top := by
  by_cases inside : s₀.Domain top y
  · obtain ⟨-, held⟩ := apart.first.parent_held owned
    rcases inside with fresh | ⟨path, reached⟩
    · simp [fresh] at held
    · rcases List.eq_nil_or_concat' path with rfl | ⟨front, last, rfl⟩
      · exact .inr (Option.some.inj reached).symm
      · obtain ⟨holder, before, parent, -⟩ := apart.first.descend?_concat_eq_some.mp reached
        obtain rfl := Option.some.inj (parent.symm.trans owned)
        exact absurd (.inr ⟨front, before⟩) outside
  · exact .inl inside

theorem Apart.parent_outside (outside : ¬ s₀.Domain top y ∨ y = .directory top)
    (owned : y.parent? s₀ = some x) : ¬ s₀.Domain top x := by
  obtain ⟨held, -⟩ := apart.first.parent_held owned
  rintro (fresh | ⟨front, before⟩)
  · simp [fresh] at held
  · have reached := apart.first.descend?_concat_eq_some.mpr ⟨x, before, owned, rfl⟩
    rcases outside with outside | rfl
    · exact outside (.inr ⟨_, reached⟩)
    · simpa using apart.first.no_cycle reached

theorem Apart.name_eq (outside : ¬ s₀.Domain top y ∨ y = .directory top) : y.name s = y.name s₀ := by
  rcases outside with outside | rfl
  · cases y with
    | file id => exact fileName_of_node (apart.only.file id outside)
    | directory id => exact directoryName_of_node (apart.only.directory id outside)
  · exact apart.only.name

theorem Apart.children_eq (outside : ¬ s₀.Domain top x) : x.children s = x.children s₀ := by
  cases x with
  | file id => rfl
  | directory id =>
    have node := apart.only.directory id outside
    rw [Node.children, files_of_node node, subdirectories_of_node node, Node.children]

theorem Apart.child?_of_outside (outside : ¬ s₀.Domain top x) {name : String}
    (found : x.child? s₀ name = some y) : x.child? s name = some y := by
  obtain ⟨owned, rfl⟩ := apart.first.child?_eq_some.mp found
  refine apart.sound.child?_eq_some.mpr ⟨?_, apart.name_eq (apart.child_outside outside owned)⟩
  rw [← apart.sound.mem_children, apart.children_eq outside, apart.first.mem_children]
  exact owned

theorem Apart.descend?_of_outside (reached : root.descend? s₀ path = some y)
    (outside : ¬ s₀.Domain top y ∨ y = .directory top) : root.descend? s path = some y := by
  induction path using List.reverseRecOn generalizing y with
  | nil => exact reached
  | append_singleton front name ih =>
    rw [descend?_concat, Option.bind_eq_some_iff] at reached
    obtain ⟨holder, before, found⟩ := reached
    have owned := (apart.first.child?_eq_some.mp found).1
    have around := apart.parent_outside outside owned
    rw [descend?_concat, ih before (.inl around), Option.bind_some]
    exact apart.child?_of_outside around found

theorem Apart.sameView (outside : ¬ s₀.Domain top (.directory dir)) : Tree.SameView s₀ s dir := by
  have node := apart.only.directory dir outside
  refine ⟨directoryName_of_node node, directoryWritable_of_node node, files_of_node node,
    subdirectories_of_node node, fun file listed readOnly => ?_⟩
  have owned : (Node.file file).parent? s₀ = some (.directory dir) := by
    rw [Node.parent?, (apart.first.file_listed file dir).mp listed]
    rfl
  have around := (apart.child_outside outside owned).resolve_right (by simp)
  have own := apart.only.file file around
  simp only [Tree.FileView.snapshot, Tree.FileView.name, Tree.FileView.size, Tree.FileView.isWritable,
    Tree.FileView.readAll, Tree.FileView.read, Tree.Backing.fileName, Tree.Backing.fileSize,
    Tree.Backing.fileWritable, Tree.Backing.read, Store.read, fileName_of_node own, fileBytes_of_node own,
    fileWritable_of_node own]

theorem Apart.reach_le : s₀.reach ≤ s.reach := by
  cases size : s₀.directoryNodes.size with
  | zero => simp [reach, size]
  | succ last =>
    have old : (Node.directory ⟨last⟩).held s₀ = true := by simp [Node.held, directoryNode?, size]
    have new := apart.only.held _ old
    have bound : last < s.directoryNodes.size := by simpa [Node.held, directoryNode?] using new
    rw [reach, reach, size]
    omega

/-- All that can be seen of a directory is as before when neither it nor what lies below is of the part. -/
theorem Apart.snapshot_eq {view : Tree.DirectoryView DirectoryId}
    (outside : ∀ x, Within s₀ (.directory view.node) x → ¬ s₀.Domain top x) :
    view.snapshot s = view.snapshot s₀ := by
  have closed : ∀ dir, Within s₀ (.directory view.node) (.directory dir) →
      ∀ sub ∈ s₀.subdirectories dir, Within s₀ (.directory view.node) (.directory sub) :=
    fun dir within sub listed => within.child
      (child?_directory_eq_some.mpr (apart.first.subdirectory?_eq_some.mpr ⟨listed, rfl⟩))
  have same := Tree.DirectoryView.snapshotWithin_congr closed
    (fun dir within => apart.sameView (outside _ within)) (Within.refl _) s.reach
  exact same.trans (apart.first.snapshotWithin_reach view apart.reach_le)

end Outside

end GuestStorage.Memory.Store
