import GuestStorage.Tree.Backing

namespace GuestStorage.Tree

structure Shelf (σ : Type) where
  volumes : Array σ

structure OnVolume (α : Type) where
  volume : Nat
  node : α
  deriving DecidableEq

namespace Shelf

variable {σ F D : Type} [Backing σ F D]

def empty : Shelf σ := ⟨#[]⟩

def add (shelf : Shelf σ) (volume : σ) : Nat × Shelf σ :=
  (shelf.volumes.size, ⟨shelf.volumes.push volume⟩)

def ask {α κ : Type} (other : κ) (query : σ → α → κ) (shelf : Shelf σ) (place : OnVolume α) : κ :=
  match shelf.volumes[place.volume]? with
  | none => other
  | some volume => query volume place.node

def act {α κ : Type} (other : κ) (step : σ → α → κ × σ) (shelf : Shelf σ) (place : OnVolume α) :
    κ × Shelf σ :=
  match shelf.volumes[place.volume]? with
  | none => (other, shelf)
  | some volume =>
    let (result, volume) := step volume place.node
    (result, ⟨shelf.volumes.set! place.volume volume⟩)

instance : Backing (Shelf σ) (OnVolume F) (OnVolume D) where
  fileName := ask "" Backing.fileName
  fileSize := ask 0 Backing.fileSize
  filePath := ask "" Backing.filePath
  fileParent? s file := (ask none Backing.fileParent? s file).map (⟨file.volume, ·⟩)
  fileReadable := ask false Backing.fileReadable
  fileWritable := ask false Backing.fileWritable
  read s file offset length := ask [] (fun s file => Backing.read s file offset length) s file
  write s file offset data := act 0 (fun s file => Backing.write s file offset data) s file
  resize s file size := act false (fun s file => Backing.resize s file size) s file
  renameFile s file name :=
    let (renamed, s) := act none (fun s file => Backing.renameFile s file name) s file
    (renamed.map (⟨file.volume, ·⟩), s)
  directoryName := ask "" Backing.directoryName
  directoryPath := ask "" Backing.directoryPath
  parent? s dir := (ask none Backing.parent? s dir).map (⟨dir.volume, ·⟩)
  directoryReadable := ask false Backing.directoryReadable
  directoryWritable := ask false Backing.directoryWritable
  files s dir := (ask [] Backing.files s dir).map (⟨dir.volume, ·⟩)
  subdirectories s dir := (ask [] Backing.subdirectories s dir).map (⟨dir.volume, ·⟩)
  file? s dir name := (ask none (fun s dir => Backing.file? s dir name) s dir).map (⟨dir.volume, ·⟩)
  subdirectory? s dir name :=
    (ask none (fun s dir => Backing.subdirectory? s dir name) s dir).map (⟨dir.volume, ·⟩)
  createFile s dir name :=
    let (created, s) := act none (fun s dir => Backing.createFile s dir name) s dir
    (created.map (⟨dir.volume, ·⟩), s)
  createSubdirectory s dir name :=
    let (created, s) := act none (fun s dir => Backing.createSubdirectory s dir name) s dir
    (created.map (⟨dir.volume, ·⟩), s)
  deleteFile s dir name := act false (fun s dir => Backing.deleteFile s dir name) s dir
  deleteSubdirectory s dir name := act false (fun s dir => Backing.deleteSubdirectory s dir name) s dir
  renameDirectory s dir name :=
    let (renamed, s) := act none (fun s dir => Backing.renameDirectory s dir name) s dir
    (renamed.map (⟨dir.volume, ·⟩), s)
  release shelf held := ⟨shelf.volumes.mapIdx fun number volume =>
    Backing.release volume (held.filterMap fun place => if place.volume == number then some place.node else none)⟩
  reach := ask 0 Backing.reach

end Shelf

end GuestStorage.Tree

namespace GuestStorage.Tree.Either

variable {σ τ F G D E : Type} [Backing σ F D] [Backing τ G E]

def ask {α β γ δ κ : Type} (other : κ) (left : α → γ → κ) (right : β → δ → κ) : α ⊕ β → γ ⊕ δ → κ
  | .inl s, .inl node => left s node
  | .inr s, .inr node => right s node
  | _, _ => other

def act {α β γ δ κ κ' κ'' : Type} (other : κ'') (ofLeft : κ → κ'') (ofRight : κ' → κ'')
    (left : α → γ → κ × α) (right : β → δ → κ' × β) : α ⊕ β → γ ⊕ δ → κ'' × (α ⊕ β)
  | .inl s, .inl node => let (result, s) := left s node; (ofLeft result, .inl s)
  | .inr s, .inr node => let (result, s) := right s node; (ofRight result, .inr s)
  | s, _ => (other, s)

instance : Backing (σ ⊕ τ) (F ⊕ G) (D ⊕ E) where
  fileName := ask "" Backing.fileName Backing.fileName
  fileSize := ask 0 Backing.fileSize Backing.fileSize
  filePath := ask "" Backing.filePath Backing.filePath
  fileParent? := ask none (fun s file => (Backing.fileParent? s file).map .inl)
    fun s file => (Backing.fileParent? s file).map .inr
  fileReadable := ask false Backing.fileReadable Backing.fileReadable
  fileWritable := ask false Backing.fileWritable Backing.fileWritable
  read s file offset length := ask [] (fun s file => Backing.read s file offset length)
    (fun s file => Backing.read s file offset length) s file
  write s file offset data := act 0 id id (fun s file => Backing.write s file offset data)
    (fun s file => Backing.write s file offset data) s file
  resize s file size := act false id id (fun s file => Backing.resize s file size)
    (fun s file => Backing.resize s file size) s file
  renameFile s file name := act none (Option.map .inl) (Option.map .inr)
    (fun s file => Backing.renameFile s file name) (fun s file => Backing.renameFile s file name) s file
  directoryName := ask "" Backing.directoryName Backing.directoryName
  directoryPath := ask "" Backing.directoryPath Backing.directoryPath
  parent? := ask none (fun s dir => (Backing.parent? s dir).map .inl)
    fun s dir => (Backing.parent? s dir).map .inr
  directoryReadable := ask false Backing.directoryReadable Backing.directoryReadable
  directoryWritable := ask false Backing.directoryWritable Backing.directoryWritable
  files := ask [] (fun s dir => (Backing.files s dir).map .inl)
    fun s dir => (Backing.files s dir).map .inr
  subdirectories := ask [] (fun s dir => (Backing.subdirectories s dir).map .inl)
    fun s dir => (Backing.subdirectories s dir).map .inr
  file? s dir name := ask none (fun s dir => (Backing.file? s dir name).map .inl)
    (fun s dir => (Backing.file? s dir name).map .inr) s dir
  subdirectory? s dir name := ask none (fun s dir => (Backing.subdirectory? s dir name).map .inl)
    (fun s dir => (Backing.subdirectory? s dir name).map .inr) s dir
  createFile s dir name := act none (Option.map .inl) (Option.map .inr)
    (fun s dir => Backing.createFile s dir name) (fun s dir => Backing.createFile s dir name) s dir
  createSubdirectory s dir name := act none (Option.map .inl) (Option.map .inr)
    (fun s dir => Backing.createSubdirectory s dir name)
    (fun s dir => Backing.createSubdirectory s dir name) s dir
  deleteFile s dir name := act false id id (fun s dir => Backing.deleteFile s dir name)
    (fun s dir => Backing.deleteFile s dir name) s dir
  deleteSubdirectory s dir name := act false id id
    (fun s dir => Backing.deleteSubdirectory s dir name)
    (fun s dir => Backing.deleteSubdirectory s dir name) s dir
  renameDirectory s dir name := act none (Option.map .inl) (Option.map .inr)
    (fun s dir => Backing.renameDirectory s dir name)
    (fun s dir => Backing.renameDirectory s dir name) s dir
  release
    | .inl s, held => .inl (Backing.release s (held.filterMap Sum.getLeft?))
    | .inr s, held => .inr (Backing.release s (held.filterMap Sum.getRight?))
  reach := ask 0 Backing.reach Backing.reach

end GuestStorage.Tree.Either
