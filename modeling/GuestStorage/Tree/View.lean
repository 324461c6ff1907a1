import GuestStorage.Path
import GuestStorage.Text.Quoted
import GuestStorage.Tree.Backing

namespace GuestStorage.Tree

structure FileView (F : Type) where
  node : F
  readOnly : Bool
  deriving DecidableEq

structure DirectoryView (D : Type) where
  node : D
  readOnly : Bool
  deriving DecidableEq

variable {σ F D : Type} [Backing σ F D]

namespace FileView

def direct (node : F) : FileView F := ⟨node, false⟩

def project (file : FileView F) : FileView F := { file with readOnly := true }

@[simp] theorem project_project (file : FileView F) : file.project.project = file.project := rfl

def name (s : σ) (file : FileView F) : String := Backing.fileName s file.node

def size (s : σ) (file : FileView F) : Nat := Backing.fileSize s file.node

def path (s : σ) (file : FileView F) : String := Backing.filePath s file.node

def parent? (s : σ) (file : FileView F) : Option (DirectoryView D) :=
  (Backing.fileParent? s file.node).map (⟨·, file.readOnly⟩)

def isReadable (s : σ) (file : FileView F) : Bool := Backing.fileReadable s file.node

def isWritable (s : σ) (file : FileView F) : Bool :=
  !file.readOnly && Backing.fileWritable s file.node

def read (s : σ) (file : FileView F) (offset length : Nat) : Bytes :=
  Backing.read s file.node offset length

def readAll (s : σ) (file : FileView F) : Bytes := file.read s 0 (file.size s)

def write (s : σ) (file : FileView F) (offset : Nat) (data : Bytes) : Nat × σ :=
  if file.readOnly then (0, s) else Backing.write s file.node offset data

def resize (s : σ) (file : FileView F) (size : Nat) : Bool × σ :=
  if file.readOnly then (false, s) else Backing.resize s file.node size

def rename (s : σ) (file : FileView F) (name : String) : Option (FileView F) × σ :=
  if file.readOnly then (none, s)
  else
    let (renamed, s) := Backing.renameFile s file.node name
    (renamed.map direct, s)

@[simp] theorem isWritable_project (s : σ) (file : FileView F) : file.project.isWritable s = false := rfl

@[simp] theorem write_project (s : σ) (file : FileView F) (offset : Nat) (data : Bytes) :
    file.project.write s offset data = (0, s) := rfl

@[simp] theorem resize_project (s : σ) (file : FileView F) (size : Nat) :
    file.project.resize s size = (false, s) := rfl

@[simp] theorem rename_project (s : σ) (file : FileView F) (name : String) :
    file.project.rename s name = (none, s) := rfl

end FileView

namespace DirectoryView

def direct (node : D) : DirectoryView D := ⟨node, false⟩

def project (dir : DirectoryView D) : DirectoryView D := { dir with readOnly := true }

@[simp] theorem project_project (dir : DirectoryView D) : dir.project.project = dir.project := rfl

def name (s : σ) (dir : DirectoryView D) : String := Backing.directoryName s dir.node

def path (s : σ) (dir : DirectoryView D) : String := Backing.directoryPath s dir.node

def parent? (s : σ) (dir : DirectoryView D) : Option (DirectoryView D) :=
  (Backing.parent? s dir.node).map (⟨·, dir.readOnly⟩)

def isRoot (s : σ) (dir : DirectoryView D) : Bool := (dir.parent? s).isNone

def isReadable (s : σ) (dir : DirectoryView D) : Bool := Backing.directoryReadable s dir.node

def isWritable (s : σ) (dir : DirectoryView D) : Bool :=
  !dir.readOnly && Backing.directoryWritable s dir.node

def files (s : σ) (dir : DirectoryView D) : List (FileView F) :=
  (Backing.files s dir.node).map (⟨·, dir.readOnly⟩)

def subdirectories (s : σ) (dir : DirectoryView D) : List (DirectoryView D) :=
  (Backing.subdirectories s dir.node).map (⟨·, dir.readOnly⟩)

def file? (s : σ) (dir : DirectoryView D) (name : String) : Option (FileView F) :=
  (Backing.file? s dir.node name).map (⟨·, dir.readOnly⟩)

def subdirectory? (s : σ) (dir : DirectoryView D) (name : String) : Option (DirectoryView D) :=
  (Backing.subdirectory? s dir.node name).map (⟨·, dir.readOnly⟩)

def hasEntry (s : σ) (dir : DirectoryView D) (name : String) : Bool :=
  (dir.file? s name).isSome || (dir.subdirectory? s name).isSome

def createFile (s : σ) (dir : DirectoryView D) (name : String) : Option (FileView F) × σ :=
  if dir.readOnly then (none, s)
  else
    let (created, s) := Backing.createFile s dir.node name
    (created.map FileView.direct, s)

def createSubdirectory (s : σ) (dir : DirectoryView D) (name : String) :
    Option (DirectoryView D) × σ :=
  if dir.readOnly then (none, s)
  else
    let (created, s) := Backing.createSubdirectory s dir.node name
    (created.map direct, s)

def deleteFile (s : σ) (dir : DirectoryView D) (name : String) : Bool × σ :=
  if dir.readOnly then (false, s) else Backing.deleteFile s dir.node name

def deleteSubdirectory (s : σ) (dir : DirectoryView D) (name : String) : Bool × σ :=
  if dir.readOnly then (false, s) else Backing.deleteSubdirectory s dir.node name

def rename (s : σ) (dir : DirectoryView D) (name : String) : Option (DirectoryView D) × σ :=
  if dir.readOnly then (none, s)
  else
    let (renamed, s) := Backing.renameDirectory s dir.node name
    (renamed.map direct, s)

@[simp] theorem isWritable_project (s : σ) (dir : DirectoryView D) :
    dir.project.isWritable s = false := rfl

@[simp] theorem createFile_project (s : σ) (dir : DirectoryView D) (name : String) :
    dir.project.createFile s name = (none, s) := rfl

@[simp] theorem createSubdirectory_project (s : σ) (dir : DirectoryView D) (name : String) :
    dir.project.createSubdirectory s name = (none, s) := rfl

@[simp] theorem deleteFile_project (s : σ) (dir : DirectoryView D) (name : String) :
    dir.project.deleteFile s name = (false, s) := rfl

@[simp] theorem deleteSubdirectory_project (s : σ) (dir : DirectoryView D) (name : String) :
    dir.project.deleteSubdirectory s name = (false, s) := rfl

@[simp] theorem rename_project (s : σ) (dir : DirectoryView D) (name : String) :
    dir.project.rename s name = (none, s) := rfl

end DirectoryView

def describe (kind path : String) (readOnly : Bool) : String :=
  kind ++ " \x7b path: " ++ Text.Quoted.quote path ++ ", read_only: "
    ++ (if readOnly then "true" else "false") ++ " \x7d"

def FileView.describe (s : σ) (file : FileView F) : String :=
  Tree.describe "VirtualFile" (file.path s) file.readOnly

def DirectoryView.describe (s : σ) (dir : DirectoryView D) : String :=
  Tree.describe "VirtualDir" (dir.path s) dir.readOnly

end GuestStorage.Tree
