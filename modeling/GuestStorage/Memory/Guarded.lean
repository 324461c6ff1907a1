import GuestStorage.Memory.Store

namespace GuestStorage.Memory

structure DirectoryRefusals where
  createFile : Bool := false
  createSubdirectory : Bool := false
  deleteFile : Bool := false
  deleteSubdirectory : Bool := false
  rename : Bool := false
  reading : Bool := false
  writing : Bool := false
  deriving DecidableEq

structure FileRefusals where
  resize : Bool := false
  rename : Bool := false
  reading : Bool := false
  writing : Bool := false
  /-- How many bytes of each write are passed on. -/
  writeLimit : Option Nat := none
  deriving DecidableEq

/-- The flags `reading` and `writing` only change what a node says of itself. -/
structure Guarded where
  store : Store
  ofDirectory : String → DirectoryRefusals := fun _ => {}
  ofFile : String → FileRefusals := fun _ => {}

namespace Guarded

def directoryRefusals (g : Guarded) (dir : DirectoryId) : DirectoryRefusals :=
  g.ofDirectory (g.store.directoryPath dir)

def fileRefusals (g : Guarded) (file : FileId) : FileRefusals := g.ofFile (g.store.filePath file)

def replace {α : Type} (g : Guarded) (step : α × Store) : α × Guarded :=
  (step.1, { g with store := step.2 })

def write (g : Guarded) (file : FileId) (offset : Nat) (data : Bytes) : Nat × Guarded :=
  match (g.fileRefusals file).writeLimit with
  | none => g.replace (g.store.write file offset data)
  | some limit => g.replace (g.store.write file offset (data.take limit))

def resize (g : Guarded) (file : FileId) (size : Nat) : Bool × Guarded :=
  if (g.fileRefusals file).resize then (false, g) else g.replace (g.store.resize file size)

def renameFile (g : Guarded) (file : FileId) (name : String) : Option FileId × Guarded :=
  if (g.fileRefusals file).rename then (none, g)
  else g.replace (Tree.Backing.renameFile g.store file name)

def createFile (g : Guarded) (dir : DirectoryId) (name : String) : Option FileId × Guarded :=
  if (g.directoryRefusals dir).createFile then (none, g) else g.replace (g.store.createFile dir name)

def createSubdirectory (g : Guarded) (dir : DirectoryId) (name : String) :
    Option DirectoryId × Guarded :=
  if (g.directoryRefusals dir).createSubdirectory then (none, g)
  else g.replace (g.store.createSubdirectory dir name)

def deleteFile (g : Guarded) (dir : DirectoryId) (name : String) : Bool × Guarded :=
  if (g.directoryRefusals dir).deleteFile then (false, g) else g.replace (g.store.deleteFile dir name)

def deleteSubdirectory (g : Guarded) (dir : DirectoryId) (name : String) : Bool × Guarded :=
  if (g.directoryRefusals dir).deleteSubdirectory then (false, g)
  else g.replace (g.store.deleteSubdirectory dir name)

def renameDirectory (g : Guarded) (dir : DirectoryId) (name : String) :
    Option DirectoryId × Guarded :=
  if (g.directoryRefusals dir).rename then (none, g)
  else g.replace (Tree.Backing.renameDirectory g.store dir name)

end Guarded

instance : Tree.Backing Guarded FileId DirectoryId where
  fileName g := g.store.fileName
  fileSize g file := (g.store.fileBytes file).length
  filePath g := g.store.filePath
  fileParent? g := g.store.fileParent?
  fileReadable g file := !(g.fileRefusals file).reading
  fileWritable g file := !(g.fileRefusals file).writing && g.store.fileWritable file
  read g := g.store.read
  write := Guarded.write
  resize := Guarded.resize
  renameFile := Guarded.renameFile
  directoryName g := g.store.directoryName
  directoryPath g := g.store.directoryPath
  parent? g := g.store.directoryParent?
  directoryReadable g dir := !(g.directoryRefusals dir).reading
  directoryWritable g dir := !(g.directoryRefusals dir).writing && g.store.directoryWritable dir
  files g := g.store.files
  subdirectories g := g.store.subdirectories
  file? g := g.store.file?
  subdirectory? g := g.store.subdirectory?
  createFile := Guarded.createFile
  createSubdirectory := Guarded.createSubdirectory
  deleteFile := Guarded.deleteFile
  deleteSubdirectory := Guarded.deleteSubdirectory
  renameDirectory := Guarded.renameDirectory
  release g held := { g with store := g.store.release held }
  reach g _ := g.store.reach

end GuestStorage.Memory
