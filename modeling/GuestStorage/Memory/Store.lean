import GuestStorage.Bytes
import GuestStorage.Path
import GuestStorage.Tree.Backing

namespace GuestStorage.Memory

structure FileId where
  index : Nat
  deriving DecidableEq

structure DirectoryId where
  index : Nat
  deriving DecidableEq

structure FileNode where
  name : String
  bytes : Bytes
  writable : Bool
  parent : Option DirectoryId
  deriving DecidableEq

structure DirectoryNode where
  name : String
  writable : Bool
  parent : Option DirectoryId
  files : List FileId
  subdirectories : List DirectoryId
  deriving DecidableEq

structure Store where
  fileNodes : Array FileNode
  directoryNodes : Array DirectoryNode
  deriving DecidableEq

namespace Store

def empty : Store := ⟨#[], #[]⟩

def fileNode? (s : Store) (file : FileId) : Option FileNode := s.fileNodes[file.index]?

def directoryNode? (s : Store) (dir : DirectoryId) : Option DirectoryNode :=
  s.directoryNodes[dir.index]?

def fileName (s : Store) (file : FileId) : String := ((s.fileNode? file).map (·.name)).getD ""

def directoryName (s : Store) (dir : DirectoryId) : String :=
  ((s.directoryNode? dir).map (·.name)).getD ""

def fileBytes (s : Store) (file : FileId) : Bytes := ((s.fileNode? file).map (·.bytes)).getD []

def fileParent? (s : Store) (file : FileId) : Option DirectoryId :=
  (s.fileNode? file).bind (·.parent)

def directoryParent? (s : Store) (dir : DirectoryId) : Option DirectoryId :=
  (s.directoryNode? dir).bind (·.parent)

def fileWritable (s : Store) (file : FileId) : Bool := ((s.fileNode? file).map (·.writable)).getD false

def directoryWritable (s : Store) (dir : DirectoryId) : Bool :=
  ((s.directoryNode? dir).map (·.writable)).getD false

def files (s : Store) (dir : DirectoryId) : List FileId :=
  ((s.directoryNode? dir).map (·.files)).getD []

def subdirectories (s : Store) (dir : DirectoryId) : List DirectoryId :=
  ((s.directoryNode? dir).map (·.subdirectories)).getD []

def file? (s : Store) (dir : DirectoryId) (name : String) : Option FileId :=
  (s.files dir).find? (s.fileName · == name)

def subdirectory? (s : Store) (dir : DirectoryId) (name : String) : Option DirectoryId :=
  (s.subdirectories dir).find? (s.directoryName · == name)

def hasChild (s : Store) (dir : DirectoryId) (name : String) : Bool :=
  (s.file? dir name).isSome || (s.subdirectory? dir name).isSome

/-- More steps than an upward or downward walk without repetition can take. -/
def reach (s : Store) : Nat := s.directoryNodes.size + 1

def directoryPathWithin (s : Store) : Nat → DirectoryId → String
  | 0, dir => s.directoryName dir
  | steps + 1, dir =>
    match s.directoryParent? dir with
    | none => s.directoryName dir
    | some parent => Path.child (directoryPathWithin s steps parent) (s.directoryName dir)

def directoryPath (s : Store) (dir : DirectoryId) : String := s.directoryPathWithin s.reach dir

def filePath (s : Store) (file : FileId) : String :=
  match s.fileParent? file with
  | none => s.fileName file
  | some parent => Path.child (s.directoryPath parent) (s.fileName file)

def modifyFile (s : Store) (file : FileId) (change : FileNode → FileNode) : Store :=
  { s with fileNodes := s.fileNodes.modify file.index change }

def modifyDirectory (s : Store) (dir : DirectoryId) (change : DirectoryNode → DirectoryNode) : Store :=
  { s with directoryNodes := s.directoryNodes.modify dir.index change }

theorem fileNode?_modifyFile (s : Store) (file other : FileId) (change : FileNode → FileNode) :
    (s.modifyFile file change).fileNode? other =
      if other = file then (s.fileNode? file).map change else s.fileNode? other := by
  by_cases same : other = file
  · simp [fileNode?, modifyFile, same, Array.getElem?_modify]
  · have apart : file.index ≠ other.index := fun equal => same (by cases other; cases file; simp_all)
    simp [fileNode?, modifyFile, same, Array.getElem?_modify, apart]

theorem directoryNode?_modifyDirectory (s : Store) (dir other : DirectoryId)
    (change : DirectoryNode → DirectoryNode) :
    (s.modifyDirectory dir change).directoryNode? other =
      if other = dir then (s.directoryNode? dir).map change else s.directoryNode? other := by
  by_cases same : other = dir
  · simp [directoryNode?, modifyDirectory, same, Array.getElem?_modify]
  · have apart : dir.index ≠ other.index := fun equal => same (by cases other; cases dir; simp_all)
    simp [directoryNode?, modifyDirectory, same, Array.getElem?_modify, apart]

@[simp] theorem directoryNode?_modifyFile (s : Store) (file : FileId) (change : FileNode → FileNode)
    (dir : DirectoryId) : (s.modifyFile file change).directoryNode? dir = s.directoryNode? dir := rfl

@[simp] theorem fileNode?_modifyDirectory (s : Store) (dir : DirectoryId)
    (change : DirectoryNode → DirectoryNode) (file : FileId) :
    (s.modifyDirectory dir change).fileNode? file = s.fileNode? file := rfl

def newFile (s : Store) (name : String) (bytes : Bytes) (writable : Bool) : FileId × Store :=
  (⟨s.fileNodes.size⟩, { s with fileNodes := s.fileNodes.push ⟨name, bytes, writable, none⟩ })

def newDirectory (s : Store) (name : String) (writable : Bool) : DirectoryId × Store :=
  (⟨s.directoryNodes.size⟩,
    { s with directoryNodes := s.directoryNodes.push ⟨name, writable, none, [], []⟩ })

def linkFile (s : Store) (dir : DirectoryId) (file : FileId) : Store :=
  (s.modifyFile file fun node => { node with parent := some dir }).modifyDirectory dir
    fun node => { node with files := node.files ++ [file] }

def linkDirectory (s : Store) (dir sub : DirectoryId) : Store :=
  (s.modifyDirectory sub fun node => { node with parent := some dir }).modifyDirectory dir
    fun node => { node with subdirectories := node.subdirectories ++ [sub] }

/-- Puts a file into a directory, read-only or not, unless its name is taken there. -/
def attachFile (s : Store) (dir : DirectoryId) (file : FileId) : Bool × Store :=
  if s.hasChild dir (s.fileName file) then (false, s) else (true, s.linkFile dir file)

/-- Puts a directory into another, read-only or not, unless its name is taken there. -/
def attachDirectory (s : Store) (dir sub : DirectoryId) : Bool × Store :=
  if s.hasChild dir (s.directoryName sub) then (false, s) else (true, s.linkDirectory dir sub)

def acceptsChild (s : Store) (dir : DirectoryId) (name : String) : Bool :=
  s.directoryWritable dir && !name.isEmpty && !s.hasChild dir name

def createFile (s : Store) (dir : DirectoryId) (name : String) : Option FileId × Store :=
  if s.acceptsChild dir name then
    let (file, s) := s.newFile name [] true
    (some file, s.linkFile dir file)
  else (none, s)

def createSubdirectory (s : Store) (dir : DirectoryId) (name : String) :
    Option DirectoryId × Store :=
  if s.acceptsChild dir name then
    let (sub, s) := s.newDirectory name true
    (some sub, s.linkDirectory dir sub)
  else (none, s)

def deleteFile (s : Store) (dir : DirectoryId) (name : String) : Bool × Store :=
  if s.directoryWritable dir then
    match s.file? dir name with
    | none => (false, s)
    | some file =>
      (true, (s.modifyDirectory dir fun node => { node with files := node.files.erase file }).modifyFile
        file fun node => { node with parent := none })
  else (false, s)

def holdsNothing (s : Store) (dir : DirectoryId) : Bool :=
  (s.files dir).isEmpty && (s.subdirectories dir).isEmpty

def deleteSubdirectory (s : Store) (dir : DirectoryId) (name : String) : Bool × Store :=
  if s.directoryWritable dir then
    match s.subdirectory? dir name with
    | none => (false, s)
    | some sub =>
      if s.holdsNothing sub then
        (true, (s.modifyDirectory dir fun node =>
          { node with subdirectories := node.subdirectories.erase sub }).modifyDirectory sub
            fun node => { node with parent := none })
      else (false, s)
  else (false, s)

/-- A new name must be free in the directory the node belongs to, its own name included. -/
def nameIsFree (s : Store) (parent : Option DirectoryId) (name : String) : Bool :=
  match parent with
  | none => true
  | some dir => !s.hasChild dir name

def renameFile (s : Store) (file : FileId) (name : String) : Bool × Store :=
  if s.fileWritable file && !name.isEmpty && s.nameIsFree (s.fileParent? file) name then
    (true, s.modifyFile file fun node => { node with name })
  else (false, s)

def renameDirectory (s : Store) (dir : DirectoryId) (name : String) : Bool × Store :=
  if s.directoryWritable dir && !name.isEmpty && s.nameIsFree (s.directoryParent? dir) name then
    (true, s.modifyDirectory dir fun node => { node with name })
  else (false, s)

def read (s : Store) (file : FileId) (offset length : Nat) : Bytes :=
  (s.fileBytes file).slice offset length

/-- Offsets and ends of transfers are 64-bit numbers. -/
def endLimit : Nat := 0x10000000000000000

def write (s : Store) (file : FileId) (offset : Nat) (data : Bytes) : Nat × Store :=
  if s.fileWritable file && offset + data.length < endLimit then
    (data.length, s.modifyFile file fun node => { node with bytes := node.bytes.overwrite offset data })
  else (0, s)

def resize (s : Store) (file : FileId) (size : Nat) : Bool × Store :=
  if s.fileWritable file then
    (true, s.modifyFile file fun node => { node with bytes := node.bytes.resize size })
  else (false, s)

/-- Whether a directory is held, or lies at most so many directories below one that is. -/
def isKept (s : Store) (held : List DirectoryId) : Nat → DirectoryId → Bool
  | 0, dir => held.contains dir
  | steps + 1, dir => held.contains dir || (s.directoryParent? dir).any (isKept s held steps)

/-- Lets go of directories that are not kept: what they list belongs to no directory from then on. -/
def release (s : Store) (held : List DirectoryId) : Store :=
  let keep (parent : Option DirectoryId) := parent.filter (s.isKept held s.reach)
  { fileNodes := s.fileNodes.map fun node => { node with parent := keep node.parent }
    directoryNodes := s.directoryNodes.map fun node => { node with parent := keep node.parent } }

end Store

instance : Tree.Backing Store FileId DirectoryId where
  fileName := Store.fileName
  fileSize s file := (s.fileBytes file).length
  filePath := Store.filePath
  fileParent? := Store.fileParent?
  fileReadable _ _ := true
  fileWritable := Store.fileWritable
  read := Store.read
  write := Store.write
  resize := Store.resize
  renameFile s file name :=
    let (renamed, s) := s.renameFile file name
    (if renamed then some file else none, s)
  directoryName := Store.directoryName
  directoryPath := Store.directoryPath
  parent? := Store.directoryParent?
  directoryReadable _ _ := true
  directoryWritable := Store.directoryWritable
  files := Store.files
  subdirectories := Store.subdirectories
  file? := Store.file?
  subdirectory? := Store.subdirectory?
  createFile := Store.createFile
  createSubdirectory := Store.createSubdirectory
  deleteFile := Store.deleteFile
  deleteSubdirectory := Store.deleteSubdirectory
  renameDirectory s dir name :=
    let (renamed, s) := s.renameDirectory dir name
    (if renamed then some dir else none, s)
  release := Store.release
  reach s _ := s.reach

namespace Store

mutual

def place (s : Store) (dir : DirectoryId) : Tree.Layout → Store
  | .file name data readOnly =>
    let (file, s) := s.newFile name data (!readOnly)
    (s.attachFile dir file).2
  | .directory name children readOnly =>
    let (sub, s) := s.newDirectory name (!readOnly)
    ((fill s sub children).attachDirectory dir sub).2
  | .link _ _ => s
termination_by structural entry => entry

def fill (s : Store) (dir : DirectoryId) : List Tree.Layout → Store
  | [] => s
  | entry :: rest => fill (place s dir entry) dir rest
termination_by structural entries => entries

end

def plant (s : Store) (name : String) (readOnly : Bool) (children : List Tree.Layout) :
    DirectoryId × Store :=
  let (root, s) := s.newDirectory name (!readOnly)
  (root, s.fill root children)

end Store

end GuestStorage.Memory
