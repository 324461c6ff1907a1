import GuestStorage.Error
import GuestStorage.Host.Disk
import GuestStorage.Host.PathText
import GuestStorage.Path
import GuestStorage.Tree.Backing

namespace GuestStorage.Host

/-- How many bytes names take in a text, each with the separator before it. -/
def textLength : Location → Nat
  | [] => 0
  | name :: rest => name.utf8ByteSize + 1 + textLength rest

@[simp] theorem textLength_append (front rest : Location) :
    textLength (front ++ rest) = textLength front + textLength rest := by
  induction front with
  | nil => simp [textLength]
  | cons name front ih => rw [List.cons_append, textLength, textLength, ih, Nat.add_assoc (name.utf8ByteSize + 1)]

/-- The directory that a tree was opened from. The host is given the path of every node as one text,
    that of the root and the names after it. -/
structure Root where
  path : Location
  /-- How long the text of a path may be, counted as if it were written from the top. -/
  room : Nat
  /-- How long a file may become. -/
  fileLimit : Nat
  deriving DecidableEq

instance : Coe Root Location := ⟨Root.path⟩

namespace Root

def admits (root : Root) (path : Location) : Bool := textLength path ≤ root.room

/-- What comes of handing a path to the host, which takes no text that is too long. -/
def handing {α : Type} (root : Root) (path : Location) (attempt : Except Refusal α) : Except Refusal α :=
  if root.admits path then attempt else .error .nameTooLong

theorem handing_of_admits {α : Type} {root : Root} {path : Location} (admitted : root.admits path = true)
    (attempt : Except Refusal α) : root.handing path attempt = attempt := if_pos admitted

theorem handing_eq_ok {α : Type} {root : Root} {path : Location} {attempt : Except Refusal α} {a : α} :
    root.handing path attempt = .ok a ↔ root.admits path = true ∧ attempt = .ok a := by
  rw [handing]
  split
  · rename_i admitted
    exact (and_iff_right admitted).symm
  · rename_i refused
    exact iff_of_false (by simp) fun both => refused both.1

def entryAt? (root : Root) (disk : Disk) (path : Location) : Option Entry :=
  if root.admits path then disk.entryAt? path else none

def targetAt? (root : Root) (disk : Disk) (path : Location) : Option Entry :=
  if root.admits path then disk.targetAt? path else none

end Root

structure FileNode where
  root : Root
  path : Location
  deriving DecidableEq

structure DirectoryNode where
  root : Root
  path : Location
  deriving DecidableEq

def validName (name : String) : Bool :=
  name != "" && name != "." && name != ".." && !name.toList.any Path.isSeparator

/-- The length that a host reports for a directory. -/
def directoryLength : Nat := 4096

def pathText (path : Location) : String := "/" ++ Path.join path

def lastName (path : Location) : String :=
  match path.getLast? with
  | none | some ".." => ""
  | some name => name

namespace FileNode

def size (disk : Disk) (file : FileNode) : Nat :=
  match file.root.targetAt? disk file.path with
  | some (.file bytes) => bytes.length
  | some _ => directoryLength
  | none => 0

def read (disk : Disk) (file : FileNode) (offset length : Nat) : Bytes :=
  match file.root.handing file.path (disk.readFile file.path) with
  | .error _ => []
  | .ok bytes => bytes.slice offset length

/-- Nothing is changed when there is nothing to write. -/
def write (disk : Disk) (file : FileNode) (offset : Nat) (data : Bytes) : Nat × Disk :=
  if data.isEmpty || file.root.fileLimit < offset + data.length then (0, disk)
  else
    match file.root.handing file.path (disk.changeFile file.path (·.overwrite offset data)) with
    | .error _ => (0, disk)
    | .ok disk => (data.length, disk)

def resize (disk : Disk) (file : FileNode) (size : Nat) : Bool × Disk :=
  if file.root.fileLimit < size then (false, disk)
  else
    match file.root.handing file.path (disk.changeFile file.path (·.resize size)) with
    | .error _ => (false, disk)
    | .ok disk => (true, disk)

end FileNode

/-- Gives what stands at a path a free name in the same directory and answers its new path. -/
def renameAt (disk : Disk) (root : Root) (path : Location) (name : String) : Option Location × Disk :=
  if !validName name then (none, disk)
  else
    let target := path.dropLast ++ [name]
    if (root.entryAt? disk target).isSome then (none, disk)
    else
      match root.handing path (root.handing target (disk.move path target)) with
      | .error _ => (none, disk)
      | .ok disk => (some target, disk)

namespace DirectoryNode

def isRoot (dir : DirectoryNode) : Bool := dir.path == dir.root.path

def childPath (dir : DirectoryNode) (name : String) : Location := dir.path ++ [name]

def parent? (dir : DirectoryNode) : Option DirectoryNode :=
  if dir.isRoot || dir.path.isEmpty then none else some ⟨dir.root, dir.path.dropLast⟩

/-- The path of a child that is itself, and not through a link, of the wanted kind. -/
def child? (disk : Disk) (dir : DirectoryNode) (wanted : Entry → Bool) (name : String) :
    Option Location :=
  if validName name && (dir.root.entryAt? disk (dir.childPath name)).any wanted then some (dir.childPath name)
  else none

def isFile : Entry → Bool
  | .file _ => true
  | _ => false

def isDirectory : Entry → Bool
  | .directory => true
  | _ => false

/-- The paths of all children of the wanted kind; a directory that cannot be listed has none. -/
def childPaths (disk : Disk) (dir : DirectoryNode) (wanted : Entry → Bool) : List Location :=
  match dir.root.handing dir.path (disk.list dir.path) with
  | .error _ => []
  | .ok entries => (entries.filter (wanted ·.2)).map fun e => dir.childPath e.1

def population (disk : Disk) (dir : DirectoryNode) : Nat :=
  match disk.resolve dir.path with
  | .error _ => 0
  | .ok place => disk.entries.countP fun e => place.isPrefixOf e.1 && e.1 != place

def createFile (disk : Disk) (dir : DirectoryNode) (name : String) : Option FileNode × Disk :=
  if !validName name then (none, disk)
  else
    match dir.root.handing (dir.childPath name) (disk.create (dir.childPath name) (.file [])) with
    | .error _ => (none, disk)
    | .ok disk => (some ⟨dir.root, dir.childPath name⟩, disk)

def createSubdirectory (disk : Disk) (dir : DirectoryNode) (name : String) :
    Option DirectoryNode × Disk :=
  if !validName name then (none, disk)
  else
    match dir.root.handing (dir.childPath name) (disk.create (dir.childPath name) .directory) with
    | .error _ => (none, disk)
    | .ok disk => (some ⟨dir.root, dir.childPath name⟩, disk)

def deleteFile (disk : Disk) (dir : DirectoryNode) (name : String) : Bool × Disk :=
  match dir.child? disk isFile name with
  | none => (false, disk)
  | some path =>
    match disk.removeFile path with
    | .error _ => (false, disk)
    | .ok disk => (true, disk)

def deleteSubdirectory (disk : Disk) (dir : DirectoryNode) (name : String) : Bool × Disk :=
  match dir.child? disk isDirectory name with
  | none => (false, disk)
  | some path =>
    match disk.removeDirectory path with
    | .error _ => (false, disk)
    | .ok disk => (true, disk)

def rename (disk : Disk) (dir : DirectoryNode) (name : String) : Option DirectoryNode × Disk :=
  if dir.isRoot then (none, disk)
  else
    let (renamed, disk) := renameAt disk dir.root dir.path name
    (renamed.map (⟨dir.root, ·⟩), disk)

end DirectoryNode

instance : Tree.Backing Disk FileNode DirectoryNode where
  fileName _ file := lastName file.path
  fileSize := FileNode.size
  filePath _ file := pathText file.path
  fileParent? _ file := if file.path.isEmpty then none else some ⟨file.root, file.path.dropLast⟩
  -- without permission bits, whatever a path leads to can be read and changed
  fileReadable disk file := (file.root.targetAt? disk file.path).isSome
  fileWritable disk file := (file.root.targetAt? disk file.path).isSome
  read := FileNode.read
  write := FileNode.write
  resize := FileNode.resize
  renameFile disk file name :=
    let (renamed, disk) := renameAt disk file.root file.path name
    (renamed.map (⟨file.root, ·⟩), disk)
  directoryName _ dir := lastName dir.path
  directoryPath _ dir := pathText dir.path
  parent? _ dir := dir.parent?
  directoryReadable disk dir := (dir.root.targetAt? disk dir.path).isSome
  directoryWritable disk dir := (dir.root.targetAt? disk dir.path).isSome
  files disk dir := (dir.childPaths disk DirectoryNode.isFile).map (⟨dir.root, ·⟩)
  subdirectories disk dir := (dir.childPaths disk DirectoryNode.isDirectory).map (⟨dir.root, ·⟩)
  file? disk dir name := (dir.child? disk DirectoryNode.isFile name).map (⟨dir.root, ·⟩)
  subdirectory? disk dir name := (dir.child? disk DirectoryNode.isDirectory name).map (⟨dir.root, ·⟩)
  createFile disk dir name := dir.createFile disk name
  createSubdirectory disk dir name := dir.createSubdirectory disk name
  deleteFile disk dir name := dir.deleteFile disk name
  deleteSubdirectory disk dir name := dir.deleteSubdirectory disk name
  renameDirectory disk dir name := dir.rename disk name
  release disk _ := disk
  reach disk dir := dir.population disk + dir.path.length + 1

/-- The directory at a path as the root of a tree. What its text says beyond names leaves less room. -/
def Root.ofText (fileLimit : Nat) (start : Location) (path : String) : Root :=
  let text := PathText.ofText path
  let names := (text.names start).filter (· != ".")
  let length := path.utf8ByteSize - if text.wantsDirectory then 1 else 0
  ⟨names, pathLimit + textLength names - length, fileLimit⟩

/-- Opens the directory a path leads to as the root of a tree. An empty path leads nowhere. -/
def Disk.openRoot (disk : Disk) (fileLimit : Nat) (start : Location) (path : String) : Except Error DirectoryNode :=
  if path == "" then .error (.io Refusal.missing.text)
  else if pathLimit < path.utf8ByteSize then .error (.io Refusal.nameTooLong.text)
  else
    let root := Root.ofText fileLimit start path
    match disk.resolve root.path with
    | .error why => .error (.io why.text)
    | .ok place =>
      match disk.find? place with
      | some .directory => .ok ⟨root, root.path⟩
      | _ => .error (.io (path ++ " is not a directory"))

end GuestStorage.Host
