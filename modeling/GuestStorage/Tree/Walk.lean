import GuestStorage.Tree.View

namespace GuestStorage.Tree.DirectoryView

variable {σ F D : Type} [Backing σ F D]

def descend? (s : σ) (dir : DirectoryView D) (names : List String) : Option (DirectoryView D) :=
  names.foldlM (fun holder name => holder.subdirectory? s name) dir

def climb (s : σ) : Nat → DirectoryView D → DirectoryView D
  | 0, dir => dir
  | steps + 1, dir =>
    match dir.parent? s with
    | none => dir
    | some parent => climb s steps parent

def top (s : σ) (dir : DirectoryView D) : DirectoryView D := climb s (Backing.reach s dir.node) dir

def directoryAt? (s : σ) (dir : DirectoryView D) (path : String) : Option (DirectoryView D) :=
  dir.descend? s (Path.components path)

def fileAt? (s : σ) (dir : DirectoryView D) (path : String) : Option (FileView F) :=
  let names := Path.components path
  names.getLast?.bind fun last =>
    (dir.descend? s names.dropLast).bind fun holder => holder.file? s last

def directoryFromTop? (s : σ) (dir : DirectoryView D) (path : String) : Option (DirectoryView D) :=
  (dir.top s).directoryAt? s path

def fileFromTop? (s : σ) (dir : DirectoryView D) (path : String) : Option (FileView F) :=
  (dir.top s).fileAt? s path

def ensureSubdirectory (s : σ) (dir : DirectoryView D) (name : String) :
    Option (DirectoryView D) × σ :=
  match dir.subdirectory? s name with
  | some present => (some present, s)
  | none => dir.createSubdirectory s name

/-- Follows subdirectories by name, creating those that are missing until one is refused. -/
def ensureAlong : List String → σ → DirectoryView D → Option (DirectoryView D) × σ
  | [], s, dir => (some dir, s)
  | name :: rest, s, dir =>
    match dir.ensureSubdirectory s name with
    | (none, s) => (none, s)
    | (some next, s) => ensureAlong rest s next

/-- Creates every missing directory of a path and answers the last; an empty path names none. -/
def createDirectoryAt (s : σ) (dir : DirectoryView D) (path : String) :
    Option (DirectoryView D) × σ :=
  if dir.readOnly then (none, s)
  else
    match Path.components path with
    | [] => (none, s)
    | names => ensureAlong names s dir

def createFileAt (s : σ) (dir : DirectoryView D) (path : String) : Option (FileView F) × σ :=
  if dir.readOnly then (none, s)
  else
    let names := Path.components path
    match names.getLast? with
    | none => (none, s)
    | some last =>
      match ensureAlong names.dropLast s dir with
      | (none, s) => (none, s)
      | (some holder, s) => holder.createFile s last

def createDirectoryFromTop (s : σ) (dir : DirectoryView D) (path : String) :
    Option (DirectoryView D) × σ :=
  (dir.top s).createDirectoryAt s path

def createFileFromTop (s : σ) (dir : DirectoryView D) (path : String) : Option (FileView F) × σ :=
  (dir.top s).createFileAt s path

def sizeWithin (s : σ) : Nat → DirectoryView D → Nat
  | 0, _ => 0
  | depth + 1, dir =>
    ((dir.files s).map (·.size s)).sum + ((dir.subdirectories s).map (sizeWithin s depth)).sum

def size (s : σ) (dir : DirectoryView D) : Nat := sizeWithin s (Backing.reach s dir.node) dir

/-- Runs an operation for each item and tells whether all succeeded; a failure does not stop it. -/
def forEach {α : Type} (step : σ → α → Bool × σ) : List α → σ → Bool × σ
  | [], s => (true, s)
  | x :: rest, s =>
    let (done, s) := step s x
    let (others, s) := forEach step rest s
    (done && others, s)

/-- Removes what stands inside a named subdirectory, down to a depth, and keeps the subdirectory. -/
def cleanWithin : Nat → σ → DirectoryView D → String → Bool × σ
  | 0, s, _, _ => (false, s)
  | depth + 1, s, dir, name =>
    if dir.readOnly then (false, s)
    else
      match dir.subdirectory? s name with
      | none => (false, s)
      | some inner =>
        let (files, s) := forEach (fun s file => inner.deleteFile s (file.name s)) (inner.files s) s
        let (directories, s) := forEach
          (fun s sub =>
            let subName := sub.name s
            match cleanWithin depth s inner subName with
            | (true, s) => inner.deleteSubdirectory s subName
            | (false, s) => (false, s))
          (inner.subdirectories s) s
        (files && directories, s)

/-- Removes everything inside a named subdirectory and keeps the subdirectory. -/
def cleanSubdirectory (s : σ) (dir : DirectoryView D) (name : String) : Bool × σ :=
  cleanWithin (Backing.reach s dir.node) s dir name

def deleteTree (s : σ) (dir : DirectoryView D) (name : String) : Bool × σ :=
  match dir.cleanSubdirectory s name with
  | (true, s) => dir.deleteSubdirectory s name
  | (false, s) => (false, s)

/-- Copies a file to a new sibling. A copy whose size is refused is removed again. -/
def copyFile (s : σ) (dir : DirectoryView D) (source target : String) : Bool × σ :=
  if dir.readOnly then (false, s)
  else
    match dir.file? s source with
    | none => (false, s)
    | some present =>
      match dir.createFile s target with
      | (none, s) => (false, s)
      | (some copy, s) =>
        match copy.resize s (present.size s) with
        | (false, s) => (false, (dir.deleteFile s target).2)
        | (true, s) =>
          let (written, s) := copy.write s 0 (present.readAll s)
          (written == present.size s, s)

/-- Creates a file with given contents; the flag tells whether all of it arrived. -/
def placeFile (s : σ) (dir : DirectoryView D) (name : String) (data : Bytes) : Bool × σ :=
  match dir.createFile s name with
  | (none, s) => (false, s)
  | (some copy, s) =>
    match copy.resize s data.length with
    | (false, s) => (false, s)
    | (true, s) =>
      let (written, s) := copy.write s 0 data
      (written == data.length, s)

def forEachUntil {α : Type} (step : σ → α → Bool × σ) : List α → σ → Bool × σ
  | [], s => (true, s)
  | x :: rest, s =>
    match step s x with
    | (false, s) => (false, s)
    | (true, s) => forEachUntil step rest s

/-- Copies files, then subdirectories, down to a depth, and stops at the first refusal. -/
def copyTreeWithin : Nat → σ → DirectoryView D → DirectoryView D → Bool × σ
  | 0, s, _, _ => (false, s)
  | depth + 1, s, source, target =>
    match forEachUntil (fun s file => target.placeFile s (file.name s) (file.readAll s))
        (source.files s) s with
    | (false, s) => (false, s)
    | (true, s) =>
      forEachUntil
        (fun s sub =>
          match target.createSubdirectory s (sub.name s) with
          | (none, s) => (false, s)
          | (some copy, s) => copyTreeWithin depth s sub copy)
        (source.subdirectories s) s

def copyTree (s : σ) (source target : DirectoryView D) : Bool × σ :=
  copyTreeWithin (Backing.reach s source.node) s source target

def fileSizes (s : σ) (dir : DirectoryView D) : List (String × Nat) :=
  (dir.files s).map fun file => (file.name s, file.size s)

/-- Whether two directories show the same names and file sizes down to a depth. -/
def sameShapeWithin (s : σ) : Nat → DirectoryView D → DirectoryView D → Bool
  | 0, _, _ => false
  | depth + 1, a, b =>
    (a.fileSizes s).isPerm (b.fileSizes s)
      && (a.subdirectories s).length == (b.subdirectories s).length
      && (a.subdirectories s).all fun sub =>
        match b.subdirectory? s (sub.name s) with
        | none => false
        | some other => sameShapeWithin s depth sub other

/-- Whether two directories show the same names and file sizes at every level. -/
def sameShape (s : σ) (a b : DirectoryView D) : Bool :=
  sameShapeWithin s (Backing.reach s a.node) a b

end GuestStorage.Tree.DirectoryView

namespace GuestStorage.Tree

structure FileSnapshot where
  name : String
  size : Nat
  writable : Bool
  bytes : Bytes
  deriving DecidableEq

inductive Snapshot where
  | directory (name : String) (writable : Bool) (files : List FileSnapshot)
    (subdirectories : List Snapshot)

variable {σ F D : Type} [Backing σ F D]

def FileView.snapshot (s : σ) (file : FileView F) : FileSnapshot :=
  ⟨file.name s, file.size s, file.isWritable s, file.readAll s⟩

namespace DirectoryView

def snapshotWithin (s : σ) : Nat → DirectoryView D → Snapshot
  | 0, dir => .directory (dir.name s) (dir.isWritable s) [] []
  | depth + 1, dir =>
    .directory (dir.name s) (dir.isWritable s) ((dir.files s).map (·.snapshot s))
      ((dir.subdirectories s).map (snapshotWithin s depth))

def snapshot (s : σ) (dir : DirectoryView D) : Snapshot :=
  snapshotWithin s (Backing.reach s dir.node) dir

end DirectoryView

end GuestStorage.Tree
