import GuestStorage.Error
import GuestStorage.Wire.Ids
import GuestStorage.Tree.Walk

namespace GuestStorage.Tree

structure Mount (D : Type) where
  root : DirectoryView D
  deriving DecidableEq

namespace Mount

variable {σ F D : Type} [Backing σ F D]

/-- The components of a guest path. Single dots are dropped; a double dot is refused. -/
def normalize (path : String) : Except Error (List String) :=
  let names := (Path.components path).filter (· != ".")
  if names.contains ".." then .error .invalidArgument else .ok names

/-- The directory that holds what a list of components names, and its name in there. -/
def locateAlong (s : σ) (mount : Mount D) (names : List String) :
    Except Error (DirectoryView D × String) :=
  match names.getLast? with
  | none => .error .invalidArgument
  | some name =>
    match mount.root.descend? s names.dropLast with
    | none => .error .entityNotFound
    | some holder => .ok (holder, name)

def locate (s : σ) (mount : Mount D) (path : String) : Except Error (DirectoryView D × String) :=
  (normalize path).bind (mount.locateAlong s)

/-- Reports a refused step of a directory as the error that the directory's own access suggests. -/
def orRefused (s : σ) (dir : DirectoryView D) (done : Bool) : Except Error Unit :=
  if done then .ok () else .error (.ofRefusal (dir.isWritable s))

def createFile (s : σ) (mount : Mount D) (path : String) (size : Nat) : Except Error Unit × σ :=
  match mount.locate s path with
  | .error e => (.error e, s)
  | .ok (dir, name) =>
    if dir.hasEntry s name then (.error .pathAlreadyExists, s)
    else
      match dir.createFile s name with
      | (none, s) => (.error (.ofRefusal (dir.isWritable s)), s)
      | (some file, s) =>
        match file.resize s size with
        | (true, s) => (.ok (), s)
        | (false, s) =>
          let writable := file.isWritable s
          (.error (.ofRefusal writable), (dir.deleteFile s name).2)

def createDirectory (s : σ) (mount : Mount D) (path : String) : Except Error Unit × σ :=
  match mount.locate s path with
  | .error e => (.error e, s)
  | .ok (dir, name) =>
    if dir.hasEntry s name then (.error .pathAlreadyExists, s)
    else
      let (created, s) := dir.createSubdirectory s name
      (orRefused s dir created.isSome, s)

def deleteFile (s : σ) (mount : Mount D) (path : String) : Except Error Unit × σ :=
  match mount.locate s path with
  | .error e => (.error e, s)
  | .ok (dir, name) =>
    if (dir.file? s name).isNone then (.error .entityNotFound, s)
    else
      let (deleted, s) := dir.deleteFile s name
      (orRefused s dir deleted, s)

def onSubdirectory (step : σ → DirectoryView D → String → Bool × σ) (s : σ) (mount : Mount D)
    (path : String) : Except Error Unit × σ :=
  match mount.locate s path with
  | .error e => (.error e, s)
  | .ok (dir, name) =>
    if (dir.subdirectory? s name).isNone then (.error .entityNotFound, s)
    else
      let (done, s) := step s dir name
      (orRefused s dir done, s)

def deleteDirectory : σ → Mount D → String → Except Error Unit × σ :=
  onSubdirectory DirectoryView.deleteSubdirectory

def deleteDirectoryRecursively : σ → Mount D → String → Except Error Unit × σ :=
  onSubdirectory DirectoryView.deleteTree

def cleanDirectoryRecursively : σ → Mount D → String → Except Error Unit × σ :=
  onSubdirectory DirectoryView.cleanSubdirectory

def samePlace (s : σ) (a b : DirectoryView D) : Bool := a.path s == b.path s

/-- Moves a file to another directory: a copy is made, then the source is removed. What fails on the
    way takes the copy away again. -/
def moveFile (s : σ) (file : FileView F) (oldHome : DirectoryView D) (name : String)
    (newHome : DirectoryView D) (newName : String) : Except Error Unit × σ :=
  if !oldHome.isWritable s then (.error .permissionDenied, s)
  else
    match newHome.createFile s newName with
    | (none, s) => (.error (.ofRefusal (newHome.isWritable s)), s)
    | (some target, s) =>
      let data := file.readAll s
      match target.resize s data.length with
      | (false, s) => (.error .operationFailed, (newHome.deleteFile s newName).2)
      | (true, s) =>
        let (written, s) := target.write s 0 data
        if written != data.length then (.error .operationFailed, (newHome.deleteFile s newName).2)
        else
          match oldHome.deleteFile s name with
          | (true, s) => (.ok (), s)
          | (false, s) => (.error .operationFailed, (newHome.deleteFile s newName).2)

/-- Renames within a directory, or moves the bytes when the directories differ. -/
def renameFile (s : σ) (mount : Mount D) (source target : String) : Except Error Unit × σ :=
  match mount.locate s source with
  | .error e => (.error e, s)
  | .ok (oldHome, name) =>
    match oldHome.file? s name with
    | none => (.error .entityNotFound, s)
    | some file =>
      match mount.locate s target with
      | .error e => (.error e, s)
      | .ok (newHome, newName) =>
        if samePlace s oldHome newHome && name == newName then (.ok (), s)
        else if newHome.hasEntry s newName then (.error .pathAlreadyExists, s)
        else if samePlace s oldHome newHome then
          match file.rename s newName with
          | (some _, s) => (.ok (), s)
          | (none, s) => (.error (.ofRefusal (file.isWritable s)), s)
        else moveFile s file oldHome name newHome newName

/-- Moves a directory to another one: the tree is copied, then the source is removed. A copy is
    dropped when copying fails or when the source is still complete; otherwise it is what is left. -/
def moveDirectory (s : σ) (dir : DirectoryView D) (oldHome : DirectoryView D) (name : String)
    (newHome : DirectoryView D) (newName : String) : Except Error Unit × σ :=
  if !oldHome.isWritable s then (.error .permissionDenied, s)
  else
    match newHome.createSubdirectory s newName with
    | (none, s) => (.error (.ofRefusal (newHome.isWritable s)), s)
    | (some target, s) =>
      match dir.copyTree s target with
      | (false, s) => (.error .operationFailed, (newHome.deleteTree s newName).2)
      | (true, s) =>
        match oldHome.deleteTree s name with
        | (true, s) => (.ok (), s)
        | (false, s) =>
          let complete := (oldHome.subdirectory? s name).any (·.sameShape s target)
          (.error .operationFailed, if complete then (newHome.deleteTree s newName).2 else s)

/-- Renames within a directory, or moves the whole tree when the directories differ. -/
def renameDirectory (s : σ) (mount : Mount D) (source target : String) : Except Error Unit × σ :=
  match normalize source, normalize target with
  | .error e, _ => (.error e, s)
  | .ok _, .error e => (.error e, s)
  | .ok sourceNames, .ok targetNames =>
    if sourceNames != [] && sourceNames.isPrefixOf targetNames && sourceNames != targetNames then
      (.error .invalidArgument, s)
    else
      match mount.locateAlong s sourceNames with
      | .error e => (.error e, s)
      | .ok (oldHome, name) =>
        match oldHome.subdirectory? s name with
        | none => (.error .entityNotFound, s)
        | some dir =>
          match mount.locateAlong s targetNames with
          | .error e => (.error e, s)
          | .ok (newHome, newName) =>
            if sourceNames == targetNames then (.ok (), s)
            else if newHome.hasEntry s newName then (.error .pathAlreadyExists, s)
            else if samePlace s oldHome newHome then
              match dir.rename s newName with
              | (some _, s) => (.ok (), s)
              | (none, s) => (.error (.ofRefusal (dir.isWritable s)), s)
            else moveDirectory s dir oldHome name newHome newName

def entryType (s : σ) (mount : Mount D) (path : String) : Except Error Wire.EntryType :=
  match normalize path with
  | .error e => .error e
  | .ok [] => .ok .directory
  | .ok names =>
    match mount.locateAlong s names with
    | .error e => .error e
    | .ok (dir, name) =>
      if (dir.file? s name).isSome then .ok .file
      else if (dir.subdirectory? s name).isSome then .ok .directory
      else .error .entityNotFound

def openFile (s : σ) (mount : Mount D) (path : String) (mode : Wire.OpenMode) :
    Except Error (FileView F) :=
  match mount.locate s path with
  | .error e => .error e
  | .ok (dir, name) =>
    match dir.file? s name with
    | none => .error .entityNotFound
    | some file =>
      if mode.needsRead && !file.isReadable s then .error .permissionDenied
      else if mode.needsWrite && !file.isWritable s then .error .permissionDenied
      else .ok file

def openDirectory (s : σ) (mount : Mount D) (path : String) : Except Error (DirectoryView D) :=
  match normalize path with
  | .error e => .error e
  | .ok names =>
    match mount.root.descend? s names with
    | none => .error .entityNotFound
    | some dir => .ok dir

end Mount

end GuestStorage.Tree
