import GuestStorage.Proofs.Keyed
import GuestStorage.Proofs.Memory.Entries
import GuestStorage.Session.Client

namespace GuestStorage

open Memory (Content)
open Session (PathRequest SpaceReport)

structure PathMap where
  entries : List (List String × Content)
  deriving DecidableEq

namespace PathMap

/-- What is answered when a request is carried out. An opened file is its key, its bytes and the mode, an
    opened directory its records. -/
inductive Outcome where
  | done
  | kind (kind : Wire.EntryType)
  | size (bytes : Nat)
  | file (key : List String) (bytes : Bytes) (mode : Wire.OpenMode)
  | listing (records : List Wire.DirectoryEntry)
  deriving DecidableEq

/-- The empty key is that of the topmost directory, which is not listed. -/
def find? (map : PathMap) (key : List String) : Option Content :=
  if key = [] then some .directory else Keyed.lookup map.entries key

def below (map : PathMap) (key : List String) : List (List String × Content) :=
  map.entries.filter fun e => key <+: e.1 ∧ e.1 ≠ key

def insert (map : PathMap) (key : List String) (content : Content) : PathMap :=
  ⟨map.entries ++ [(key, content)]⟩

def remove (map : PathMap) (key : List String) : PathMap :=
  ⟨map.entries.filter fun e => ¬ key <+: e.1⟩

/-- Removes what is strictly below a key. -/
def clear (map : PathMap) (key : List String) : PathMap :=
  ⟨map.entries.filter fun e => ¬ (key <+: e.1 ∧ e.1 ≠ key)⟩

/-- Moves an entry with all that is below it. -/
def move (map : PathMap) (source target : List String) : PathMap :=
  ⟨map.entries.map fun e => (Keyed.exchange source target e.1, e.2)⟩

/-- The key of a path. Double dots have no key, and single dots add nothing to it. -/
def key (path : String) : Except Error (List String) :=
  let names := Path.components path
  if ".." ∈ names then .error .invalidArgument else .ok (names.filter (· ≠ "."))

def inside (map : PathMap) (key : List String) : Except Error (List String) :=
  if key = [] then .error .invalidArgument
  else if map.find? key.dropLast = some .directory then .ok key
  else .error .entityNotFound

def named (map : PathMap) (path : String) : Except Error (List String) := (key path).bind map.inside

def file (map : PathMap) (path : String) : Except Error (List String × Bytes) := do
  let key ← map.named path
  match map.find? key with
  | some (.file bytes) => .ok (key, bytes)
  | _ => .error .entityNotFound

def subdirectory (map : PathMap) (path : String) : Except Error (List String) := do
  let key ← map.named path
  if map.find? key = some .directory then .ok key else .error .entityNotFound

def create (map : PathMap) (path : String) (content : Content) : Except Error PathMap := do
  let key ← map.named path
  if (map.find? key).isSome then .error .pathAlreadyExists else .ok (map.insert key content)

def deleteFile (map : PathMap) (path : String) : Except Error PathMap := do
  let (key, _) ← map.file path
  return map.remove key

def deleteDirectory (map : PathMap) (path : String) : Except Error PathMap := do
  let key ← map.subdirectory path
  if map.below key = [] then .ok (map.remove key) else .error .operationFailed

def deleteTree (map : PathMap) (path : String) : Except Error PathMap := do
  let key ← map.subdirectory path
  return map.remove key

def cleanTree (map : PathMap) (path : String) : Except Error PathMap := do
  let key ← map.subdirectory path
  return map.clear key

def rename (map : PathMap) (source target : List String) : Except Error PathMap :=
  if source = target then .ok map
  else if (map.find? target).isSome then .error .pathAlreadyExists
  else .ok (map.move source target)

/-- The source is judged before anything is asked of the target. -/
def renameFile (map : PathMap) (source target : String) : Except Error PathMap := do
  let (old, _) ← map.file source
  let new ← map.named target
  map.rename old new

/-- Both paths are judged, and that the target is not below the source, before the source is looked up. -/
def renameDirectory (map : PathMap) (source target : String) : Except Error PathMap := do
  let old ← key source
  let new ← key target
  if old <+: new ∧ old ≠ new then .error .invalidArgument
  else do
    let old ← map.subdirectory source
    let new ← map.named target
    map.rename old new

def entryType (map : PathMap) (path : String) : Except Error Wire.EntryType := do
  match map.find? (← key path) with
  | some (.file _) => .ok .file
  | some .directory => .ok .directory
  | none => .error .entityNotFound

def sizeBelow (map : PathMap) (key : List String) : Nat :=
  ((map.below key).map fun e => e.2.size).sum

/-- Whether a filter asks for such an entry. The two lowest bits stand for directories and for files, and with
    neither of them set a filter asks for both. -/
def asked (filter : UInt32) : Content → Bool
  | .file _ => filter &&& 3 = 0 ∨ filter &&& 2 ≠ 0
  | .directory => filter &&& 3 = 0 ∨ filter &&& 1 ≠ 0

def record (map : PathMap) : List String × Content → Wire.DirectoryEntry
  | (key, .file bytes) => ⟨key.getLastD "", .file, UInt64.ofNat bytes.length⟩
  | (key, .directory) => ⟨key.getLastD "", .directory, UInt64.ofNat (map.sizeBelow key)⟩

def records (map : PathMap) (key : List String) (filter : UInt32) : List Wire.DirectoryEntry :=
  (map.entries.filter fun e => e.1.dropLast = key ∧ asked filter e.2).map map.record

def openFile (map : PathMap) (path : String) (mode : UInt32) : Except Error Outcome := do
  let mode : Wire.OpenMode ← Session.decodeArgument mode.toNat
  let (key, bytes) ← map.file path
  return .file key bytes mode

def openDirectory (map : PathMap) (path : String) (filter : UInt32) : Except Error Outcome := do
  let key ← key path
  if map.find? key = some .directory then .ok (.listing (map.records key filter))
  else .error .entityNotFound

/-- The next state and what is answered; what fails leaves the state as it is. -/
def change (map : PathMap) : Except Error PathMap → Except Error Outcome × PathMap
  | .ok next => (.ok .done, next)
  | .error e => (.error e, map)

def step (space : SpaceReport) (map : PathMap) : PathRequest → Except Error Outcome × PathMap
  | .createFile path size => map.change (map.create path (.file (.zeros size)))
  | .deleteFile path => map.change (map.deleteFile path)
  | .createDirectory path => map.change (map.create path .directory)
  | .deleteDirectory path => map.change (map.deleteDirectory path)
  | .deleteDirectoryRecursively path => map.change (map.deleteTree path)
  | .cleanDirectoryRecursively path => map.change (map.cleanTree path)
  | .renameFile source target => map.change (map.renameFile source target)
  | .renameDirectory source target => map.change (map.renameDirectory source target)
  | .commit => (.ok .done, map)
  | .entryType path => ((map.entryType path).map .kind, map)
  | .freeSpace _ => (.ok (.size space.free), map)
  | .totalSpace _ => (.ok (.size space.total), map)
  | .openFile path mode => (map.openFile path mode, map)
  | .openDirectory path filter => (map.openDirectory path filter, map)

def after (space : SpaceReport) (map : PathMap) (requests : List PathRequest) : PathMap :=
  requests.foldl (fun map request => (map.step space request).2) map

end PathMap

end GuestStorage
