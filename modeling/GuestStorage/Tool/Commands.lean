import GuestStorage.Service.Server

namespace GuestStorage

open GuestStorage.Tree Session

namespace Tool

/-- What can be browsed: the SD card, or the root of a save-data space. -/
inductive Place where
  | sdCard
  | space (space : Wire.SaveDataSpace)
  deriving DecidableEq

def pageSize : Nat := 64

def chunkSize : Nat := 65536

def failureText (context : String) (e : Error) : String :=
  context ++ ": " ++ e.message ++ " [" ++ e.code.text ++ "]"

variable {σ F D : Type} [Backing σ F D]

def mount (outside : Service.Collaborators σ F D) (s : σ) : Place → Except String (FileSystem D)
  | .sdCard =>
    match outside.controller.openSdCard s with
    | .error _ => .error (failureText "sdmc" .sdCardNotFound)
    | .ok root => .ok ⟨⟨root⟩, ⟨.sdCard, outside.controller.freeSpace .sdCard, outside.controller.totalSpace .sdCard⟩⟩
  | .space space =>
    match outside.controller.openSpace s space with
    | .error e => .error (failureText space.name e)
    | .ok root =>
      let storage := space.storageClass
      .ok ⟨⟨root.project⟩, ⟨storage, outside.controller.freeSpace storage, outside.controller.totalSpace storage⟩⟩

/-- Fetches pages until one is empty, at most so many. -/
def pages {α : Type} : Nat → Cursor α → List α
  | 0, _ => []
  | more + 1, cursor =>
    match cursor.take pageSize with
    | ([], _) => []
    | (page, rest) => page ++ pages more rest

def fetchAll {α : Type} (cursor : Cursor α) : List α := pages (cursor.count + 1) cursor

def entryLine (entry : Wire.DirectoryEntry) : String :=
  let kind := match entry.kind with
    | .directory => "d"
    | .file => "f"
  kind ++ "\t" ++ toString entry.size.toNat ++ "\t" ++ entry.name ++ "\n"

def list (outside : Service.Collaborators σ F D) (now : Nat → σ) (place : Place) (path : String) :
    Except String String := do
  let fs ← mount outside (now 0) place
  let listing ← (fs.openDirectory (now 1) path 0).mapError (failureText path)
  return "".intercalate ((fetchAll listing).map entryLine)

end Tool

open Tool (chunkSize) in
/-- Fetches chunks from an offset on, one at each moment, until one is empty. Answers also the moment
    that has come then, or nothing if every chunk holds some bytes. -/
def Session.OpenFile.chunks {σ F D : Type} [Backing σ F D] (now : Nat → σ) (opened : OpenFile F)
    (moment offset : Nat) : Option (Except Error Bytes × Nat) :=
  match opened.read (now moment) (Int64.ofNat offset) (Int64.ofNat chunkSize) chunkSize with
  | .error e => some (.error e, moment + 1)
  | .ok chunk =>
    if chunk.isEmpty then some (.ok [], moment + 1)
    else do
      let (rest, last) ← opened |>.chunks now (moment + 1) (offset + chunk.length)
      some (rest.map (chunk ++ ·), last)
partial_fixpoint

namespace Tool

variable {σ F D : Type} [Backing σ F D]

def openToRead (outside : Service.Collaborators σ F D) (now : Nat → σ) (place : Place) (path : String) :
    Except String (OpenFile F) := do
  let fs ← mount outside (now 0) place
  (fs.openFile (now 1) path (UInt32.ofNat Wire.OpenMode.read.raw)).mapError (failureText path)

def concatenate (outside : Service.Collaborators σ F D) (now : Nat → σ) (place : Place) (path : String) :
    Option (Except String Bytes × Nat) :=
  match openToRead outside now place path with
  | .error message => some (.error message, 2)
  | .ok opened => (opened.chunks now 2 0).map fun (bytes, last) => (bytes.mapError (failureText path), last)

/-- A user is printed last byte first. -/
def userText (user : Wire.UserId) : String := Text.Hex.ofBytes .upper user.toBytes.reverse

def recordLine (info : Wire.SaveInfo) : String :=
  "\t".intercalate [info.space.name, info.kind.name, Wire.SaveDescriptor.hexId info.saveId,
    Wire.SaveDescriptor.hexId info.titleId, userText info.userId, toString info.imageSize.toNat] ++ "\n"

def saves (outside : Service.Collaborators σ F D) (config : Config.ServiceConfig) (s : σ)
    (space : Option Wire.SaveDataSpace) : String :=
  let spaces := (space.map ([·])).getD config.infoReaderSpaces
  let reader : SaveInfoReader := ⟨Save.enumerate s (outside.controller.openSpace s) spaces⟩
  "".intercalate ((fetchAll reader).map recordLine)

def reportedClasses : List Wire.StorageClass := [.nandSystem, .nandUser, .sdCard]

def freeSpace (outside : Service.Collaborators σ F D) : String :=
  "".intercalate (reportedClasses.map fun storage =>
    storage.name ++ "\t" ++ toString (outside.controller.freeSpace storage) ++ "\t"
      ++ toString (outside.controller.totalSpace storage) ++ "\n")

end Tool

end GuestStorage
