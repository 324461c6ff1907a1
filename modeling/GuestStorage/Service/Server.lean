import GuestStorage.Save.Enumeration
import GuestStorage.Service.Controller
import GuestStorage.Session.Client
import GuestStorage.Text.Quoted

namespace GuestStorage.Service

open GuestStorage.Tree Session

structure Collaborators (σ F D : Type) where
  controller : Controller σ F D
  content : ContentProvider σ F D

structure Report where
  mode : Wire.LogMode
  line : String
  deriving DecidableEq

structure Server (σ F D : Type) where
  client : Client σ F D
  config : Config.ServiceConfig
  process : UInt64
  logMode : Wire.LogMode
  reports : List Report

inductive Request where
  | openFileSystemWithPatch (part : UInt32) (title : UInt64)
  | openBisFileSystem (partition : UInt32)
  | openBisStorage (partition : UInt32)
  | openSdCardFileSystem
  | openSaveData (space : UInt8) (descriptor : Bytes)
  | openReadOnlySaveData (space : UInt8) (descriptor : Bytes)
  | openInfoReader
  | openInfoReaderOfSpace (space : UInt8)
  | openImageDirectory (id : UInt32)
  | openContentStorage (id : UInt32)
  | openOwnDataStorage
  | openDataStorage (storage : UInt8) (title : UInt64)
  | openPatchDataStorage (storage : UInt8) (title : UInt64)
  | openNotifier (event : Detection)
  | createSaveData (descriptor : Bytes)
  | createSystemSaveData (descriptor : Bytes)
  | invalidateBisCache
  | setSdCardEncryptionSeed (seed : Bytes)
  | setLogMode (mode : UInt32)
  | getLogMode
  | outputAccessLog (buffer : Bytes)
  | getAccessLogVersion
  | setCurrentProcess (process : UInt64)
  | hostEvent (event : Detection) (request : EventRequest)
  deriving DecidableEq

inductive Reply where
  | done
  | opened (handle : Nat) (kind : String)
  | logMode (mode : Wire.LogMode)
  | reported (report : Report)
  | accessLogVersion (version : Wire.AccessLogVersion) (programIndex : UInt32)
  | process (id : UInt64)
  | event (which : Detection) (raised : Bool)
  deriving DecidableEq

namespace Server

variable {σ F D : Type} [Backing σ F D]

def start (storage : σ) (config : Config.ServiceConfig) : Server σ F D where
  client := .start storage
  config := config
  process := 0
  logMode := config.logMode
  reports := []

abbrev Answer := Except Error Reply

def storage (server : Server σ F D) : σ := server.client.storage

def opened (server : Server σ F D) (session : Except Error (AnySession F D)) :
    Answer × Server σ F D :=
  match session with
  | .error e => (.error e, server)
  | .ok session =>
    let (handle, client) := server.client.insert session
    (.ok (.opened handle session.kind), { server with client })

def mounted (outside : Collaborators σ F D) (storage : Wire.StorageClass) (root : DirectoryView D) :
    AnySession F D :=
  .fileSystem ⟨⟨root⟩, ⟨storage, outside.controller.freeSpace storage, outside.controller.totalSpace storage⟩⟩

def orInvalid {α : Type} : Option α → Except Error α
  | some value => .ok value
  | none => .error .invalidArgument

def openPatchedSection (outside : Collaborators σ F D) (s : σ) (part : UInt32) (title : UInt64) :
    Except Error (AnySession F D) := do
  let kind : Wire.FileSystemType ← decodeArgument part.toNat
  let root ← orInvalid (outside.content.patchedSection? s title kind kind.contentRecord)
  return mounted outside .host root

def openBisFileSystem (outside : Collaborators σ F D) (s : σ) (partition : UInt32) :
    Except Error (AnySession F D) := do
  let partition : Wire.BisPartition ← decodeArgument partition.toNat
  let root ← outside.controller.openPartition s partition
  return mounted outside .host root

def openBisStorage (outside : Collaborators σ F D) (s : σ) (partition : UInt32) :
    Except Error (AnySession F D) := do
  let partition : Wire.BisPartition ← decodeArgument partition.toNat
  let file ← outside.controller.openPartitionStorage s partition
  return .storage ⟨file⟩

def openSdCard (outside : Collaborators σ F D) (s : σ) : Except Error (AnySession F D) :=
  match outside.controller.openSdCard s with
  | .ok root => .ok (mounted outside .sdCard root)
  | .error _ => .error .sdCardNotFound

def decodeDescriptor (bytes : Bytes) : Except Error Wire.SaveDescriptor :=
  (Wire.SaveDescriptor.decode bytes).mapError .malformed

/-- Whatever keeps a save from being opened, it counts as not found. -/
def openSave (outside : Collaborators σ F D) (s : σ) (space : UInt8) (descriptor : Bytes)
    (access : DirectoryView D → DirectoryView D) : Except Error (AnySession F D) := do
  let space : Wire.SaveDataSpace ← decodeArgument space.toNat
  let descriptor ← decodeDescriptor descriptor
  match outside.controller.openSave s space descriptor with
  | .ok root => return mounted outside space.storageClass (access root)
  | .error _ => .error .entityNotFound

def saveInfoReader (outside : Collaborators σ F D) (s : σ) (spaces : List Wire.SaveDataSpace) :
    AnySession F D :=
  .saveInfoReader ⟨Save.enumerate s (outside.controller.openSpace s) spaces⟩

def openInfoReaderOfSpace (outside : Collaborators σ F D) (s : σ) (space : UInt8) :
    Except Error (AnySession F D) := do
  let space : Wire.SaveDataSpace ← decodeArgument space.toNat
  return saveInfoReader outside s [space]

def imageStorage : Wire.ImageDirectory → Wire.StorageClass
  | .nand => .nandUser
  | .sdCard => .sdCard

def openImageDirectory (outside : Collaborators σ F D) (s : σ) (id : UInt32) :
    Except Error (AnySession F D) := do
  let id : Wire.ImageDirectory ← decodeArgument id.toNat
  let root ← orInvalid (outside.controller.imageDirectory? s id)
  return mounted outside (imageStorage id) root

def contentStorageClass : Wire.ContentStorage → Wire.StorageClass
  | .system => .nandSystem
  | .user => .nandUser
  | .sdCard => .sdCard

def openContentStorage (outside : Collaborators σ F D) (s : σ) (id : UInt32) :
    Except Error (AnySession F D) := do
  let id : Wire.ContentStorage ← decodeArgument id.toNat
  let root ← orInvalid (outside.controller.contentDirectory? s id)
  return mounted outside (contentStorageClass id) root

def openOwnDataStorage (outside : Collaborators σ F D) (s : σ) : Except Error (AnySession F D) :=
  match outside.controller.openOwnArchive s with
  | .ok file => .ok (.storage ⟨file⟩)
  | .error _ => .error .operationFailed

/-- An installed archive with its updates, or else the replacement for a system archive. -/
def openDataStorage (outside : Collaborators σ F D) (s : σ) (storage : UInt8) (title : UInt64) :
    Except Error (AnySession F D) × σ :=
  match decodeArgument (α := Wire.StorageClass) storage.toNat with
  | .error e => (.error e, s)
  | .ok storage =>
    match outside.controller.openArchive s title storage .data with
    | .ok base =>
      let (file, s) := outside.content.patchArchive s title base .data
      (.ok (.storage ⟨file⟩), s)
    | .error _ =>
      match outside.content.synthesizeArchive? s title with
      | some file => (.ok (.storage ⟨file⟩), s)
      | none => (.error .operationFailed, s)

def withStorage (server : Server σ F D) (storage : σ) : Server σ F D :=
  { server with client := { server.client with storage } }

def createSave (outside : Collaborators σ F D) (server : Server σ F D) (space : Wire.SaveDataSpace)
    (descriptor : Bytes) : Answer × Server σ F D :=
  match decodeDescriptor descriptor with
  | .error e => (.error e, server)
  | .ok descriptor =>
    let (created, storage) := outside.controller.createSave server.storage space descriptor
    (created.map fun _ => .done, server.withStorage storage)

def step (outside : Collaborators σ F D) (server : Server σ F D) : Request → Answer × Server σ F D
  | .openFileSystemWithPatch part title =>
    server.opened (openPatchedSection outside server.storage part title)
  | .openBisFileSystem partition => server.opened (openBisFileSystem outside server.storage partition)
  | .openBisStorage partition => server.opened (openBisStorage outside server.storage partition)
  | .openSdCardFileSystem => server.opened (openSdCard outside server.storage)
  | .openSaveData space descriptor =>
    server.opened (openSave outside server.storage space descriptor id)
  | .openReadOnlySaveData space descriptor =>
    server.opened (openSave outside server.storage space descriptor .project)
  | .openInfoReader =>
    server.opened (.ok (saveInfoReader outside server.storage server.config.infoReaderSpaces))
  | .openInfoReaderOfSpace space => server.opened (openInfoReaderOfSpace outside server.storage space)
  | .openImageDirectory id => server.opened (openImageDirectory outside server.storage id)
  | .openContentStorage id => server.opened (openContentStorage outside server.storage id)
  | .openOwnDataStorage => server.opened (openOwnDataStorage outside server.storage)
  | .openDataStorage storage title =>
    let (session, s) := openDataStorage outside server.storage storage title
    (server.withStorage s).opened session
  | .openPatchDataStorage _ _ => (.error .entityNotFound, server)
  | .openNotifier event => server.opened (.ok (.eventNotifier event))
  | .createSaveData descriptor => createSave outside server .nandUser descriptor
  | .createSystemSaveData descriptor => createSave outside server .nandSystem descriptor
  | .invalidateBisCache => (.ok .done, server)
  | .setSdCardEncryptionSeed _ => (.ok .done, server)
  | .setLogMode mode =>
    match decodeArgument mode.toNat with
    | .error e => (.error e, server)
    | .ok mode => (.ok .done, { server with logMode := mode })
  | .getLogMode => (.ok (.logMode server.logMode), server)
  | .outputAccessLog buffer =>
    let report : Report := ⟨server.logMode, Text.Utf8.decodeTerminated buffer⟩
    (.ok (.reported report), { server with reports := server.reports ++ [report] })
  | .getAccessLogVersion =>
    (.ok (.accessLogVersion .latest server.config.accessLogProgramIndex), server)
  | .setCurrentProcess process => (.ok (.process process), { server with process })
  | .hostEvent event request =>
    let (_, client) := server.client.event event request
    (.ok (.event event (client.signals.isRaised event)), { server with client })

end Server

end GuestStorage.Service

namespace GuestStorage

def Config.ServiceConfig.describe (config : Config.ServiceConfig) : String :=
  "ServiceConfig \x7b log_mode: " ++ config.logMode.name ++ ", access_log_program_index: "
    ++ toString config.accessLogProgramIndex.toNat ++ ", info_reader_spaces: ["
    ++ ", ".intercalate (config.infoReaderSpaces.map (·.name)) ++ "] \x7d"

def Service.Server.describe {σ F D : Type} (server : Service.Server σ F D) : String :=
  "FspSrv \x7b config: " ++ server.config.describe ++ ", current_process_id: "
    ++ toString server.process.toNat ++ ", log_mode: " ++ server.logMode.name ++ ", .. \x7d"

def Session.Detection.describe (event : Session.Detection) : String :=
  "EventNotifierSession \x7b event: " ++ Text.Quoted.quote event.name ++ " \x7d"

end GuestStorage
