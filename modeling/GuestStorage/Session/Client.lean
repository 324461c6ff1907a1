import GuestStorage.Session.Table

namespace GuestStorage.Session

structure Signals where
  sdCard : Bool := false
  gameCard : Bool := false
  deriving DecidableEq

namespace Signals

def isRaised (signals : Signals) : Detection → Bool
  | .sdCard => signals.sdCard
  | .gameCard => signals.gameCard

def set (signals : Signals) (raised : Bool) : Detection → Signals
  | .sdCard => { signals with sdCard := raised }
  | .gameCard => { signals with gameCard := raised }

end Signals

inductive PathRequest where
  | createFile (path : String) (size : Nat)
  | deleteFile (path : String)
  | createDirectory (path : String)
  | deleteDirectory (path : String)
  | deleteDirectoryRecursively (path : String)
  | cleanDirectoryRecursively (path : String)
  | renameFile (source target : String)
  | renameDirectory (source target : String)
  | commit
  | entryType (path : String)
  | freeSpace (path : String)
  | totalSpace (path : String)
  | openFile (path : String) (mode : UInt32)
  | openDirectory (path : String) (filter : UInt32)
  deriving DecidableEq

inductive FileRequest where
  | read (offset length : Int64) (capacity : Nat)
  | write (offset length : Int64) (data : Bytes)
  | flush
  | setSize (size : Nat)
  | getSize
  deriving DecidableEq

/-- Records are packed into a buffer, or handed out as they are. -/
inductive CursorRequest where
  | pack (buffer : Bytes)
  | take (most : Nat)
  | remaining
  deriving DecidableEq

inductive StorageRequest where
  | read (offset length : Int64) (capacity : Nat)
  | getSize
  deriving DecidableEq

inductive EventRequest where
  | get
  | signal
  | clear
  deriving DecidableEq

inductive Request where
  | path (handle : Nat) (request : PathRequest)
  | file (handle : Nat) (request : FileRequest)
  | directory (handle : Nat) (request : CursorRequest)
  | storage (handle : Nat) (request : StorageRequest)
  | saveInfo (handle : Nat) (request : CursorRequest)
  | event (handle : Nat) (request : EventRequest)
  | kind (handle : Nat)
  | close (handle : Nat)
  deriving DecidableEq

inductive Reply where
  | done
  | entryType (kind : Wire.EntryType)
  | size (bytes : Nat)
  | data (bytes : Bytes)
  | openedFile (handle : Nat) (mode : Wire.OpenMode)
  | openedDirectory (handle count : Nat)
  | packed (count : Nat) (buffer : Bytes)
  | entries (records : List Wire.DirectoryEntry)
  | saves (records : List Wire.SaveInfo)
  | remaining (count : Nat)
  | event (which : Detection) (raised : Bool)
  | kind (text : String)
  deriving DecidableEq

structure Client (σ F D : Type) where
  storage : σ
  table : Table F D
  signals : Signals

namespace Client

variable {σ F D : Type} [Tree.Backing σ F D]

abbrev Answer := Except WriteFailure Reply

def refuse (e : Error) : Answer := .error (.refused e)

def ofExcept {α : Type} (reply : α → Reply) : Except Error α → Answer
  | .ok value => .ok (reply value)
  | .error e => refuse e

def start (storage : σ) : Client σ F D := ⟨storage, .empty, {}⟩

def insert (client : Client σ F D) (session : AnySession F D) : Nat × Client σ F D :=
  let (handle, table) := client.table.insert session
  (handle, { client with table })

def afterChange (client : Client σ F D) (step : Except Error Unit × σ) : Answer × Client σ F D :=
  (ofExcept (fun _ => .done) step.1, { client with storage := step.2 })

def path (client : Client σ F D) (fs : FileSystem D) : PathRequest → Answer × Client σ F D
  | .createFile path size => client.afterChange (fs.mount.createFile client.storage path size)
  | .deleteFile path => client.afterChange (fs.mount.deleteFile client.storage path)
  | .createDirectory path => client.afterChange (fs.mount.createDirectory client.storage path)
  | .deleteDirectory path =>
    client.afterChange (Tree.Mount.deleteDirectory client.storage fs.mount path)
  | .deleteDirectoryRecursively path =>
    client.afterChange (Tree.Mount.deleteDirectoryRecursively client.storage fs.mount path)
  | .cleanDirectoryRecursively path =>
    client.afterChange (Tree.Mount.cleanDirectoryRecursively client.storage fs.mount path)
  | .renameFile source target =>
    client.afterChange (fs.mount.renameFile client.storage source target)
  | .renameDirectory source target =>
    client.afterChange (fs.mount.renameDirectory client.storage source target)
  | .commit => (.ok .done, client)
  | .entryType path => (ofExcept .entryType (fs.mount.entryType client.storage path), client)
  | .freeSpace _ => (.ok (.size fs.space.free), client)
  | .totalSpace _ => (.ok (.size fs.space.total), client)
  | .openFile path mode =>
    match fs.openFile client.storage path mode with
    | .error e => (refuse e, client)
    | .ok opened =>
      let (handle, client) := client.insert (.file opened)
      (.ok (.openedFile handle opened.mode), client)
  | .openDirectory path filter =>
    match fs.openDirectory client.storage path filter with
    | .error e => (refuse e, client)
    | .ok listing =>
      let (handle, client) := client.insert (.directory listing)
      (.ok (.openedDirectory handle listing.count), client)

def file (client : Client σ F D) (opened : OpenFile F) : FileRequest → Answer × Client σ F D
  | .read offset length capacity =>
    (ofExcept .data (opened.read client.storage offset length capacity), client)
  | .write offset length data =>
    let (result, storage) := opened.write client.storage offset length data
    (result.map fun _ => .done, { client with storage })
  | .flush => (.ok .done, client)
  | .setSize size => client.afterChange (opened.setSize client.storage size)
  | .getSize => (.ok (.size (opened.size client.storage)), client)

def directory (client : Client σ F D) (handle : Nat) (listing : Listing) :
    CursorRequest → Answer × Client σ F D
  | .pack buffer =>
    let (count, filled, listing) := listing.read buffer
    (.ok (.packed count filled), { client with table := client.table.update handle (.directory listing) })
  | .take most =>
    let (records, listing) := listing.take most
    (.ok (.entries records), { client with table := client.table.update handle (.directory listing) })
  | .remaining => (.ok (.remaining listing.count), client)

def saveInfo (client : Client σ F D) (handle : Nat) (reader : SaveInfoReader) :
    CursorRequest → Answer × Client σ F D
  | .pack buffer =>
    let (count, filled, reader) := SaveInfoReader.read reader buffer
    (.ok (.packed count.toNat filled),
      { client with table := client.table.update handle (.saveInfoReader reader) })
  | .take most =>
    let (records, reader) := reader.take most
    (.ok (.saves records),
      { client with table := client.table.update handle (.saveInfoReader reader) })
  | .remaining => (.ok (.remaining reader.count), client)

def event (client : Client σ F D) (which : Detection) (request : EventRequest) :
    Answer × Client σ F D :=
  let signals :=
    match request with
    | .get => client.signals
    | .signal => client.signals.set true which
    | .clear => client.signals.set false which
  (.ok (.event which (signals.isRaised which)), { client with signals })

def withSession {α : Type} (client : Client σ F D) (found : Except Error α)
    (run : α → Answer × Client σ F D) : Answer × Client σ F D :=
  match found with
  | .error e => (refuse e, client)
  | .ok session => run session

def step (client : Client σ F D) : Request → Answer × Client σ F D
  | .path handle request =>
    client.withSession (client.table.fileSystem handle) fun fs => client.path fs request
  | .file handle request =>
    client.withSession (client.table.file handle) fun opened => client.file opened request
  | .directory handle request =>
    client.withSession (client.table.directory handle) fun listing =>
      client.directory handle listing request
  | .storage handle request =>
    client.withSession (client.table.storage handle) fun storage =>
      match request with
      | .read offset length capacity =>
        (ofExcept .data (storage.read client.storage offset length capacity), client)
      | .getSize => (.ok (.size (storage.size client.storage)), client)
  | .saveInfo handle request =>
    client.withSession (client.table.saveInfoReader handle) fun reader =>
      client.saveInfo handle reader request
  | .event handle request =>
    client.withSession (client.table.eventNotifier handle) fun which => client.event which request
  | .kind handle =>
    client.withSession (client.table.lookup handle) fun session => (.ok (.kind session.kind), client)
  | .close handle =>
    client.withSession (client.table.close handle) fun (session, table) =>
      (.ok (.kind session.kind), { client with table })

/-- Runs requests in turn and collects the answers; a failed request does not stop the run. -/
def run (client : Client σ F D) : List Request → List Answer × Client σ F D
  | [] => ([], client)
  | request :: rest =>
    let (answer, client) := client.step request
    let (answers, client) := run client rest
    (answer :: answers, client)

end Client

end GuestStorage.Session
