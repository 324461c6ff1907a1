import GuestStorage.Proofs.Host.Mounts
import GuestStorage.Proofs.Projection.Mount
import GuestStorage.Proofs.Session.Client

namespace GuestStorage.Session

def PathRequest.renamesDirectory : PathRequest → Bool
  | .renameDirectory .. => true
  | _ => false

def Request.renamesDirectory : Request → Bool
  | .path _ request => request.renamesDirectory
  | _ => false

/-- All file systems are mounted on one root, there are no raw images, and hosts take the paths of all files. -/
def AnySession.IsOn (root : Host.Root) : AnySession Host.FileNode Host.DirectoryNode → Prop
  | .fileSystem fs => fs.mount.root.node = ⟨root, root⟩
  | .storage _ => False
  | .file opened => opened.file.node.root.admits opened.file.node.path = true
  | .directory _ | .saveInfoReader _ | .eventNotifier _ => True

end GuestStorage.Session

namespace GuestStorage.Host

open GuestStorage.Tree Session Disk

variable {root : Root} {place spot : Location} {disk other : Disk}

abbrev HostClient := Client Disk FileNode DirectoryNode

/-- A client's step was answered alike on two hosts, and left it with the same sessions. -/
structure StepAgree (kept : Location → Disk → Disk → Prop) (place spot : Location) (disk other : Disk)
    (left right : Client.Answer × HostClient) : Prop where
  answer : right.1 = left.1
  table : right.2.table = left.2.table
  signals : right.2.signals = left.2.signals
  alike : Alike kept place spot disk other left.2.storage right.2.storage

namespace StepAgree

variable {client : HostClient} {kept : Location → Disk → Disk → Prop}

theorem still (twins : Twins root place spot client.storage other) (answer : Client.Answer)
    (table : Table FileNode DirectoryNode) (signals : Signals) :
    StepAgree Calm place spot client.storage other (answer, ⟨client.storage, table, signals⟩)
      (answer, ⟨other, table, signals⟩) :=
  ⟨rfl, rfl, rfl, twins.same, Calm.refl place _, Calm.refl spot other⟩

theorem keeps {left right : Client.Answer × HostClient}
    (agree : StepAgree Calm place spot disk other left right) :
    StepAgree Keeps place spot disk other left right :=
  ⟨agree.answer, agree.table, agree.signals, agree.alike.keeps⟩

theorem afterChange {left right : Except Error Unit × Disk}
    (agree : Agree kept place spot client.storage other left right) :
    StepAgree kept place spot client.storage other (client.afterChange left)
      (Client.afterChange { client with storage := other } right) :=
  ⟨congrArg (Client.ofExcept fun _ => .done) agree.answer, rfl, rfl, agree.alike⟩

end StepAgree

section Asking

variable {client : HostClient} {fs : FileSystem DirectoryNode} (mirrors : Mirrors root place spot client.storage other)
include mirrors

theorem listing_eq {dir : DirectoryView DirectoryNode} (placed : DirectoryPlaced client.storage root place dir)
    (filter : UInt32) : Listing.ofDirectory other dir filter = Listing.ofDirectory client.storage dir filter := by
  have files : Listing.fileEntries other dir = Listing.fileEntries client.storage dir := by
    rw [Listing.fileEntries, Listing.fileEntries, mirrors.files_eq placed]
    apply List.map_congr_left
    intro file listed
    rw [(mirrors.file_tame (mirrors.placed_of_files placed listed)).size_eq]
    rfl
  have directories : Listing.directoryEntries other dir = Listing.directoryEntries client.storage dir := by
    rw [Listing.directoryEntries, Listing.directoryEntries, mirrors.subdirectories_eq placed]
    apply List.map_congr_left
    intro sub listed
    rw [mirrors.size_eq (mirrors.placed_of_subdirectories placed listed)]
    rfl
  rw [Listing.ofDirectory, Listing.ofDirectory, files, directories]

variable (placed : DirectoryPlaced client.storage root place fs.mount.root)
include placed

theorem session_openFile_eq (text : String) (mode : UInt32) :
    fs.openFile other text mode = fs.openFile client.storage text mode ∧
      ∀ opened, fs.openFile client.storage text mode = .ok opened →
        FilePlaced client.storage root place opened.file := by
  simp only [FileSystem.openFile, bind, Except.bind, pure, Except.pure]
  cases (decodeArgument mode.toNat : Except Error Wire.OpenMode) with
  | error e => exact ⟨rfl, by simp⟩
  | ok mode =>
    obtain ⟨same, reaches⟩ := mirrors.openFile_eq placed text mode
    simp only [same]
    refine ⟨trivial, fun opened result => ?_⟩
    cases reached : fs.mount.openFile client.storage text mode with
    | error e => simp [reached] at result
    | ok file =>
      simp only [reached, Except.ok.injEq] at result
      rw [← result]
      exact reaches file reached

theorem session_openDirectory_eq (text : String) (filter : UInt32) :
    fs.openDirectory other text filter = fs.openDirectory client.storage text filter := by
  obtain ⟨same, reaches⟩ := mirrors.openDirectory_eq placed text
  simp only [FileSystem.openDirectory, bind, Except.bind, pure, Except.pure, same]
  cases reached : fs.mount.openDirectory client.storage text with
  | error e => rfl
  | ok dir => simp only [listing_eq mirrors (reaches dir reached) filter]

theorem path_asked {request : PathRequest} (asks : request.isChange = false) :
    (client.path fs request).2.storage = client.storage ∧
      Client.path { client with storage := other } fs request =
        ((client.path fs request).1, { (client.path fs request).2 with storage := other }) := by
  cases request with
  | createFile | deleteFile | createDirectory | deleteDirectory | deleteDirectoryRecursively
  | cleanDirectoryRecursively | renameFile | renameDirectory => cases asks
  | commit | freeSpace text | totalSpace text => exact ⟨rfl, rfl⟩
  | entryType text =>
    simp only [Client.path, mirrors.entryType_eq placed]
    trivial
  | openFile text mode =>
    simp only [Client.path, (session_openFile_eq mirrors placed text mode).1]
    cases fs.openFile client.storage text mode <;> exact ⟨rfl, rfl⟩
  | openDirectory text filter =>
    simp only [Client.path, session_openDirectory_eq mirrors placed text filter]
    cases fs.openDirectory client.storage text filter <;> exact ⟨rfl, rfl⟩

end Asking

section Path

variable {client : HostClient} {fs : FileSystem DirectoryNode} (twins : Twins root place spot client.storage other)
  (placed : DirectoryPlaced client.storage root place fs.mount.root)
include twins placed

theorem path_agree_calm {request : PathRequest} (calm : request.renamesDirectory = false) :
    StepAgree Calm place spot client.storage other (client.path fs request)
      (Client.path { client with storage := other } fs request) := by
  cases asks : request.isChange with
  | false =>
    obtain ⟨kept, same⟩ := path_asked twins.toMirrors placed asks
    rw [same]
    refine ⟨rfl, rfl, rfl, ?_⟩
    rw [kept]
    exact (twins.still ()).alike
  | true =>
    cases request with
    | commit | entryType | freeSpace | totalSpace | openFile | openDirectory => cases asks
    | createFile text size => exact .afterChange (twins.mount_createFile_agree placed text size)
    | deleteFile text => exact .afterChange (twins.mount_deleteFile_agree placed text)
    | createDirectory text => exact .afterChange (twins.mount_createDirectory_agree placed text)
    | deleteDirectory text =>
      exact .afterChange (twins.onSubdirectory_agree placed
        (fun _ here name => twins.deleteSubdirectory_agree here name) text)
    | deleteDirectoryRecursively text =>
      exact .afterChange (twins.onSubdirectory_agree placed
        (fun _ here name => twins.deleteTree_agree here name) text)
    | cleanDirectoryRecursively text =>
      exact .afterChange (twins.onSubdirectory_agree placed
        (fun _ here name => twins.cleanSubdirectory_agree here name) text)
    | renameFile source target => exact .afterChange (twins.mount_renameFile_agree placed source target)
    | renameDirectory source target => cases calm

theorem path_agree (request : PathRequest) :
    StepAgree Keeps place spot client.storage other (client.path fs request)
      (Client.path { client with storage := other } fs request) := by
  cases moves : request.renamesDirectory with
  | false => exact (path_agree_calm twins placed moves).keeps
  | true =>
    cases request with
    | renameDirectory source target =>
      exact .afterChange (twins.mount_renameDirectory_agree placed source target)
    | createFile | deleteFile | createDirectory | deleteDirectory | deleteDirectoryRecursively
    | cleanDirectoryRecursively | renameFile | commit | entryType | freeSpace | totalSpace | openFile
    | openDirectory => cases moves

end Path

theorem mayWrite_eq {opened : OpenFile FileNode} (tame : Tame place spot disk other opened.file.node.path) :
    opened.mayWrite other = opened.mayWrite disk := by
  rw [OpenFile.mayWrite, OpenFile.mayWrite, tame.isWritable_eq]

section File

variable {client : HostClient} {opened : OpenFile FileNode}
  (twins : Twins root place spot disk other) (tame : Tame place spot disk other opened.file.node.path)
include twins tame

theorem pad_agree (extent : Extent) (rounds written : Nat) :
    Agree Calm place spot disk other (OpenFile.pad opened.file extent rounds disk written)
      (OpenFile.pad opened.file extent rounds other written) := by
  induction rounds generalizing disk other written with
  | zero => exact twins.still written
  | succ rounds ih =>
    simp only [OpenFile.pad]
    split
    · obtain ⟨wrote, stays⟩ := twins.file_write_agree tame (extent.offset + written)
        (Bytes.zeros (min (extent.length - written) OpenFile.paddingChunk))
      obtain ⟨count, middle, middle', left, right, alike⟩ := wrote.split
      rw [left, right] at stays
      simp only [left, right]
      split
      · exact ⟨rfl, alike⟩
      · exact .onward alike (ih (twins.onward alike) stays _)
    · exact twins.still written

theorem writePadded_agree (extent : Extent) (data : Bytes) :
    Agree Calm place spot disk other (OpenFile.writePadded disk opened.file extent data)
      (OpenFile.writePadded other opened.file extent data) := by
  obtain ⟨wrote, stays⟩ := twins.file_write_agree tame extent.offset data
  obtain ⟨count, middle, middle', left, right, alike⟩ := wrote.split
  rw [left, right] at stays
  simp only [OpenFile.writePadded, left, right]
  split
  · exact .onward alike (pad_agree (twins.onward alike) stays extent _ _)
  · exact ⟨rfl, alike⟩

theorem open_write_agree (offset length : Int64) (data : Bytes) :
    Agree Calm place spot disk other (opened.write disk offset length data)
      (opened.write other offset length data) := by
  simp only [OpenFile.write, mayWrite_eq tame]
  cases Extent.check offset length with
  | error e => exact twins.still _
  | ok extent =>
    dsimp only
    split
    · exact twins.still _
    · split
      · exact twins.still _
      · obtain ⟨written, middle, middle', left, right, alike⟩ :=
          (writePadded_agree twins tame extent data).split
        simp only [left, right]
        split <;> exact ⟨rfl, alike⟩

theorem open_setSize_agree (size : Nat) :
    Agree Calm place spot disk other (opened.setSize disk size) (opened.setSize other size) := by
  simp only [OpenFile.setSize, mayWrite_eq tame]
  split
  · exact twins.still _
  · obtain ⟨done, middle, middle', left, right, alike⟩ := (twins.file_resize_agree tame size).1.split
    simp only [left, right]
    cases done <;> exact ⟨rfl, alike⟩

end File

theorem file_agree {client : HostClient} {opened : OpenFile FileNode}
    (twins : Twins root place spot client.storage other)
    (tame : Tame place spot client.storage other opened.file.node.path) (request : FileRequest) :
    StepAgree Calm place spot client.storage other (client.file opened request)
      (Client.file { client with storage := other } opened request) := by
  cases request with
  | flush => exact .still twins _ _ _
  | read offset length capacity =>
    simp only [Client.file, OpenFile.read, tame.read_eq]
    exact .still twins _ _ _
  | getSize =>
    simp only [Client.file, OpenFile.size, tame.size_eq]
    exact .still twins _ _ _
  | setSize size => exact .afterChange (open_setSize_agree twins tame size)
  | write offset length data =>
    have agree := open_write_agree twins tame offset length data
    exact ⟨congrArg (Except.map fun _ => Reply.done) agree.answer, rfl, rfl, agree.alike⟩

section Step

variable {client : HostClient} (on : client.table.All (·.IsOn root))
include on

theorem placed_of_fileSystem (place : Location) {handle : Nat} {fs : FileSystem DirectoryNode}
    (found : client.table.fileSystem handle = .ok fs) :
    DirectoryPlaced client.storage root place fs.mount.root := by
  have root : fs.mount.root.node = ⟨root, root⟩ := on _ _ (Table.find?_of_fileSystem found)
  exact ⟨[], by rw [root, List.append_nil], Plain.nil _ _⟩

def TameFor (place spot : Location) (client : HostClient) (other : Disk) (request : Request) : Prop :=
  ∀ handle call opened, request = .file handle call → client.table.file handle = .ok opened →
    Tame place spot client.storage other opened.file.node.path

theorem step_agree_calm (twins : Twins root place spot client.storage other) {request : Request}
    (calm : request.renamesDirectory = false) (tame : TameFor place spot client other request) :
    StepAgree Calm place spot client.storage other (client.step request)
      (Client.step { client with storage := other } request) := by
  cases request with
  | path handle request =>
    simp only [Client.step]
    cases found : client.table.fileSystem handle with
    | error e => exact .still twins _ _ _
    | ok fs => exact path_agree_calm twins (placed_of_fileSystem on place found) calm
  | file handle request =>
    simp only [Client.step]
    cases found : client.table.file handle with
    | error e => exact .still twins _ _ _
    | ok opened => exact file_agree twins (tame handle request opened rfl found) request
  | directory handle request =>
    simp only [Client.step]
    cases client.table.directory handle with
    | error e => exact .still twins _ _ _
    | ok listing => cases request <;> exact .still twins _ _ _
  | storage handle request =>
    simp only [Client.step]
    cases found : client.table.storage handle with
    | error e => exact .still twins _ _ _
    | ok image => exact absurd (on _ _ (Table.find?_of_storage found)) id
  | saveInfo handle request =>
    simp only [Client.step]
    cases client.table.saveInfoReader handle with
    | error e => exact .still twins _ _ _
    | ok reader => cases request <;> exact .still twins _ _ _
  | event handle request =>
    simp only [Client.step]
    cases client.table.eventNotifier handle with
    | error e => exact .still twins _ _ _
    | ok which => exact .still twins _ _ _
  | kind handle =>
    simp only [Client.step]
    cases client.table.lookup handle with
    | error e => exact .still twins _ _ _
    | ok session => exact .still twins _ _ _
  | close handle =>
    simp only [Client.step]
    cases client.table.close handle with
    | error e => exact .still twins _ _ _
    | ok closed => exact .still twins _ _ _

theorem step_agree (twins : Twins root place spot client.storage other) {request : Request}
    (tame : TameFor place spot client other request) :
    StepAgree Keeps place spot client.storage other (client.step request)
      (Client.step { client with storage := other } request) := by
  cases moves : request.renamesDirectory with
  | false => exact (step_agree_calm on twins moves tame).keeps
  | true =>
    cases request with
    | path handle request =>
      simp only [Client.step]
      cases found : client.table.fileSystem handle with
      | error e => exact (StepAgree.still twins _ _ _).keeps
      | ok fs => exact path_agree twins (placed_of_fileSystem on place found) request
    | file | directory | storage | saveInfo | event | kind | close => cases moves

theorem isOn_step (request : Request) : (client.step request).2.table.All (·.IsOn root) := by
  refine Client.all_step on (fun _ => trivial) (fun _ => trivial) fun _ _ _ _ opened _ _ done => ?_
  obtain ⟨dir, name, -, found⟩ := Mount.file?_of_openFile (FileSystem.openFile_eq_ok.mp done).2
  obtain ⟨node, held, same⟩ := Option.map_eq_some_iff.mp found
  obtain ⟨child, seen, rfl⟩ := Option.map_eq_some_iff.mp held
  obtain ⟨-, admitted, -, rfl⟩ := DirectoryNode.child?_eq_some.mp seen
  show opened.file.node.root.admits opened.file.node.path = true
  rwa [← same]

theorem isOn_run (requests : List Request) : (client.run requests).2.table.All (·.IsOn root) := by
  induction requests generalizing client with
  | nil => exact on
  | cons request rest ih => exact ih (isOn_step on request)

end Step

/-- Two runs of the same requests were answered alike, and left hosts with the same below their roots. -/
structure RunAgree (root : Root) (place spot : Location) (disk other : Disk)
    (left right : List Client.Answer × HostClient) : Prop where
  answers : right.1 = left.1
  table : right.2.table = left.2.table
  twins : Twins root place spot left.2.storage right.2.storage
  left : Keeps place disk left.2.storage
  right : Keeps spot other right.2.storage

theorem run_agree (stays : HostClient → Disk → List Request → Prop)
    (tame : ∀ {client other request rest}, client.table.All (·.IsOn root) →
      Twins root place spot client.storage other → stays client other (request :: rest) →
        TameFor place spot client other request)
    (next : ∀ {client other request rest}, client.table.All (·.IsOn root) →
      Twins root place spot client.storage other → stays client other (request :: rest) →
        StepAgree Keeps place spot client.storage other (client.step request)
          (Client.step { client with storage := other } request) →
        stays (client.step request).2 (Client.step { client with storage := other } request).2.storage rest)
    {client : HostClient} {requests : List Request} (on : client.table.All (·.IsOn root))
    (twins : Twins root place spot client.storage other) (start : stays client other requests) :
    RunAgree root place spot client.storage other (client.run requests)
      (Client.run { client with storage := other } requests) := by
  induction requests generalizing client other with
  | nil => exact ⟨rfl, rfl, twins, Keeps.refl place _, Keeps.refl spot other⟩
  | cons request rest ih =>
    have agree := step_agree on twins (tame on twins start)
    have after : (Client.step { client with storage := other } request).2 =
        { (client.step request).2 with
          storage := (Client.step { client with storage := other } request).2.storage } := by
      have table := agree.table
      have signals := agree.signals
      cases result : (Client.step { client with storage := other } request).2
      simp only [result] at table signals
      rw [table, signals]
    have others := ih (isOn_step on request) (twins.keeps agree.alike) (next on twins start agree)
    rw [← after] at others
    refine ⟨?_, others.table, others.twins, agree.alike.left.trans others.left, agree.alike.right.trans others.right⟩
    simp only [Client.run, agree.answer, others.answers]

end GuestStorage.Host
