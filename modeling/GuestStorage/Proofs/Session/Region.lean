import GuestStorage.Proofs.Session.Client
import GuestStorage.Proofs.Tree.Region

namespace GuestStorage.Tree

open Session

variable {σ F D : Type} [Backing σ F D] {s : σ} {client : Client σ F D}

namespace Enclosure

variable (region : Enclosure σ)

theorem client_path_of_renames {fs : FileSystem D} (holds : region.holds client.storage)
    (here : region.directory fs.mount.root.node) (request : PathRequest)
    (file : ∀ source target, request = .renameFile source target →
      region.holds (fs.mount.renameFile client.storage source target).2)
    (directory : ∀ source target, request = .renameDirectory source target →
      region.holds (fs.mount.renameDirectory client.storage source target).2) :
    region.holds (client.path fs request).2.storage := by
  cases request with
  | createFile path size => exact region.mount_createFile holds here path size
  | deleteFile path => exact region.mount_deleteFile holds here path
  | createDirectory path => exact region.mount_createDirectory holds here path
  | deleteDirectory path =>
    exact region.onSubdirectory holds here
      (fun name inside => region.view_deleteSubdirectory holds inside name) path
  | deleteDirectoryRecursively path =>
    exact region.onSubdirectory holds here (fun name inside => region.deleteTree holds inside name) path
  | cleanDirectoryRecursively path =>
    exact region.onSubdirectory holds here
      (fun name inside => region.cleanSubdirectory holds inside name) path
  | renameFile source target => exact file source target rfl
  | renameDirectory source target => exact directory source target rfl
  | commit | entryType | freeSpace | totalSpace => exact holds
  | openFile path mode =>
    simp only [Client.path]
    split <;> exact holds
  | openDirectory path filter =>
    simp only [Client.path]
    split <;> exact holds

theorem client_file {opened : OpenFile F} (holds : region.holds client.storage) (here : region.file opened.file.node)
    (request : FileRequest) : region.holds (client.file opened request).2.storage :=
  Client.file_keeps region.holds (fun offset data kept => region.view_write kept here offset data)
    (fun size kept => region.view_resize kept here size) holds request

end Enclosure

namespace Region

variable (region : Region σ)

/-- A session that changes nothing but what belongs to the part. -/
def session : AnySession F D → Prop
  | .fileSystem fs => region.directory fs.mount.root.node
  | .file opened => region.file opened.file.node
  | .directory _ | .storage _ | .saveInfoReader _ | .eventNotifier _ => True

theorem client_path {fs : FileSystem D} (holds : region.holds client.storage)
    (here : region.directory fs.mount.root.node) (request : PathRequest) :
    region.holds (client.path fs request).2.storage :=
  region.client_path_of_renames holds here request
    (fun source target _ => region.mount_renameFile holds here source target)
    (fun source target _ => region.mount_renameDirectory holds here source target)

theorem openFile {fs : FileSystem D} (holds : region.holds s) (here : region.directory fs.mount.root.node)
    {path : String} {mode : UInt32} {opened : OpenFile F} (done : fs.openFile s path mode = .ok opened) :
    region.file opened.file.node := by
  exact region.mount_openFile holds here (FileSystem.openFile_eq_ok.mp done).2

structure Serves (client : Client σ F D) : Prop where
  holds : region.holds client.storage
  sessions : client.table.All region.session

theorem Serves.step {region : Region σ} (serves : region.Serves client) (request : Request) :
    region.Serves (client.step request).2 := by
  refine ⟨?_, Client.all_step serves.sessions (fun _ => trivial) (fun _ => trivial) ?_⟩
  · exact Client.step_keeps region.holds serves.holds
      (fun handle fs request found =>
        region.client_path serves.holds (serves.sessions _ _ (Table.find?_of_fileSystem found)) request)
      (fun handle opened request found =>
        region.client_file serves.holds (serves.sessions _ _ (Table.find?_of_file found)) request)
      request
  · intro handle fs path mode opened _ found done
    exact region.openFile serves.holds (serves.sessions _ _ (Table.find?_of_fileSystem found)) done

theorem Serves.run {region : Region σ} (serves : region.Serves client) (requests : List Request) :
    region.Serves (client.run requests).2 := by
  induction requests generalizing client with
  | nil => exact serves
  | cons request rest ih => exact ih (serves.step request)

end Region

end GuestStorage.Tree
