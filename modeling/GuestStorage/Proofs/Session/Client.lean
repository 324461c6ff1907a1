import GuestStorage.Proofs.Session.Table
import GuestStorage.Session.Client

namespace GuestStorage.Session

def PathRequest.paths : PathRequest → List String
  | .createFile path _ | .deleteFile path | .createDirectory path | .deleteDirectory path
  | .deleteDirectoryRecursively path | .cleanDirectoryRecursively path | .entryType path | .openFile path _
  | .openDirectory path _ => [path]
  | .renameFile source target | .renameDirectory source target => [source, target]
  | .commit | .freeSpace _ | .totalSpace _ => []

open GuestStorage.Tree

theorem FileSystem.openFile_eq_ok {σ F D : Type} [Backing σ F D] {s : σ} {fs : FileSystem D} {text : String}
    {raw : UInt32} {opened : OpenFile F} :
    fs.openFile s text raw = .ok opened ↔
      decodeArgument raw.toNat = .ok opened.mode ∧ fs.mount.openFile s text opened.mode = .ok opened.file := by
  obtain ⟨file, chosen⟩ := opened
  rw [FileSystem.openFile]
  cases decoded : (decodeArgument raw.toNat : Except Error Wire.OpenMode) with
  | error e => simp [bind, Except.bind]
  | ok mode =>
    have same : (Except.ok mode : Except Error Wire.OpenMode) = .ok chosen ↔ mode = chosen := by simp
    cases reached : fs.mount.openFile s text mode with
    | error e =>
      simp only [bind, Except.bind, reached, same, reduceCtorEq, false_iff, not_and]
      rintro rfl
      simp [reached]
    | ok view =>
      simp only [bind, Except.bind, reached, pure, Except.pure, Except.ok.injEq, OpenFile.mk.injEq]
      constructor
      · rintro ⟨rfl, rfl⟩
        exact ⟨rfl, reached⟩
      · rintro ⟨rfl, again⟩
        exact ⟨Except.ok.inj (reached.symm.trans again), rfl⟩

namespace Client

variable {σ F D : Type} [Backing σ F D] {client : Client σ F D} {holds : AnySession F D → Prop}

inductive TableStep (client : Client σ F D) : Request → Table F D → Prop where
  | same (sent : Request) : TableStep client sent client.table
  | openFile {handle : Nat} {fs : FileSystem D} {path : String} {mode : UInt32} {opened : OpenFile F} :
      client.table.fileSystem handle = .ok fs → fs.openFile client.storage path mode = .ok opened →
        TableStep client (.path handle (.openFile path mode)) (client.table.insert (.file opened)).2
  | openDirectory (handle : Nat) (path : String) (filter : UInt32) (listing : Listing) :
      TableStep client (.path handle (.openDirectory path filter)) (client.table.insert (.directory listing)).2
  | directory {handle : Nat} {listing : Listing} (call : CursorRequest) (rest : Listing) :
      client.table.directory handle = .ok listing →
        TableStep client (.directory handle call) (client.table.update handle (.directory rest))
  | saveInfo {handle : Nat} {reader : SaveInfoReader} (call : CursorRequest) (rest : SaveInfoReader) :
      client.table.saveInfoReader handle = .ok reader →
        TableStep client (.saveInfo handle call) (client.table.update handle (.saveInfoReader rest))
  | close {handle : Nat} {session : AnySession F D} {after : Table F D} :
      client.table.close handle = .ok (session, after) → TableStep client (.close handle) after

theorem step_table (client : Client σ F D) (sent : Request) : TableStep client sent (client.step sent).2.table := by
  cases sent with
  | path handle request =>
    simp only [step, withSession]
    split
    · exact .same _
    · rename_i fs found
      cases request with
      | createFile | deleteFile | createDirectory | deleteDirectory | deleteDirectoryRecursively
      | cleanDirectoryRecursively | renameFile | renameDirectory | commit | entryType | freeSpace
      | totalSpace => exact .same _
      | openFile path mode =>
        simp only [Client.path]
        split
        · exact .same _
        · rename_i opened reached
          exact .openFile found reached
      | openDirectory path filter =>
        simp only [Client.path]
        split
        · exact .same _
        · rename_i listing reached
          exact .openDirectory handle path filter listing
  | directory handle request =>
    simp only [step, withSession]
    split
    · exact .same _
    · rename_i listing found
      cases request with
      | pack | take => exact .directory _ _ found
      | remaining => exact .same _
  | saveInfo handle request =>
    simp only [step, withSession]
    split
    · exact .same _
    · rename_i reader found
      cases request with
      | pack | take => exact .saveInfo _ _ found
      | remaining => exact .same _
  | file handle request | storage handle request =>
    simp only [step, withSession]
    split
    · exact .same _
    · cases request <;> exact .same _
  | event handle request | kind handle =>
    simp only [step, withSession]
    split <;> exact .same _
  | close handle =>
    simp only [step, withSession]
    split
    · exact .same _
    · rename_i closed
      exact .close closed

theorem all_step (all : client.table.All holds) (listing : ∀ rest, holds (.directory rest))
    (reader : ∀ rest, holds (.saveInfoReader rest)) {request : Request}
    (file : ∀ handle fs path mode opened, request = .path handle (.openFile path mode) →
      client.table.fileSystem handle = .ok fs → fs.openFile client.storage path mode = .ok opened →
        holds (.file opened)) :
    (client.step request).2.table.All holds := by
  have does := client.step_table request
  generalize (client.step request).2.table = after at does ⊢
  cases does with
  | same => exact all
  | openFile found reached => exact Table.All.insert all (file _ _ _ _ _ rfl found reached)
  | openDirectory => exact Table.All.insert all (listing _)
  | directory => exact Table.All.update all (listing _) _
  | saveInfo => exact Table.All.update all (reader _) _
  | close closed => exact Table.All.close all closed

theorem file_of_step {handle : Nat} {opened : OpenFile F} {sent : Request}
    (found : (client.step sent).2.table.find? handle = some (.file opened)) :
    client.table.find? handle = some (.file opened) ∨ handle = client.table.last + 1 ∧
      ∃ mount fs path mode, sent = .path mount (.openFile path mode) ∧ client.table.fileSystem mount = .ok fs ∧
        fs.openFile client.storage path mode = .ok opened := by
  have does := client.step_table sent
  generalize (client.step sent).2.table = after at does found
  cases does with
  | same => exact .inl found
  | @openFile mount fs path mode opened' held reached =>
    by_cases new : handle = (client.table.insert (.file opened')).1
    · rw [new, Table.find?_insert_self] at found
      cases found
      exact .inr ⟨new, mount, fs, path, mode, rfl, held, reached⟩
    · exact .inl ((Table.find?_insert_of_ne _ _ new).symm.trans found)
  | openDirectory mount path filter listing =>
    by_cases new : handle = (client.table.insert (.directory listing)).1
    · rw [new, Table.find?_insert_self] at found
      cases found
    · exact .inl ((Table.find?_insert_of_ne _ _ new).symm.trans found)
  | @directory own _ _ rest held =>
    have there := Table.find?_of_directory held
    by_cases here : handle = own
    · rw [here, Table.find?_update_self there] at found
      cases found
    · exact .inl ((Table.find?_update_of_ne _ _ here).symm.trans found)
  | @saveInfo own _ _ rest held =>
    have there := Table.find?_of_saveInfoReader held
    by_cases here : handle = own
    · rw [here, Table.find?_update_self there] at found
      cases found
    · exact .inl ((Table.find?_update_of_ne _ _ here).symm.trans found)
  | @close own _ _ closed =>
    by_cases here : handle = own
    · rw [here, Table.find?_close_self closed] at found
      cases found
    · exact .inl ((Table.find?_close_of_ne closed here).symm.trans found)

def given : Answer → Nat
  | .ok (.openedFile ..) | .ok (.openedDirectory ..) => 1
  | _ => 0

theorem given_ofExcept {α : Type} {reply : α → Reply} (result : Except Error α)
    (plain : ∀ value, given (.ok (reply value)) = 0) : given (ofExcept reply result) = 0 := by
  cases result with
  | error e => rfl
  | ok value => exact plain value

theorem last_step (client : Client σ F D) (sent : Request) :
    (client.step sent).2.table.last = client.table.last + given (client.step sent).1 := by
  cases sent with
  | path handle request =>
    simp only [step, withSession]
    split
    · rfl
    · cases request with
      | createFile | deleteFile | createDirectory | deleteDirectory | deleteDirectoryRecursively
      | cleanDirectoryRecursively | renameFile | renameDirectory | entryType =>
        exact (Nat.add_eq_left.mpr (given_ofExcept _ fun _ => rfl)).symm
      | commit | freeSpace | totalSpace => rfl
      | openFile path mode | openDirectory path filter =>
        simp only [Client.path]
        split
        · rfl
        · rfl
  | file handle request =>
    simp only [step, withSession]
    split
    · rfl
    · cases request with
      | read | setSize => exact (Nat.add_eq_left.mpr (given_ofExcept _ fun _ => rfl)).symm
      | flush | getSize => rfl
      | write offset length data =>
        simp only [Client.file]
        rename_i opened _
        cases (opened.write client.storage offset length data).1 <;> rfl
  | directory handle request | saveInfo handle request =>
    simp only [step, withSession]
    split
    · rfl
    · cases request with
      | pack | take => rfl
      | remaining => rfl
  | storage handle request =>
    simp only [step, withSession]
    split
    · rfl
    · cases request with
      | read => exact (Nat.add_eq_left.mpr (given_ofExcept _ fun _ => rfl)).symm
      | getSize => rfl
  | event handle request | kind handle =>
    simp only [step, withSession]
    split <;> rfl
  | close handle =>
    simp only [step, withSession]
    split
    · rfl
    · rename_i closed
      exact Table.last_close closed

section Storage

variable (kept : σ → Prop)

theorem pad_keeps {file : FileView F}
    (write : ∀ {s : σ} (offset : Nat) (data : Bytes), kept s → kept (file.write s offset data).2)
    (extent : Extent) (rounds : Nat) {s : σ} (holds : kept s) (written : Nat) :
    kept (OpenFile.pad file extent rounds s written).2 := by
  induction rounds generalizing s written with
  | zero => exact holds
  | succ rounds ih =>
    simp only [OpenFile.pad]
    split
    · have next := write (extent.offset + written)
        (Bytes.zeros (min (extent.length - written) OpenFile.paddingChunk)) holds
      split
      · exact next
      · exact ih next _
    · exact holds

theorem file_keeps {opened : OpenFile F}
    (write : ∀ {s : σ} (offset : Nat) (data : Bytes), kept s → kept (opened.file.write s offset data).2)
    (resize : ∀ {s : σ} (size : Nat), kept s → kept (opened.file.resize s size).2)
    (holds : kept client.storage) (request : FileRequest) :
    kept (client.file opened request).2.storage := by
  cases request with
  | read | flush | getSize => exact holds
  | write offset length data =>
    simp only [Client.file, OpenFile.write]
    split
    · exact holds
    · rename_i extent checked
      have first := write extent.offset data holds
      have padded : kept (OpenFile.writePadded client.storage opened.file extent data).2 := by
        simp only [OpenFile.writePadded]
        split
        · exact pad_keeps kept write extent _ first _
        · exact first
      split
      · exact holds
      · split
        · exact holds
        · split <;> exact padded
  | setSize size =>
    have sized := resize size holds
    simp only [Client.file, afterChange, OpenFile.setSize]
    split
    · exact holds
    · split
      all_goals
        rename_i s' ends
        rw [ends] at sized
        exact sized

/-- A request keeps what it keeps of the storage along paths and on an open file, whichever it is. -/
theorem step_keeps_of {sent : Request} (holds : kept client.storage)
    (path : ∀ handle fs request, sent = .path handle request → client.table.fileSystem handle = .ok fs →
      kept (client.path fs request).2.storage)
    (file : ∀ handle opened request, sent = .file handle request → client.table.file handle = .ok opened →
      kept (client.file opened request).2.storage) : kept (client.step sent).2.storage := by
  cases sent with
  | path handle request =>
    simp only [step, withSession]
    split
    · exact holds
    · rename_i fs found
      exact path handle fs request rfl found
  | file handle request =>
    simp only [step, withSession]
    split
    · exact holds
    · rename_i opened found
      exact file handle opened request rfl found
  | directory handle request | storage handle request | saveInfo handle request =>
    simp only [step, withSession]
    split
    · exact holds
    · cases request <;> exact holds
  | event handle request | kind handle | close handle =>
    simp only [step, withSession]
    split <;> exact holds

theorem step_keeps (holds : kept client.storage)
    (path : ∀ handle fs request, client.table.fileSystem handle = .ok fs →
      kept (client.path fs request).2.storage)
    (file : ∀ handle opened request, client.table.file handle = .ok opened →
      kept (client.file opened request).2.storage)
    (sent : Request) : kept (client.step sent).2.storage :=
  step_keeps_of kept holds (fun handle fs request _ => path handle fs request)
    (fun handle opened request _ => file handle opened request)

end Storage

theorem find?_step {handle : Nat} {session : AnySession F D} {sent : Request}
    (held : client.table.find? handle = some session) (apart : sent ≠ .close handle)
    (listing : ∀ call rest, sent = .directory handle call → session ≠ .directory rest)
    (reader : ∀ call rest, sent = .saveInfo handle call → session ≠ .saveInfoReader rest) :
    (client.step sent).2.table.find? handle = some session := by
  have does := client.step_table sent
  generalize (client.step sent).2.table = after at does ⊢
  cases does with
  | same => exact held
  | openFile | openDirectory => exact Table.find?_insert_of_some held _
  | @directory other _ call _ found =>
    have there := Table.find?_of_directory found
    have different : handle ≠ other := by
      rintro rfl
      exact listing call _ rfl (Option.some.inj (held.symm.trans there))
    exact (Table.find?_update_of_ne _ _ different).trans held
  | @saveInfo other _ call _ found =>
    have there := Table.find?_of_saveInfoReader found
    have different : handle ≠ other := by
      rintro rfl
      exact reader call _ rfl (Option.some.inj (held.symm.trans there))
    exact (Table.find?_update_of_ne _ _ different).trans held
  | @close other _ _ closed =>
    have different : handle ≠ other := by
      rintro rfl
      exact apart rfl
    exact (Table.find?_close_of_ne closed different).trans held

def mounted (storage : σ) (root : DirectoryView D) (space : SpaceReport) : Client σ F D :=
  ((start storage).insert (.fileSystem ⟨⟨root⟩, space⟩)).2

theorem run_concat (client : Client σ F D) (requests : List Request) (last : Request) :
    client.run (requests ++ [last]) =
      ((client.run requests).1 ++ [((client.run requests).2.step last).1],
        ((client.run requests).2.step last).2) := by
  induction requests generalizing client with
  | nil => rfl
  | cons request rest ih => simp only [List.cons_append, run, ih]

end Client

end GuestStorage.Session
