import GuestStorage.Proofs.Projection.Refusal
import GuestStorage.Proofs.Tree.Attempts
import GuestStorage.Session.Client

namespace GuestStorage.Tree.Mount

variable {σ F D : Type} [Backing σ F D] {s : σ} {mount : Mount D}

def NamesOwnFile (s : σ) (mount : Mount D) (source target : String) : Prop :=
  ∃ home name other, mount.locate s source = .ok (home, name) ∧ (home.file? s name).isSome ∧
    mount.locate s target = .ok (other, name) ∧ other.path s = home.path s

def NamesOwnDirectory (s : σ) (mount : Mount D) (source target : String) : Prop :=
  ∃ names home name, normalize source = .ok names ∧ normalize target = .ok names ∧
    mount.locateAlong s names = .ok (home, name) ∧ (home.subdirectory? s name).isSome

theorem readOnly_of_locateAlong {names : List String} {home : DirectoryView D} {name : String}
    (found : mount.locateAlong s names = .ok (home, name)) : home.readOnly = mount.root.readOnly := by
  obtain ⟨front, -, reached⟩ := locateAlong_eq_ok.mp found
  exact DirectoryView.readOnly_of_descend? reached

theorem readOnly_of_locate {path : String} {home : DirectoryView D} {name : String}
    (found : mount.locate s path = .ok (home, name)) : home.readOnly = mount.root.readOnly := by
  obtain ⟨front, -, reached⟩ := locate_eq_ok.mp found
  exact DirectoryView.readOnly_of_descend? reached

theorem readOnly_of_openFile {path : String} {mode : Wire.OpenMode} {file : FileView F}
    (opened : mount.openFile s path mode = .ok file) : file.readOnly = mount.root.readOnly := by
  obtain ⟨dir, name, located, held⟩ := file?_of_openFile opened
  rw [DirectoryView.readOnly_of_file? held, readOnly_of_locate located]

section Projected

variable (projected : mount.root.readOnly = true)
include projected

theorem attempt_projected {fault : Error} {barred : DirectoryView D → String → Bool}
    {step : DirectoryView D → String → Except Error Unit × σ}
    (refuses : ∀ dir : DirectoryView D, dir.readOnly = true → ∀ name, ∃ e, step dir name = (.error e, s))
    (path : String) : ∃ e, mount.attempt s path fault barred step = (.error e, s) :=
  attempt_refused fun dir name located _ => refuses dir ((readOnly_of_locate located).trans projected) name

theorem createFile_projected (path : String) (size : Nat) :
    ∃ e, mount.createFile s path size = (.error e, s) := by
  rw [createFile_eq_attempt]
  refine attempt_projected projected (fun dir inner name => ?_) path
  rw [createSized, DirectoryView.createFile_of_readOnly inner]
  exact ⟨_, rfl⟩

theorem createDirectory_projected (path : String) :
    ∃ e, mount.createDirectory s path = (.error e, s) := by
  rw [createDirectory_eq_attempt]
  refine attempt_projected projected (fun dir inner name => ?_) path
  rw [DirectoryView.createSubdirectory_of_readOnly inner]
  exact ⟨_, rfl⟩

theorem deleteFile_projected (path : String) : ∃ e, mount.deleteFile s path = (.error e, s) := by
  rw [deleteFile_eq_attempt]
  refine attempt_projected projected (fun dir inner name => ?_) path
  rw [DirectoryView.deleteFile_of_readOnly inner]
  exact ⟨_, rfl⟩

theorem onSubdirectory_projected {step : σ → DirectoryView D → String → Bool × σ}
    (refuses : ∀ dir : DirectoryView D, dir.readOnly = true → ∀ name, step s dir name = (false, s))
    (path : String) : ∃ e, onSubdirectory step s mount path = (.error e, s) := by
  rw [onSubdirectory_eq_attempt]
  refine attempt_projected projected (fun dir inner name => ?_) path
  rw [refuses dir inner name]
  exact ⟨_, rfl⟩

theorem renameFile_projected (source target : String) :
    (∃ e, mount.renameFile s source target = (.error e, s)) ∨
      mount.renameFile s source target = (.ok (), s) ∧ mount.NamesOwnFile s source target := by
  unfold renameFile
  split
  · exact .inl ⟨_, rfl⟩
  · rename_i home name located
    have inner := (readOnly_of_locate located).trans projected
    split
    · exact .inl ⟨_, rfl⟩
    · rename_i file held
      have fileInner := (DirectoryView.readOnly_of_file? held).trans inner
      split
      · exact .inl ⟨_, rfl⟩
      · rename_i other newName targeted
        split
        · rename_i same
          simp only [samePlace, Bool.and_eq_true, beq_iff_eq] at same
          obtain ⟨paths, rfl⟩ := same
          exact .inr ⟨rfl, home, name, other, located, by simp [held], targeted, paths.symm⟩
        · left
          split
          · exact ⟨_, rfl⟩
          · split
            · rw [FileView.rename, if_pos fileInner]
              exact ⟨_, rfl⟩
            · rw [moveFile, DirectoryView.isWritable_of_readOnly inner]
              exact ⟨_, rfl⟩

theorem renameDirectory_projected (source target : String) :
    (∃ e, mount.renameDirectory s source target = (.error e, s)) ∨
      mount.renameDirectory s source target = (.ok (), s) ∧
        mount.NamesOwnDirectory s source target := by
  unfold renameDirectory
  split
  · exact .inl ⟨_, rfl⟩
  · exact .inl ⟨_, rfl⟩
  · rename_i sourceNames targetNames fromSource fromTarget
    split
    · exact .inl ⟨_, rfl⟩
    · split
      · exact .inl ⟨_, rfl⟩
      · rename_i home name located
        have inner := (readOnly_of_locateAlong located).trans projected
        split
        · exact .inl ⟨_, rfl⟩
        · rename_i dir held
          have dirInner := (DirectoryView.readOnly_of_subdirectory? held).trans inner
          split
          · exact .inl ⟨_, rfl⟩
          · split
            · rename_i same
              rw [beq_iff_eq] at same
              subst same
              exact .inr ⟨rfl, _, home, name, fromSource, fromTarget, located, by simp [held]⟩
            · left
              split
              · exact ⟨_, rfl⟩
              · split
                · rw [DirectoryView.rename, if_pos dirInner]
                  exact ⟨_, rfl⟩
                · rw [moveDirectory, DirectoryView.isWritable_of_readOnly inner]
                  exact ⟨_, rfl⟩

end Projected

end GuestStorage.Tree.Mount

namespace GuestStorage.Session

open GuestStorage.Tree

variable {σ F D : Type} [Backing σ F D]

def PathRequest.isChange : PathRequest → Bool
  | .createFile .. | .deleteFile _ | .createDirectory _ | .deleteDirectory _
  | .deleteDirectoryRecursively _ | .cleanDirectoryRecursively _ | .renameFile ..
  | .renameDirectory .. => true
  | .commit | .entryType _ | .freeSpace _ | .totalSpace _ | .openFile .. | .openDirectory .. => false

def FileRequest.isChange : FileRequest → Bool
  | .write .. | .setSize _ => true
  | .read .. | .flush | .getSize => false

def PathRequest.NamesOwnPath (s : σ) (mount : Mount D) : PathRequest → Prop
  | .renameFile source target => mount.NamesOwnFile s source target
  | .renameDirectory source target => mount.NamesOwnDirectory s source target
  | _ => False

def PathRequest.Declined (s : σ) (mount : Mount D) (request : PathRequest) (answer : Client.Answer) :
    Prop :=
  (∃ e, answer = .error (.refused e)) ∨ answer = .ok .done ∧ request.NamesOwnPath s mount

namespace OpenFile

variable {s : σ} {opened : OpenFile F}

theorem not_mayWrite_of_readOnly (projected : opened.file.readOnly = true) :
    opened.mayWrite s = false := by
  simp [mayWrite, FileView.isWritable, projected]

theorem write_projected (projected : opened.file.readOnly = true) (offset length : Int64)
    (data : Bytes) : ∃ e, opened.write s offset length data = (.error (.refused e), s) := by
  unfold write
  split
  · exact ⟨_, rfl⟩
  · rw [not_mayWrite_of_readOnly projected]
    exact ⟨_, rfl⟩

theorem setSize_projected (projected : opened.file.readOnly = true) (size : Nat) :
    opened.setSize s size = (.error .permissionDenied, s) := by
  simp [setSize, not_mayWrite_of_readOnly projected]

end OpenFile

namespace Client

omit [Backing σ F D] in
theorem afterChange_refused {client : Client σ F D} {step : Except Error Unit × σ}
    (refused : ∃ e, step = (.error e, client.storage)) :
    ∃ e, client.afterChange step = (.error (.refused e), client) := by
  obtain ⟨e, rfl⟩ := refused
  exact ⟨e, rfl⟩

theorem path_projected (client : Client σ F D) {fs : FileSystem D}
    (projected : fs.mount.root.readOnly = true) {request : PathRequest}
    (change : request.isChange = true) :
    (client.path fs request).2 = client ∧
      request.Declined client.storage fs.mount (client.path fs request).1 := by
  have declined : ∀ {step : Except Error Unit × σ}, (∃ e, step = (.error e, client.storage)) →
      (client.afterChange step).2 = client ∧
        request.Declined client.storage fs.mount (client.afterChange step).1 := by
    intro step refused
    obtain ⟨e, same⟩ := afterChange_refused refused
    rw [same]
    exact ⟨rfl, .inl ⟨e, rfl⟩⟩
  cases request with
  | commit | entryType | freeSpace | totalSpace | openFile | openDirectory => cases change
  | createFile path size => exact declined (Mount.createFile_projected projected path size)
  | deleteFile path => exact declined (Mount.deleteFile_projected projected path)
  | createDirectory path => exact declined (Mount.createDirectory_projected projected path)
  | deleteDirectory path =>
    exact declined (Mount.onSubdirectory_projected projected
      (fun _ inner => DirectoryView.deleteSubdirectory_of_readOnly inner) path)
  | deleteDirectoryRecursively path =>
    exact declined (Mount.onSubdirectory_projected projected
      (fun _ inner => DirectoryView.deleteTree_of_readOnly inner) path)
  | cleanDirectoryRecursively path =>
    exact declined (Mount.onSubdirectory_projected projected
      (fun _ inner => DirectoryView.cleanSubdirectory_of_readOnly inner) path)
  | renameFile source target =>
    rcases Mount.renameFile_projected (s := client.storage) projected source target with
      refused | ⟨done, own⟩
    · exact declined refused
    · simp only [path, done]
      exact ⟨rfl, .inr ⟨rfl, own⟩⟩
  | renameDirectory source target =>
    rcases Mount.renameDirectory_projected (s := client.storage) projected source target with
      refused | ⟨done, own⟩
    · exact declined refused
    · simp only [path, done]
      exact ⟨rfl, .inr ⟨rfl, own⟩⟩

theorem file_projected (client : Client σ F D) {opened : OpenFile F}
    (projected : opened.file.readOnly = true) {request : FileRequest}
    (change : request.isChange = true) :
    ∃ e, client.file opened request = (.error (.refused e), client) := by
  cases request with
  | read | flush | getSize => cases change
  | write offset length data =>
    obtain ⟨e, refused⟩ := OpenFile.write_projected (s := client.storage) projected offset length data
    simp only [file, refused]
    exact ⟨e, rfl⟩
  | setSize size =>
    exact afterChange_refused ⟨_, OpenFile.setSize_projected projected size⟩

end Client

end GuestStorage.Session
