import GuestStorage.Proofs.Memory.Build
import GuestStorage.Proofs.Memory.Follow
import GuestStorage.Proofs.Projection.Mount
import GuestStorage.Proofs.Projection.Navigation

namespace GuestStorage

def Error.isValidation : Error → Bool
  | .invalidArgument | .entityNotFound | .pathAlreadyExists => true
  | _ => false

namespace Tree

def masked {α : Type} : Except Error α → Except Error α
  | .error e => .error (if e.isValidation then e else .permissionDenied)
  | .ok _ => .error .permissionDenied

theorem masked_ofRefusal {α : Type} (writable : Bool) :
    (masked (.error (.ofRefusal writable)) : Except Error α) = .error .permissionDenied := by
  cases writable <;> rfl

variable {σ F D : Type} [Backing σ F D]

theorem masked_orRefused (s : σ) (dir : DirectoryView D) (done : Bool) :
    masked (Mount.orRefused s dir done) = .error .permissionDenied := by
  cases done
  · exact masked_ofRefusal _
  · rfl

namespace Mount

def project (mount : Mount D) : Mount D := ⟨mount.root.project⟩

variable (s : σ) (mount : Mount D)

theorem locateAlong_project (names : List String) :
    mount.project.locateAlong s names = (mount.locateAlong s names).map (Prod.map DirectoryView.project id) := by
  unfold locateAlong
  split
  · rfl
  · rw [project, DirectoryView.descend?_project]
    cases mount.root.descend? s names.dropLast <;> rfl

theorem locate_project (path : String) :
    mount.project.locate s path = (mount.locate s path).map (Prod.map DirectoryView.project id) := by
  unfold locate
  cases normalize path with
  | error e => rfl
  | ok names => exact mount.locateAlong_project s names

variable {s mount}

theorem isValidation_of_locateAlong {names : List String} {e : Error}
    (failed : mount.locateAlong s names = .error e) : e.isValidation = true := by
  unfold locateAlong at failed
  split at failed
  · cases failed
    rfl
  · split at failed
    · cases failed
      rfl
    · cases failed

theorem isValidation_of_normalize {path : String} {e : Error} (failed : normalize path = .error e) :
    e.isValidation = true := by
  unfold normalize at failed
  dsimp only at failed
  split at failed
  · cases failed
    rfl
  · cases failed

theorem isValidation_of_locate {path : String} {e : Error} (failed : mount.locate s path = .error e) :
    e.isValidation = true := by
  unfold locate at failed
  cases normal : normalize path with
  | error cause =>
    rw [normal] at failed
    cases failed
    exact isValidation_of_normalize normal
  | ok names =>
    rw [normal] at failed
    exact isValidation_of_locateAlong failed

theorem masked_of_isValidation {α : Type} {e : Error} (valid : e.isValidation = true) :
    (masked (.error e) : Except Error α) = .error e := by rw [masked, if_pos valid]

theorem attempt_masked {fault : Error} {barred bars : DirectoryView D → String → Bool}
    {step other : DirectoryView D → String → Except Error Unit × σ} (valid : fault.isValidation = true)
    (same : ∀ dir name, bars dir.project name = barred dir name)
    (masks : ∀ dir name, (other dir.project name).1 = masked (step dir name).1) (path : String) :
    (mount.project.attempt s path fault bars other).1 = masked (mount.attempt s path fault barred step).1 := by
  rw [attempt, attempt, locate_project]
  cases located : mount.locate s path with
  | error e => exact (masked_of_isValidation (isValidation_of_locate located)).symm
  | ok place =>
    obtain ⟨dir, name⟩ := place
    simp only [Except.map, Prod.map, id, same]
    split
    · exact (masked_of_isValidation valid).symm
    · exact masks dir name

theorem masked_createSized (dir : DirectoryView D) (name : String) (size : Nat) :
    masked (createSized s dir name size).1 = .error .permissionDenied := by
  unfold createSized
  split
  · exact masked_ofRefusal _
  · split
    · rfl
    · exact masked_ofRefusal _

variable (s mount)

theorem createFile_masked (path : String) (size : Nat) :
    (mount.project.createFile s path size).1 = masked (mount.createFile s path size).1 := by
  rw [createFile_eq_attempt, createFile_eq_attempt]
  refine attempt_masked rfl (fun dir name => DirectoryView.hasEntry_project ..) (fun dir name => ?_) path
  rw [masked_createSized, createSized, DirectoryView.createFile_project]
  exact congrArg (fun writable => Except.error (Error.ofRefusal writable)) (DirectoryView.isWritable_project ..)

theorem createDirectory_masked (path : String) :
    (mount.project.createDirectory s path).1 = masked (mount.createDirectory s path).1 := by
  rw [createDirectory_eq_attempt, createDirectory_eq_attempt]
  exact attempt_masked rfl (fun dir name => DirectoryView.hasEntry_project ..)
    (fun dir name => (masked_orRefused _ _ _).symm) path

theorem deleteFile_masked (path : String) :
    (mount.project.deleteFile s path).1 = masked (mount.deleteFile s path).1 := by
  rw [deleteFile_eq_attempt, deleteFile_eq_attempt]
  refine attempt_masked rfl (fun dir name => ?_) (fun dir name => (masked_orRefused _ _ _).symm) path
  rw [DirectoryView.file?_project, Option.isNone_map]

theorem onSubdirectory_masked {step : σ → DirectoryView D → String → Bool × σ}
    (refuses : ∀ dir : DirectoryView D, dir.readOnly = true → ∀ name, step s dir name = (false, s)) (path : String) :
    (onSubdirectory step s mount.project path).1 = masked (onSubdirectory step s mount path).1 := by
  rw [onSubdirectory_eq_attempt, onSubdirectory_eq_attempt]
  refine attempt_masked rfl (fun dir name => ?_) (fun dir name => ?_) path
  · rw [DirectoryView.subdirectory?_project, Option.isNone_map]
  · rw [refuses dir.project rfl]
    exact (masked_orRefused _ _ _).symm

theorem masked_moveFile (file : FileView F) (oldHome newHome : DirectoryView D) (name newName : String) :
    masked (moveFile s file oldHome name newHome newName).1 = .error .permissionDenied := by
  unfold moveFile
  split
  · rfl
  · split
    · exact masked_ofRefusal _
    · dsimp only
      split
      · rfl
      · split
        · rfl
        · split <;> rfl

theorem masked_moveDirectory (dir oldHome newHome : DirectoryView D) (name newName : String) :
    masked (moveDirectory s dir oldHome name newHome newName).1 = .error .permissionDenied := by
  unfold moveDirectory
  split
  · rfl
  · split
    · exact masked_ofRefusal _
    · split
      · rfl
      · split <;> rfl

theorem renameFile_masked {source target : String} (other : ¬ mount.NamesOwnFile s source target) :
    (mount.project.renameFile s source target).1 = masked (mount.renameFile s source target).1 := by
  rw [renameFile, renameFile, locate_project, locate_project]
  cases located : mount.locate s source with
  | error e => exact (masked_of_isValidation (isValidation_of_locate located)).symm
  | ok place =>
    obtain ⟨oldHome, name⟩ := place
    simp only [Except.map, Prod.map, id, DirectoryView.file?_project]
    cases held : oldHome.file? s name with
    | none => rfl
    | some file =>
      cases targeted : mount.locate s target with
      | error e => exact (masked_of_isValidation (isValidation_of_locate targeted)).symm
      | ok goal =>
        obtain ⟨newHome, newName⟩ := goal
        have places : samePlace s oldHome.project newHome.project = samePlace s oldHome newHome := rfl
        simp only [Option.map_some, DirectoryView.hasEntry_project, places]
        split
        · rename_i same
          simp only [samePlace, Bool.and_eq_true, beq_iff_eq] at same
          obtain ⟨paths, rfl⟩ := same
          exact absurd ⟨oldHome, name, newHome, located, by simp [held], targeted, paths.symm⟩ other
        · split
          · rfl
          · split
            · simp only [FileView.rename_project, FileView.isWritable_project]
              split
              · rfl
              · exact (masked_ofRefusal _).symm
            · exact (masked_moveFile s file oldHome newHome name newName).symm

theorem renameDirectory_masked {source target : String} (other : ¬ mount.NamesOwnDirectory s source target) :
    (mount.project.renameDirectory s source target).1 = masked (mount.renameDirectory s source target).1 := by
  unfold renameDirectory
  split
  · rename_i e failed
    exact (masked_of_isValidation (isValidation_of_normalize failed)).symm
  · rename_i e failed
    exact (masked_of_isValidation (isValidation_of_normalize failed)).symm
  · rename_i names targetNames normal normal'
    split
    · rfl
    · rw [locateAlong_project, locateAlong_project]
      cases located : mount.locateAlong s names with
      | error e => exact (masked_of_isValidation (isValidation_of_locateAlong located)).symm
      | ok place =>
        obtain ⟨oldHome, name⟩ := place
        simp only [Except.map, Prod.map, id, DirectoryView.subdirectory?_project]
        cases held : oldHome.subdirectory? s name with
        | none => rfl
        | some dir =>
          cases targeted : mount.locateAlong s targetNames with
          | error e => exact (masked_of_isValidation (isValidation_of_locateAlong targeted)).symm
          | ok goal =>
            obtain ⟨newHome, newName⟩ := goal
            have places : samePlace s oldHome.project newHome.project = samePlace s oldHome newHome := rfl
            simp only [Option.map_some, DirectoryView.hasEntry_project, places]
            split
            · rename_i same
              obtain rfl := beq_iff_eq.mp same
              exact absurd ⟨names, oldHome, name, normal, normal', located, by simp [held]⟩ other
            · split
              · rfl
              · split
                · simp only [DirectoryView.rename_project, DirectoryView.isWritable_project]
                  split
                  · rfl
                  · exact (masked_ofRefusal _).symm
                · exact (masked_moveDirectory s dir oldHome newHome name newName).symm

theorem renameFile_own {source target : String} (same : normalize source = normalize target) :
    (mount.project.renameFile s source target).1 = (mount.renameFile s source target).1 := by
  have sameHome : mount.locate s target = mount.locate s source := by rw [locate, locate, same]
  rw [renameFile, renameFile, locate_project, locate_project, sameHome]
  cases mount.locate s source with
  | error e => rfl
  | ok place =>
    obtain ⟨home, name⟩ := place
    simp only [Except.map, Prod.map, id, DirectoryView.file?_project, samePlace, beq_self_eq_true, Bool.and_self,
      if_true]
    cases home.file? s name <;> rfl

theorem renameDirectory_own {source target : String} (same : normalize source = normalize target) :
    (mount.project.renameDirectory s source target).1 = (mount.renameDirectory s source target).1 := by
  rw [renameDirectory, renameDirectory, ← same]
  cases normalize source with
  | error e => rfl
  | ok names =>
    simp only [bne_self_eq_false, Bool.and_false, Bool.false_eq_true, if_false, beq_self_eq_true, if_true]
    rw [locateAlong_project]
    cases mount.locateAlong s names with
    | error e => rfl
    | ok place =>
      obtain ⟨home, name⟩ := place
      simp only [Except.map, Prod.map, id, DirectoryView.subdirectory?_project]
      cases home.subdirectory? s name <;> rfl

theorem entryType_project (path : String) : mount.project.entryType s path = mount.entryType s path := by
  unfold entryType
  split
  · rfl
  · rfl
  · rw [locateAlong_project]
    cases mount.locateAlong s _ with
    | error e => rfl
    | ok place =>
      obtain ⟨dir, name⟩ := place
      simp only [Except.map, Prod.map, id, DirectoryView.file?_project, DirectoryView.subdirectory?_project,
        Option.isSome_map]

variable {s mount} in
theorem exists_entryType {path : String} {names : List String} {home : DirectoryView D} {name : String}
    (normal : normalize path = .ok names) (located : mount.locateAlong s names = .ok (home, name))
    (present : home.hasEntry s name = true) : ∃ kind, mount.entryType s path = .ok kind := by
  rw [entryType, normal]
  cases names with
  | nil => exact ⟨_, rfl⟩
  | cons first rest =>
    simp only [located]
    split
    · exact ⟨_, rfl⟩
    · rename_i noFile
      rw [DirectoryView.hasEntry, Bool.or_eq_true] at present
      rw [if_pos (present.resolve_left noFile)]
      exact ⟨_, rfl⟩

theorem openDirectory_project (path : String) :
    mount.project.openDirectory s path = (mount.openDirectory s path).map DirectoryView.project := by
  unfold openDirectory
  split
  · rfl
  · rw [project, DirectoryView.descend?_project]
    cases mount.root.descend? s _ <;> rfl

theorem openFile_project {path : String} {mode : Wire.OpenMode} (reads : mode.needsWrite = false) :
    mount.project.openFile s path mode = (mount.openFile s path mode).map FileView.project := by
  rw [openFile, openFile, locate_project]
  cases mount.locate s path with
  | error e => rfl
  | ok place =>
    obtain ⟨dir, name⟩ := place
    simp only [Except.map, Prod.map, id, DirectoryView.file?_project]
    cases dir.file? s name with
    | none => rfl
    | some file =>
      have readable : file.project.isReadable s = file.isReadable s := rfl
      simp only [Option.map_some, readable, reads, Bool.false_and]
      split
      · rfl
      · rfl

theorem openFile_masked {path : String} {mode : Wire.OpenMode} (writes : mode.needsWrite = true) :
    mount.project.openFile s path mode = masked (mount.openFile s path mode) := by
  rw [openFile, openFile, locate_project]
  cases located : mount.locate s path with
  | error e => exact (masked_of_isValidation (isValidation_of_locate located)).symm
  | ok place =>
    obtain ⟨dir, name⟩ := place
    simp only [Except.map, Prod.map, id, DirectoryView.file?_project]
    cases dir.file? s name with
    | none => rfl
    | some file =>
      simp only [Option.map_some, writes, FileView.isWritable_project, Bool.not_false, Bool.and_self, if_true, ite_self]
      split
      · rfl
      · split <;> rfl

end Mount

end Tree

namespace Session

open Memory GuestStorage.Tree

section Requests

variable {σ F D : Type} [Backing σ F D]

def FileSystem.project (fs : FileSystem D) : FileSystem D := { fs with mount := fs.mount.project }

def OpenFile.project (opened : OpenFile F) : OpenFile F := { opened with file := opened.file.project }

theorem Listing.ofDirectory_project (s : σ) (dir : DirectoryView D) (filter : UInt32) :
    ofDirectory s dir.project filter = ofDirectory s dir filter := by
  have files : fileEntries s dir.project = fileEntries s dir := by
    rw [fileEntries, fileEntries, dir.files_project, List.map_map]
    rfl
  have directories : directoryEntries s dir.project = directoryEntries s dir := by
    rw [directoryEntries, directoryEntries, dir.subdirectories_project, List.map_map]
    refine List.map_congr_left fun sub _ => ?_
    rw [Function.comp, sub.size_project]
    rfl
  rw [ofDirectory, ofDirectory, files, directories]

namespace FileSystem

variable (s : σ) (fs : FileSystem D)

theorem openDirectory_project (path : String) (filter : UInt32) :
    fs.project.openDirectory s path filter = fs.openDirectory s path filter := by
  rw [openDirectory, openDirectory, project, Mount.openDirectory_project]
  cases fs.mount.openDirectory s path with
  | error e => rfl
  | ok dir => exact congrArg Except.ok (Listing.ofDirectory_project s dir filter)

theorem openFile_project {path : String} {raw : UInt32}
    (reads : decodeArgument raw.toNat = .ok Wire.OpenMode.read) :
    fs.project.openFile s path raw = (fs.openFile s path raw).map OpenFile.project := by
  have viewed : fs.mount.project.openFile s path .read = (fs.mount.openFile s path .read).map FileView.project :=
    fs.mount.openFile_project s rfl
  rw [openFile, openFile, reads]
  simp only [bind, Except.bind, project, viewed]
  cases fs.mount.openFile s path .read <;> rfl

theorem openFile_masked {path : String} {raw : UInt32}
    (writes : decodeArgument raw.toNat ≠ .ok Wire.OpenMode.read) :
    fs.project.openFile s path raw = masked (fs.openFile s path raw) := by
  rw [openFile, openFile]
  cases decoded : (decodeArgument raw.toNat : Except Error Wire.OpenMode) with
  | error e =>
    have invalid : e = .invalidArgument := by
      unfold decodeArgument at decoded
      cases found : (Wire.ofRaw raw.toNat : Except Wire.DecodeError Wire.OpenMode) with
      | error cause =>
        rw [found] at decoded
        cases decoded
        rfl
      | ok mode =>
        rw [found] at decoded
        cases decoded
    rw [invalid]
    rfl
  | ok mode =>
    have needs : mode.needsWrite = true := by
      cases mode with
      | read => exact absurd decoded writes
      | write | readWrite | append | writeAppend => rfl
    simp only [bind, Except.bind, project, Mount.openFile_masked s fs.mount needs]
    cases fs.mount.openFile s path mode <;> rfl

end FileSystem

/-- Requests that a projection makes no difference to: what only reads, and renames of an entry to its own
    path. -/
def PathRequest.Passes (s : σ) (mount : Mount D) : PathRequest → Prop
  | .entryType _ | .openDirectory .. | .commit | .freeSpace _ | .totalSpace _ => True
  | .openFile _ mode => decodeArgument mode.toNat = .ok Wire.OpenMode.read
  | .renameFile source target | .renameDirectory source target =>
    ∃ names kind, Mount.normalize source = .ok names ∧ Mount.normalize target = .ok names ∧
      mount.entryType s source = .ok kind
  | .createFile .. | .deleteFile _ | .createDirectory _ | .deleteDirectory _ | .deleteDirectoryRecursively _
  | .cleanDirectoryRecursively _ => False

namespace Client

def maskedAnswer : Answer → Answer
  | .error (.refused e) => refuse (if e.isValidation then e else .permissionDenied)
  | .ok _ | .error (.violated _) => refuse .permissionDenied

theorem maskedAnswer_ofExcept {α : Type} (reply : α → Reply) (result : Except Error α) :
    maskedAnswer (ofExcept reply result) = ofExcept reply (masked result) := by
  cases result <;> rfl

variable (client : Client σ F D) (fs : FileSystem D)

theorem path_project {request : PathRequest} (passes : request.Passes client.storage fs.mount) :
    (client.path fs.project request).1 = (client.path fs request).1 := by
  cases request with
  | entryType path => exact congrArg (ofExcept _) (fs.mount.entryType_project client.storage path)
  | commit | freeSpace | totalSpace => rfl
  | openDirectory path filter =>
    rw [Client.path, Client.path, fs.openDirectory_project]
  | openFile path raw =>
    rw [Client.path, Client.path, fs.openFile_project client.storage passes]
    cases fs.openFile client.storage path raw <;> rfl
  | renameFile source target =>
    obtain ⟨names, kind, normal, normal', -⟩ := passes
    exact congrArg (ofExcept _) (Mount.renameFile_own client.storage fs.mount (normal.trans normal'.symm))
  | renameDirectory source target =>
    obtain ⟨names, kind, normal, normal', -⟩ := passes
    exact congrArg (ofExcept _) (Mount.renameDirectory_own client.storage fs.mount (normal.trans normal'.symm))
  | createFile | deleteFile | createDirectory | deleteDirectory | deleteDirectoryRecursively
  | cleanDirectoryRecursively => exact passes.elim

theorem path_masked {request : PathRequest} (fails : ¬ request.Passes client.storage fs.mount)
    (moved : ¬ request.NamesOwnPath client.storage fs.mount) :
    (client.path fs.project request).1 = maskedAnswer (client.path fs request).1 := by
  have change {whole projected : Except Error Unit × σ} (same : projected.1 = masked whole.1) :
      (client.afterChange projected).1 = maskedAnswer (client.afterChange whole).1 := by
    rw [afterChange, afterChange, maskedAnswer_ofExcept, same]
  cases request with
  | entryType | commit | freeSpace | totalSpace | openDirectory => exact absurd trivial fails
  | openFile path raw =>
    rw [Client.path, Client.path, fs.openFile_masked client.storage fails]
    cases fs.openFile client.storage path raw <;> rfl
  | createFile path size => exact change (fs.mount.createFile_masked client.storage path size)
  | deleteFile path => exact change (fs.mount.deleteFile_masked client.storage path)
  | createDirectory path => exact change (fs.mount.createDirectory_masked client.storage path)
  | deleteDirectory path =>
    exact change (fs.mount.onSubdirectory_masked client.storage
      (fun _ inner => DirectoryView.deleteSubdirectory_of_readOnly inner) path)
  | deleteDirectoryRecursively path =>
    exact change (fs.mount.onSubdirectory_masked client.storage
      (fun _ inner => DirectoryView.deleteTree_of_readOnly inner) path)
  | cleanDirectoryRecursively path =>
    exact change (fs.mount.onSubdirectory_masked client.storage
      (fun _ inner => DirectoryView.cleanSubdirectory_of_readOnly inner) path)
  | renameFile source target => exact change (fs.mount.renameFile_masked client.storage moved)
  | renameDirectory source target => exact change (fs.mount.renameDirectory_masked client.storage moved)

end Client

end Requests

theorem passes_of_namesOwnPath {s : Store} (sound : s.Sound) {mount : Mount DirectoryId} {request : PathRequest}
    (own : request.NamesOwnPath s mount) : request.Passes s mount := by
  cases request with
  | renameFile source target =>
    have same := plainNames_eq_of_own (t := s) sound own
    obtain ⟨home, name, other, located, present, located', -⟩ := own
    obtain ⟨front, normal, reached⟩ := Mount.locate_eq_ok.mp located
    obtain ⟨back, normal', -⟩ := Mount.locate_eq_ok.mp located'
    have also : front ++ [name] = back ++ [name] := by rw [(normalize_ok normal).1, (normalize_ok normal').1, same]
    obtain ⟨kind, told⟩ := Mount.exists_entryType normal (Mount.locateAlong_eq_ok.mpr ⟨front, rfl, reached⟩)
      (by simp [DirectoryView.hasEntry, present])
    exact ⟨_, kind, normal, also ▸ normal', told⟩
  | renameDirectory source target =>
    obtain ⟨names, home, name, normal, normal', located, present⟩ := own
    obtain ⟨kind, told⟩ := Mount.exists_entryType normal located (by simp [DirectoryView.hasEntry, present])
    exact ⟨names, kind, normal, normal', told⟩
  | createFile | deleteFile | createDirectory | deleteDirectory | deleteDirectoryRecursively
  | cleanDirectoryRecursively | commit | entryType | freeSpace | totalSpace | openFile | openDirectory =>
    exact own.elim

/-- A mount and its projection tell alike what is wrong with a request, and answer alike what changes nothing: they
    open the same listings, and the same files for reading. Whatever else is asked of the projection, and whatever
    the mount itself makes of it, is a missing permission. -/
theorem projection_validates {client : Client Store FileId DirectoryId} (sound : client.storage.Sound)
    (fs : FileSystem DirectoryId) :
    (∀ request : PathRequest,
      (∀ e : Error, e.isValidation = true → (client.path fs request).1 = .error (.refused e) →
        (client.path fs.project request).1 = .error (.refused e)) ∧
      (request.Passes client.storage fs.mount → (client.path fs.project request).1 = (client.path fs request).1) ∧
      (¬ request.Passes client.storage fs.mount →
        (∀ e : Error, e.isValidation = true → (client.path fs request).1 ≠ .error (.refused e)) →
          (client.path fs.project request).1 = .error (.refused .permissionDenied))) ∧
    (∀ path filter, fs.project.openDirectory client.storage path filter = fs.openDirectory client.storage path filter) ∧
    ∀ path raw, decodeArgument raw.toNat = .ok Wire.OpenMode.read →
      fs.project.openFile client.storage path raw = (fs.openFile client.storage path raw).map OpenFile.project := by
  refine ⟨fun request => ?_, fs.openDirectory_project client.storage,
    fun path raw reads => fs.openFile_project client.storage reads⟩
  by_cases passes : request.Passes client.storage fs.mount
  · have same := client.path_project fs passes
    exact ⟨fun e _ told => same.trans told, fun _ => same, fun fails => absurd passes fails⟩
  · have masks := client.path_masked fs passes (mt (passes_of_namesOwnPath sound) passes)
    refine ⟨fun e valid told => ?_, fun also => absurd also passes, fun _ invalid => ?_⟩
    · rw [masks, told, Client.maskedAnswer, if_pos valid]
      rfl
    · rw [masks]
      cases answer : (client.path fs request).1 with
      | ok reply => rfl
      | error failure =>
        cases failure with
        | violated violation => rfl
        | refused e =>
          have other : ¬ e.isValidation = true := fun valid => invalid e valid answer
          rw [Client.maskedAnswer, if_neg other]
          rfl

def alcove : Client Store FileId DirectoryId :=
  Client.start (Store.empty.plant "root" false
    [.file "note" [1] false, .directory "shelf" [.file "book" [2, 3] false] true]).2

def alcoveMount : FileSystem DirectoryId := ⟨⟨.direct ⟨0⟩⟩, ⟨.nandUser, 0, 0⟩⟩

theorem alcove_validates :
    (alcove.path alcoveMount.project (.createFile "shelf/book" 4)).1 = .error (.refused .pathAlreadyExists) ∧
      (alcove.path alcoveMount.project (.renameFile "shelf/book" "./shelf//book")).1 = .ok .done ∧
      (alcove.path alcoveMount.project (.deleteFile "note")).1 = .error (.refused .permissionDenied) := by
  have sound : alcove.storage.Sound := Store.plant_sound Store.empty_sound "root" false _
  have validates := (projection_validates sound alcoveMount).1
  have deleted : (alcove.path alcoveMount (.deleteFile "note")).1 = .ok .done := by decide +kernel
  refine ⟨(validates (.createFile "shelf/book" 4)).1 .pathAlreadyExists rfl ?_,
    (validates (.renameFile "shelf/book" "./shelf//book")).2.1 ⟨["shelf", "book"], .file, ?_, ?_, ?_⟩ |>.trans ?_,
    (validates (.deleteFile "note")).2.2 id fun _ _ refused => nomatch deleted.symm.trans refused⟩
  · decide +kernel
  · decide +kernel
  · decide +kernel
  · decide +kernel
  · decide +kernel

end Session

end GuestStorage
