import GuestStorage.Proofs.Host.Walks
import GuestStorage.Proofs.Tree.Attempts
import GuestStorage.Session.Client

namespace GuestStorage.Host.Disk.Twins

open GuestStorage.Tree

variable {root : Root} {place spot : Location} {disk other : Disk} {mount : Mount DirectoryNode}

section Changing

variable (twins : Twins root place spot disk other) (placed : DirectoryPlaced disk root place mount.root)
include twins placed

theorem attempt_agree {fault : Error} {barred bars : DirectoryView DirectoryNode → String → Bool}
    {step twin : DirectoryView DirectoryNode → String → Except Error Unit × Disk}
    (same : ∀ dir, DirectoryPlaced disk root place dir → ∀ name, bars dir name = barred dir name)
    (steps : ∀ dir, DirectoryPlaced disk root place dir → ∀ name,
      Agree Calm place spot disk other (step dir name) (twin dir name)) (text : String) :
    Agree Calm place spot disk other (mount.attempt disk text fault barred step)
      (mount.attempt other text fault bars twin) := by
  obtain ⟨alike, reaches⟩ := twins.locate_eq placed text
  rw [Mount.attempt, Mount.attempt, alike]
  cases located : mount.locate disk text with
  | error e => exact twins.still _
  | ok spot =>
    obtain ⟨dir, name⟩ := spot
    have here := reaches dir name located
    simp only [same dir here]
    split
    · exact twins.still _
    · exact steps dir here name

omit placed in
theorem createSized_agree {dir : DirectoryView DirectoryNode} (here : DirectoryPlaced disk root place dir)
    (name : String) (size : Nat) :
    Agree Calm place spot disk other (Mount.createSized disk dir name size)
      (Mount.createSized other dir name size) := by
  obtain ⟨agree, made⟩ := twins.createFile_agree here name
  obtain ⟨created, middle, middle', left, right, alike⟩ := agree.split
  have onward := twins.onward alike
  have still := here.calm alike.left
  simp only [Mount.createSized, left, right]
  cases created with
  | none =>
    simp only [onward.directory_isWritable_eq still]
    exact ⟨rfl, alike⟩
  | some file =>
    have filePlaced := made file (by rw [left])
    rw [left] at filePlaced
    obtain ⟨resized, tame⟩ := onward.file_resize_agree (onward.file_tame filePlaced) size
    obtain ⟨done, later, later', left, right, further⟩ := resized.split
    rw [left, right] at tame
    have last := onward.onward further
    simp only [left, right]
    refine .onward alike ?_
    cases done with
    | true => exact ⟨rfl, further⟩
    | false =>
      simp only [tame.isWritable_eq]
      exact .onward further ((last.deleteFile_agree (still.calm further.left) name).map fun _ => _)

omit placed in
theorem told_agree {dir : DirectoryView DirectoryNode} (here : DirectoryPlaced disk root place dir)
    {left right : Bool × Disk} (agree : Agree Calm place spot disk other left right) :
    Agree Calm place spot disk other (Mount.told dir left) (Mount.told dir right) := by
  have onward := twins.onward agree.alike
  have still := here.calm agree.alike.left
  refine ⟨?_, agree.alike⟩
  simp only [Mount.told, Mount.orRefused, agree.answer, onward.directory_isWritable_eq still]

theorem mount_createFile_agree (text : String) (size : Nat) :
    Agree Calm place spot disk other (mount.createFile disk text size)
      (mount.createFile other text size) := by
  rw [Mount.createFile_eq_attempt, Mount.createFile_eq_attempt]
  exact twins.attempt_agree placed (fun _ here name => twins.hasEntry_eq here name)
    (fun _ here name => twins.createSized_agree here name size) text

theorem mount_createDirectory_agree (text : String) :
    Agree Calm place spot disk other (mount.createDirectory disk text)
      (mount.createDirectory other text) := by
  rw [Mount.createDirectory_eq_attempt, Mount.createDirectory_eq_attempt]
  exact twins.attempt_agree placed (fun _ here name => twins.hasEntry_eq here name)
    (fun _ here name => twins.told_agree here ((twins.createSubdirectory_agree here name).1.map Option.isSome)) text

theorem mount_deleteFile_agree (text : String) :
    Agree Calm place spot disk other (mount.deleteFile disk text) (mount.deleteFile other text) := by
  rw [Mount.deleteFile_eq_attempt, Mount.deleteFile_eq_attempt]
  exact twins.attempt_agree placed (fun _ here name => congrArg Option.isNone (twins.file?_eq here name))
    (fun _ here name => twins.told_agree here (twins.deleteFile_agree here name)) text

theorem onSubdirectory_agree
    {step : Disk → DirectoryView DirectoryNode → String → Bool × Disk}
    (steps : ∀ dir, DirectoryPlaced disk root place dir → ∀ name,
      Agree Calm place spot disk other (step disk dir name) (step other dir name)) (text : String) :
    Agree Calm place spot disk other (Mount.onSubdirectory step disk mount text)
      (Mount.onSubdirectory step other mount text) := by
  rw [Mount.onSubdirectory_eq_attempt, Mount.onSubdirectory_eq_attempt]
  exact twins.attempt_agree placed (fun _ here name => congrArg Option.isNone (twins.subdirectory?_eq here name))
    (fun dir here name => twins.told_agree here (steps dir here name)) text

omit placed in
theorem moveFile_agree {file : FileView FileNode} {oldHome newHome : DirectoryView DirectoryNode}
    (filePlaced : FilePlaced disk root place file) (fromHome : DirectoryPlaced disk root place oldHome)
    (toHome : DirectoryPlaced disk root place newHome) (name newName : String) :
    Agree Calm place spot disk other (Mount.moveFile disk file oldHome name newHome newName)
      (Mount.moveFile other file oldHome name newHome newName) := by
  simp only [Mount.moveFile, twins.directory_isWritable_eq fromHome]
  -- every step leaves two disks that agree, on which the next is taken
  split
  · exact twins.still _
  · obtain ⟨agree, made⟩ := twins.createFile_agree toHome newName
    obtain ⟨created, middle, middle', left, right, alike⟩ := agree.split
    have onward := twins.onward alike
    have still := toHome.calm alike.left
    simp only [left, right]
    cases created with
    | none =>
      simp only [onward.directory_isWritable_eq still]
      exact ⟨rfl, alike⟩
    | some target =>
      have targetPlaced := made target (by rw [left])
      rw [left] at targetPlaced
      have data := (onward.file_tame (filePlaced.calm alike.left)).readAll_eq
      simp only [data]
      obtain ⟨resized, tame⟩ :=
        onward.file_resize_agree (onward.file_tame targetPlaced) (file.readAll middle).length
      obtain ⟨done, later, later', left, right, further⟩ := resized.split
      rw [left, right] at tame
      have again := onward.onward further
      have stillLater := still.calm further.left
      simp only [left, right]
      refine .onward alike ?_
      cases done with
      | false => exact .onward further ((again.deleteFile_agree stillLater newName).map fun _ => _)
      | true =>
        refine .onward further ?_
        obtain ⟨wrote, _⟩ := again.file_write_agree tame 0 (file.readAll middle)
        obtain ⟨count, last, last', left, right, final⟩ := wrote.split
        have written := again.onward final
        have stillLast := stillLater.calm final.left
        simp only [left, right]
        refine .onward final ?_
        split
        · exact (written.deleteFile_agree stillLast newName).map fun _ => _
        · have fromLast := ((fromHome.calm alike.left).calm further.left).calm final.left
          obtain ⟨deleted, end_, end', left, right, closing⟩ :=
            (written.deleteFile_agree fromLast name).split
          simp only [left, right]
          refine .onward closing ?_
          cases deleted with
          | true => exact (written.onward closing).still _
          | false =>
            exact ((written.onward closing).deleteFile_agree (stillLast.calm closing.left) newName).map
              fun _ => _

theorem mount_renameFile_agree (source target : String) :
    Agree Calm place spot disk other (mount.renameFile disk source target)
      (mount.renameFile other source target) := by
  obtain ⟨same, reaches⟩ := twins.locate_eq placed source
  simp only [Mount.renameFile, same]
  cases located : mount.locate disk source with
  | error e => exact twins.still _
  | ok spot =>
    obtain ⟨oldHome, name⟩ := spot
    have fromHome := reaches oldHome name located
    simp only [twins.file?_eq fromHome]
    cases found : oldHome.file? disk name with
    | none => exact twins.still _
    | some file =>
      obtain ⟨same, reaches⟩ := twins.locate_eq placed target
      simp only [same]
      cases targeted : mount.locate disk target with
      | error e => exact twins.still _
      | ok spot =>
        obtain ⟨newHome, newName⟩ := spot
        have toHome := reaches newHome newName targeted
        have filePlaced := twins.placed_of_file? fromHome found
        have places : Mount.samePlace other oldHome newHome = Mount.samePlace disk oldHome newHome := rfl
        simp only [places, twins.hasEntry_eq toHome]
        split
        · exact twins.still _
        · split
          · exact twins.still _
          · split
            · obtain ⟨renamed, middle, middle', left, right, alike⟩ :=
                (twins.file_rename_agree fromHome found newName).split
              simp only [left, right]
              cases renamed with
              | some file => exact ⟨rfl, alike⟩
              | none =>
                have onward := twins.onward alike
                have tame := onward.file_tame (filePlaced.calm alike.left)
                simp only [tame.isWritable_eq]
                exact ⟨rfl, alike⟩
            · exact twins.moveFile_agree filePlaced fromHome toHome name newName

omit placed in
theorem moveDirectory_agree {dir oldHome newHome : DirectoryView DirectoryNode}
    (dirPlaced : DirectoryPlaced disk root place dir) (fromHome : DirectoryPlaced disk root place oldHome)
    (toHome : DirectoryPlaced disk root place newHome) (name newName : String) :
    Agree Calm place spot disk other (Mount.moveDirectory disk dir oldHome name newHome newName)
      (Mount.moveDirectory other dir oldHome name newHome newName) := by
  simp only [Mount.moveDirectory, twins.directory_isWritable_eq fromHome]
  split
  · exact twins.still _
  · obtain ⟨agree, made⟩ := twins.createSubdirectory_agree toHome newName
    obtain ⟨created, middle, middle', left, right, alike⟩ := agree.split
    have onward := twins.onward alike
    have still := toHome.calm alike.left
    simp only [left, right]
    cases created with
    | none =>
      simp only [onward.directory_isWritable_eq still]
      exact ⟨rfl, alike⟩
    | some target =>
      have targetPlaced := made target (by rw [left])
      rw [left] at targetPlaced
      obtain ⟨copied, later, later', left, right, further⟩ :=
        (onward.copyTree_agree (dirPlaced.calm alike.left) targetPlaced).split
      have again := onward.onward further
      have stillLater := still.calm further.left
      simp only [left, right]
      refine .onward alike (.onward further ?_)
      cases copied with
      | false => exact (again.deleteTree_agree stillLater newName).map fun _ => _
      | true =>
        have fromLater := (fromHome.calm alike.left).calm further.left
        obtain ⟨removed, last, last', left, right, final⟩ :=
          (again.deleteTree_agree fromLater name).split
        have closing := again.onward final
        have fromLast := fromLater.calm final.left
        simp only [left, right]
        refine .onward final ?_
        cases removed with
        | true => exact closing.still _
        | false =>
          have compared : (oldHome.subdirectory? last name).any (·.sameShape last' target) =
              (oldHome.subdirectory? last name).any (·.sameShape last target) := by
            cases found : oldHome.subdirectory? last name with
            | none => rfl
            | some rest =>
              exact closing.sameShape_eq (closing.placed_of_subdirectory? fromLast found)
                ((targetPlaced.calm further.left).calm final.left)
          simp only [closing.subdirectory?_eq fromLast, compared]
          split
          · exact (closing.deleteTree_agree (stillLater.calm final.left) newName).map fun _ => _
          · exact closing.still _

theorem mount_renameDirectory_agree (source target : String) :
    Agree Keeps place spot disk other (mount.renameDirectory disk source target)
      (mount.renameDirectory other source target) := by
  simp only [Mount.renameDirectory]
  cases Mount.normalize source with
  | error e => exact (twins.still _).keeps
  | ok sourceNames =>
    cases Mount.normalize target with
    | error e => exact (twins.still _).keeps
    | ok targetNames =>
      dsimp only
      split
      · exact (twins.still _).keeps
      · obtain ⟨same, reaches⟩ := twins.locateAlong_eq placed sourceNames
        simp only [same]
        cases located : mount.locateAlong disk sourceNames with
        | error e => exact (twins.still _).keeps
        | ok spot =>
          obtain ⟨oldHome, name⟩ := spot
          have fromHome := reaches oldHome name located
          simp only [twins.subdirectory?_eq fromHome]
          cases found : oldHome.subdirectory? disk name with
          | none => exact (twins.still _).keeps
          | some dir =>
            obtain ⟨same, reaches⟩ := twins.locateAlong_eq placed targetNames
            simp only [same]
            cases targeted : mount.locateAlong disk targetNames with
            | error e => exact (twins.still _).keeps
            | ok spot =>
              obtain ⟨newHome, newName⟩ := spot
              have toHome := reaches newHome newName targeted
              have dirPlaced := twins.placed_of_subdirectory? fromHome found
              have places : Mount.samePlace other oldHome newHome =
                Mount.samePlace disk oldHome newHome := rfl
              simp only [places, twins.hasEntry_eq toHome]
              split
              · exact (twins.still _).keeps
              · split
                · exact (twins.still _).keeps
                · split
                  · obtain ⟨renamed, middle, middle', left, right, alike⟩ :=
                      (twins.directory_rename_agree dirPlaced newName).split
                    simp only [left, right]
                    cases renamed with
                    | some dir => exact ⟨rfl, alike⟩
                    | none =>
                      have unmoved := rename_of_none (congrArg Prod.fst left)
                      have unmoved' := rename_of_none (congrArg Prod.fst right)
                      rw [left] at unmoved
                      rw [right] at unmoved'
                      simp only at unmoved unmoved'
                      simp only [unmoved, unmoved', twins.directory_isWritable_eq dirPlaced]
                      exact (twins.still _).keeps
                  · exact (twins.moveDirectory_agree dirPlaced fromHome toHome name newName).keeps

end Changing

end GuestStorage.Host.Disk.Twins
