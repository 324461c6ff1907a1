import GuestStorage.Proofs.Memory.Accepting
import GuestStorage.Proofs.Memory.Build
import GuestStorage.Proofs.Memory.Clear
import GuestStorage.Proofs.Tree.Attempts

namespace GuestStorage.Memory

open GuestStorage.Tree Node Store

inductive Change where
  | createFile (size : Nat)
  | createDirectory
  | deleteFile
  | deleteDirectory
  | clean
  deriving DecidableEq

namespace Change

def perform (s : Store) (mount : Mount DirectoryId) (path : String) : Change → Except Error Unit × Store
  | createFile size => mount.createFile s path size
  | createDirectory => mount.createDirectory s path
  | deleteFile => mount.deleteFile s path
  | deleteDirectory => mount.deleteDirectory s path
  | clean => mount.cleanDirectoryRecursively s path

/-- The directory in which something is to be changed, if what must be there is there and what must not is not. -/
def site? (s : Store) (holder : DirectoryView DirectoryId) (name : String) :
    Change → Option (DirectoryView DirectoryId)
  | createFile _ | createDirectory => if holder.hasEntry s name then none else some holder
  | deleteFile => (holder.file? s name).map fun _ => holder
  | deleteDirectory => (holder.subdirectory? s name).map fun _ => holder
  | clean => holder.subdirectory? s name

variable {s s' : Store} {mount : Mount DirectoryId} {holder site : DirectoryView DirectoryId} {path name : String}
  {change : Change}

theorem site_eq (passes : change.site? s holder name = some site) (other : change ≠ clean) : site = holder := by
  cases change with
  | createFile | createDirectory =>
    rw [site?] at passes
    split at passes
    · cases passes
    · exact (Option.some.inj passes).symm
  | deleteFile | deleteDirectory =>
    obtain ⟨_, -, same⟩ := Option.map_eq_some_iff.mp passes
    exact same.symm
  | clean => exact absurd rfl other

section Reports

def Reports (s : Store) (view : DirectoryView DirectoryId) (result : Except Error Unit) : Prop :=
  result = .ok () ∨ result = .error (.ofRefusal (view.isWritable s))

theorem isWritable_of_clears {allowed : Node → Prop} (clears : Clears s s' allowed)
    (view : DirectoryView DirectoryId) : view.isWritable s' = view.isWritable s := by
  obtain ⟨-, lost, cuts, -⟩ := clears
  have same : s'.directoryWritable view.node = s.directoryWritable view.node :=
    congrArg Entry.writable (cuts.entry (.directory view.node))
  simp only [DirectoryView.isWritable, Backing.directoryWritable, same]

theorem reports_orRefused (same : holder.isWritable s' = holder.isWritable s) (done : Bool) :
    Reports s holder (Mount.orRefused s' holder done) := by
  cases done with
  | true => exact .inl rfl
  | false => exact .inr (by rw [← same]; rfl)

/-- What only cuts something off is reported by the access that the directory had before, also when it stops
    half-way. -/
theorem reports_step {step : Store → DirectoryView DirectoryId → String → Bool × Store} {allowed : DirectoryId → Node → Prop}
    (idle : ∀ dir, step s ⟨dir, true⟩ name = (false, s))
    (clears : ∀ dir, Clears s (step s (.direct dir) name).2 (allowed dir)) (view : DirectoryView DirectoryId) :
    Reports s view (Mount.orRefused (step s view name).2 view (step s view name).1) := by
  refine reports_orRefused ?_ _
  obtain ⟨dir, readOnly⟩ := view
  cases readOnly with
  | true => rw [idle]
  | false => exact isWritable_of_clears (clears dir) _

section Creating

variable (sound : s.Sound) (located : mount.locate s path = .ok (holder, name))
  (free : holder.hasEntry s name = false)
include sound located free

theorem reports_createFile (size : Nat) :
    Reports s holder (mount.createFile s path size).1 := by
  rw [Mount.createFile_eq_attempt, Mount.attempt_of_located located free, Mount.createSized]
  obtain ⟨dir, readOnly⟩ := holder
  cases readOnly with
  | true => exact .inr rfl
  | false =>
    obtain ⟨s', ⟨refused, same⟩ | ⟨file, created, sound', -, adds⟩⟩ := direct_createFile (s := s) sound dir name
    · obtain rfl : s' = s := same
      right
      simp only [show DirectoryView.createFile s' ⟨dir, false⟩ name = (none, s') from refused]
    · -- a new file accepts changes, so it always gets its size
      obtain ⟨s₂, resized, -⟩ := resize_accepted sound' adds.fileWritable size
      rw [store_self] at resized
      left
      simp only [show DirectoryView.createFile s ⟨dir, false⟩ name = (some (.direct file), s') from created, resized]

theorem reports_createDirectory : Reports s holder (mount.createDirectory s path).1 := by
  rw [Mount.createDirectory_eq_attempt, Mount.attempt_of_located located free]
  obtain ⟨dir, readOnly⟩ := holder
  cases readOnly with
  | true => exact .inr rfl
  | false =>
    obtain ⟨s', ⟨refused, same⟩ | ⟨sub, created, -⟩⟩ := direct_createSubdirectory (s := s) sound dir name
    · obtain rfl : s' = s := same
      exact .inr (by rw [show DirectoryView.createSubdirectory s' ⟨dir, false⟩ name = (none, s') from refused]; rfl)
    · exact .inl (by rw [show DirectoryView.createSubdirectory s ⟨dir, false⟩ name = _ from created]; rfl)

end Creating

theorem reports_deleteFile (sound : s.Sound) (located : mount.locate s path = .ok (holder, name))
    {file : FileView FileId} (found : holder.file? s name = some file) :
    Reports s holder (mount.deleteFile s path).1 := by
  rw [Mount.deleteFile_eq_attempt, Mount.attempt_of_located located (by rw [found]; rfl)]
  exact reports_step (fun _ => rfl) (fun dir => deleteFile_clears (t := s) sound dir name) holder

theorem reports_onSubdirectory {step : Store → DirectoryView DirectoryId → String → Bool × Store}
    {allowed : DirectoryId → Node → Prop} (located : mount.locate s path = .ok (holder, name))
    (idle : ∀ dir, step s ⟨dir, true⟩ name = (false, s))
    (clears : ∀ dir, Clears s (step s (.direct dir) name).2 (allowed dir))
    {sub : DirectoryView DirectoryId} (found : holder.subdirectory? s name = some sub) :
    Reports s holder (mount.onSubdirectory step s path).1 := by
  rw [Mount.onSubdirectory_eq_attempt, Mount.attempt_of_located located (by rw [found]; rfl)]
  exact reports_step idle clears holder

end Reports

/-- A change whose path and whose entry are in order is carried out, or reported by the access of the directory that
    holds what the path names. -/
theorem perform_reports (sound : s.Sound) (located : mount.locate s path = .ok (holder, name))
    (passes : change.site? s holder name = some site) : Reports s holder (change.perform s mount path).1 := by
  cases change with
  | createFile size =>
    refine reports_createFile sound located ?_ size
    by_contra taken
    simp [site?, taken] at passes
  | createDirectory =>
    refine reports_createDirectory sound located ?_
    by_contra taken
    simp [site?, taken] at passes
  | deleteFile =>
    obtain ⟨file, found, -⟩ := Option.map_eq_some_iff.mp passes
    exact reports_deleteFile sound located found
  | deleteDirectory =>
    obtain ⟨sub, found, -⟩ := Option.map_eq_some_iff.mp passes
    exact reports_onSubdirectory located (fun _ => rfl)
      (fun dir => deleteSubdirectory_clears (t := s) sound dir name) found
  | clean =>
    exact reports_onSubdirectory located (fun _ => rfl)
      (fun dir => cleanSubdirectory_clears (t := s) sound dir name) passes

/-- A refused change is reported as a missing permission if something was to be changed in a directory that accepts no
    changes, and as a failure otherwise, except where a directory is cleaned: the report goes by the directory that
    holds it, and is right exactly if both accept changes or both do not. -/
theorem refusal_classified_iff (sound : s.Sound) (located : mount.locate s path = .ok (holder, name))
    (passes : change.site? s holder name = some site) {e : Error} (refused : (change.perform s mount path).1 = .error e) :
    (e = .operationFailed ∨ e = .permissionDenied) ∧
      ((e = if site.isWritable s = true then .operationFailed else .permissionDenied) ↔
        (change = clean → holder.isWritable s = site.isWritable s)) := by
  have reported : e = .ofRefusal (holder.isWritable s) := by
    rcases perform_reports sound located passes with done | failed
    · cases refused.symm.trans done
    · exact Except.error.inj (refused.symm.trans failed)
  subst reported
  refine ⟨by cases holder.isWritable s <;> simp [Error.ofRefusal], ?_⟩
  by_cases cleaning : change = clean
  · rw [iff_true_intro cleaning, true_imp_iff]
    cases holder.isWritable s <;> cases site.isWritable s <;> simp [Error.ofRefusal]
  · obtain rfl := site_eq passes cleaning
    exact iff_of_true rfl fun cleans => absurd cleans cleaning

/-- A directory that accepts no changes and holds a file, and a directory that accepts changes in one that does not,
    with another file out of reach. -/
def vestry : Store :=
  (Store.empty.plant "root" false
    [.directory "a" [.file "f" [1] false] true,
     .directory "b" [.directory "c" [.directory "d" [.file "g" [2] false] true] false] true]).2

theorem vestry_refuses :
    (deleteFile.perform vestry ⟨.direct ⟨0⟩⟩ "a/f").1 = .error .permissionDenied ∧
      (.permissionDenied =
        if (DirectoryView.direct ⟨1⟩).isWritable vestry = true then Error.operationFailed else .permissionDenied) ∧
      (clean.perform vestry ⟨.direct ⟨0⟩⟩ "a").1 = .error .operationFailed ∧
      (.operationFailed ≠
        if (DirectoryView.direct ⟨1⟩).isWritable vestry = true then Error.operationFailed else .permissionDenied) ∧
      (clean.perform vestry ⟨.direct ⟨0⟩⟩ "b/c").1 = .error .permissionDenied ∧
      (.permissionDenied ≠
        if (DirectoryView.direct ⟨3⟩).isWritable vestry = true then Error.operationFailed else .permissionDenied) := by
  have sound : vestry.Sound := Store.plant_sound Store.empty_sound _ _ _
  have deleted : (deleteFile.perform vestry ⟨.direct ⟨0⟩⟩ "a/f").1 = .error .permissionDenied := by decide +kernel
  have cleaned : (clean.perform vestry ⟨.direct ⟨0⟩⟩ "a").1 = .error .operationFailed := by decide +kernel
  have cleaned' : (clean.perform vestry ⟨.direct ⟨0⟩⟩ "b/c").1 = .error .permissionDenied := by decide +kernel
  have inA : deleteFile.site? vestry (.direct ⟨1⟩) "f" = some (.direct ⟨1⟩) := by decide +kernel
  have atA : clean.site? vestry (.direct ⟨0⟩) "a" = some (.direct ⟨1⟩) := by decide +kernel
  have atC : clean.site? vestry (.direct ⟨2⟩) "c" = some (.direct ⟨3⟩) := by decide +kernel
  refine ⟨deleted, (refusal_classified_iff sound (by decide +kernel) inA deleted).2.mpr nofun, cleaned,
    (refusal_classified_iff sound (by decide +kernel) atA cleaned).2.not.mpr ?_, cleaned',
    (refusal_classified_iff sound (by decide +kernel) atC cleaned').2.not.mpr ?_⟩
  · decide +kernel
  · decide +kernel

end Change

end GuestStorage.Memory
