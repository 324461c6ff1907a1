import GuestStorage.Proofs.Memory.Undo

namespace GuestStorage.Memory

open GuestStorage.Tree

section Filling

variable {s s' s'' : Store} {file : FileId} {dir : DirectoryId} {name : String} {bytes : Bytes} {writable : Bool}

namespace Store

theorem FillsFile.trans {change more whole : Bytes → Bytes} (first : FillsFile s s' file change)
    (second : FillsFile s' s'' file more) (both : ∀ bytes, more (change bytes) = whole bytes) :
    FillsFile s s'' file whole := by
  refine ⟨fun other => ?_, fun other => (second.directoryNode other).trans (first.directoryNode other)⟩
  rw [second.fileNode, first.fileNode, Option.map_map]
  by_cases here : other = file <;> cases s.fileNode? other <;> simp [here, both]

theorem FillsFile.congr {change whole : Bytes → Bytes} (effect : FillsFile s s' file change)
    (same : ∀ bytes, change bytes = whole bytes) : FillsFile s s' file whole :=
  ⟨fun other => by rw [effect.fileNode, funext same], effect.directoryNode⟩

theorem FillsFile.filePath {change : Bytes → Bytes} (effect : FillsFile s s' file change) (other : FileId) :
    s'.filePath other = s.filePath other := by
  have node := effect.directoryNode
  have nodes : s'.directoryNodes = s.directoryNodes := Array.ext_getElem? fun i => node ⟨i⟩
  have path := directoryPath_congr (congrArg Array.size nodes) (fun dir => directoryName_of_node (node dir))
    fun dir => directoryParent?_of_node (node dir)
  simp only [Store.filePath, effect.fileParent?, effect.fileName, path]

theorem AddsFile.directoryPath (adds : AddsFile s s' dir file name bytes writable) (other : DirectoryId) :
    s'.directoryPath other = s.directoryPath other :=
  directoryPath_congr adds.size_directoryNodes adds.directoryName adds.directoryParent? other

theorem AddsFile.filePath (adds : AddsFile s s' dir file name bytes writable) :
    s'.filePath file = Path.child (s.directoryPath dir) name := by
  rw [Store.filePath, adds.fileParent?, if_pos rfl, adds.fileName, if_pos rfl]
  simp only [adds.directoryPath]

end Store

end Filling

/-- What a file passes on of the bytes of one write. -/
def FileRefusals.passed (refusals : FileRefusals) (data : Bytes) : Bytes :=
  match refusals.writeLimit with
  | none => data
  | some limit => data.take limit

theorem FileRefusals.passed_prefix (refusals : FileRefusals) (data : Bytes) : refusals.passed data <+: data := by
  rw [passed]
  split
  · exact List.prefix_refl _
  · exact List.take_prefix _ _

namespace Guarded

variable {g g' : Guarded}

section Writing

variable {file : FileView FileId}

theorem SameRules.fileRefusals {changed : FileId} {change : Bytes → Bytes} (rules : SameRules g g')
    (effect : g.store.FillsFile g'.store changed change) (file : FileId) :
    g'.fileRefusals file = g.fileRefusals file := by
  rw [Guarded.fileRefusals, rules.ofFile, effect.filePath, Guarded.fileRefusals]

theorem SameRules.isWritable {changed : FileId} {change : Bytes → Bytes} (rules : SameRules g g')
    (effect : g.store.FillsFile g'.store changed change) (file : FileView FileId) :
    file.isWritable g' = file.isWritable g := by
  simp only [FileView.isWritable, Backing.fileWritable, rules.fileRefusals effect, effect.fileWritable]

def taken (g : Guarded) (file : FileId) (data : Bytes) : Bytes := (g.fileRefusals file).passed data

theorem taken_prefix (g : Guarded) (file : FileId) (data : Bytes) : g.taken file data <+: data :=
  FileRefusals.passed_prefix _ _

theorem length_taken_iff (g : Guarded) (file : FileId) (data : Bytes) :
    (g.taken file data).length = data.length ↔
      ∀ limit, (g.fileRefusals file).writeLimit = some limit → data.length ≤ limit := by
  rw [taken, FileRefusals.passed]
  cases (g.fileRefusals file).writeLimit <;> simp

theorem write_eq_taken (g : Guarded) (file : FileId) (offset : Nat) (data : Bytes) :
    g.write file offset data = g.replace (g.store.write file offset (g.taken file data)) := by
  simp only [Guarded.write, taken, FileRefusals.passed]
  cases (g.fileRefusals file).writeLimit <;> rfl

theorem write_le (g : Guarded) (file : FileView FileId) (offset : Nat) (data : Bytes) :
    (file.write g offset data).1 ≤ data.length := by
  rw [FileView.write]
  split
  · exact Nat.zero_le _
  · show (g.write file.node offset data).1 ≤ data.length
    rw [write_eq_taken, replace]
    rcases g.store.write_fills file.node offset (g.taken file.node data) with refused | ⟨after, done, -⟩
    · rw [refused]
      exact Nat.zero_le _
    · rw [done]
      exact (g.taken_prefix file.node data).length_le

theorem write_taken (writable : file.isWritable g = true) (offset : Nat) (data : Bytes)
    (short : offset + data.length < Store.endLimit) :
    ∃ g', file.write g offset data = ((g.taken file.node data).length, g') ∧ SameRules g g' ∧
      g.store.FillsFile g'.store file.node (·.overwrite offset (g.taken file.node data)) := by
  obtain ⟨file, readOnly⟩ := file
  simp only [FileView.isWritable, Backing.fileWritable, Bool.and_eq_true, Bool.not_eq_true'] at writable
  obtain ⟨rfl, -, writable⟩ := writable
  have bound := (g.taken_prefix file data).length_le
  show ∃ g', g.write file offset data = _ ∧ _
  rw [write_eq_taken, Store.write, if_pos (by simp only [writable, Bool.true_and, decide_eq_true_eq]; omega)]
  exact ⟨_, rfl, ⟨rfl, rfl⟩, Store.modifyFile_fills g.store file (·.overwrite offset _)⟩

end Writing

section Copying

variable {dir : DirectoryId} {source target : String} {present : FileId}

def refusalsAt (g : Guarded) (dir : DirectoryId) (name : String) : FileRefusals :=
  g.ofFile (Path.child (g.store.directoryPath dir) name)

structure Receives (g : Guarded) (dir : DirectoryId) (source target : String) (present : FileId) : Prop where
  found : g.store.file? dir source = some present
  accepts : g.store.acceptsChild dir target = true
  creates : (g.directoryRefusals dir).createFile = false
  sizes : (g.refusalsAt dir target).resize = false

def arriving (g : Guarded) (dir : DirectoryId) (target : String) (data : Bytes) : Bytes :=
  let sent := (g.refusalsAt dir target).passed data
  if sent.length < Store.endLimit then sent else []

def CutsShort (g : Guarded) (dir : DirectoryId) (source target : String) : Prop :=
  ∃ present, g.Receives dir source target present ∧
    (g.arriving dir target (g.store.fileBytes present)).length < (g.store.fileBytes present).length

/-- A new file stands in the directory with the bytes of another file there, and nothing else is different. -/
def Duplicates (g g' : Guarded) (dir : DirectoryId) (source target : String) : Prop :=
  SameRules g g' ∧ ∃ present new, g.store.file? dir source = some present ∧
    g.store.AddsFile g'.store dir new target (g.store.fileBytes present) true

/-- Copying tells whether there is a copy, and if there is none, every directory shows what it showed. -/
def CopiesOrKeeps (g : Guarded) (dir : DirectoryId) (source target : String) : Prop :=
  let outcome := (DirectoryView.direct dir).copyFile g source target
  (outcome.1 = true ↔ g.Duplicates outcome.2 dir source target) ∧
    (outcome.1 = false → ∀ view : DirectoryView DirectoryId, view.snapshot outcome.2 = view.snapshot g)

theorem arriving_prefix (g : Guarded) (dir : DirectoryId) (target : String) (data : Bytes) :
    g.arriving dir target data <+: data := by
  rw [arriving]
  split
  · exact FileRefusals.passed_prefix _ _
  · exact List.nil_prefix

section NewFile

variable {new : FileId} {bytes : Bytes} (adds : g.store.AddsFile g'.store dir new target bytes true)
  (rules : SameRules g g')
include adds rules

theorem fileRefusals_new : g'.fileRefusals new = g.refusalsAt dir target := by
  rw [fileRefusals, adds.filePath, rules.ofFile, refusalsAt]

theorem resize_new (willing : (g.refusalsAt dir target).resize = false) (size : Nat) :
    ∃ g'', g'.resize new size = (true, g'') ∧ SameRules g g'' ∧
      g.store.AddsFile g''.store dir new target (bytes.resize size) true := by
  have writable : g'.store.fileWritable new = true := by rw [adds.fileWritable, if_pos rfl]
  rw [Guarded.resize, fileRefusals_new adds rules, willing, if_neg Bool.false_ne_true, Store.resize, if_pos writable]
  exact ⟨_, rfl, rules.trans ⟨rfl, rfl⟩, adds.filled (Store.modifyFile_fills g'.store new (·.resize size))⟩

theorem write_new (data : Bytes) :
    ∃ g'', g'.write new 0 data = ((g.arriving dir target data).length, g'') ∧ SameRules g g'' ∧
      g.store.AddsFile g''.store dir new target (bytes.overwrite 0 (g.arriving dir target data)) true := by
  have writable : g'.store.fileWritable new = true := by rw [adds.fileWritable, if_pos rfl]
  rw [write_eq_taken, taken, fileRefusals_new adds rules, Store.write, arriving]
  by_cases short : ((g.refusalsAt dir target).passed data).length < Store.endLimit
  · simp only [writable, Bool.true_and, Nat.zero_add, decide_eq_true_eq, if_pos short]
    exact ⟨_, rfl, rules.trans ⟨rfl, rfl⟩, adds.filled (Store.modifyFile_fills g'.store new (·.overwrite 0 _))⟩
  · simp only [writable, Bool.true_and, Nat.zero_add, decide_eq_true_eq, if_neg short]
    refine ⟨g', rfl, rules, ?_⟩
    simpa [Bytes.overwrite, Bytes.resize, Bytes.zeros] using adds

end NewFile

theorem overwrite_zeros {data : Bytes} {size : Nat} (fits : data.length ≤ size) :
    (Bytes.resize [] size).overwrite 0 data = data.resize size := by
  rw [Bytes.resize_nil, Bytes.overwrite]
  simp [Bytes.resize, Bytes.zeros, List.take_of_length_le fits]

theorem createFile_willing {new : FileId} (created : g.createFile dir target = (some new, g')) :
    (g.directoryRefusals dir).createFile = false ∧ g.store.acceptsChild dir target = true := by
  rw [Guarded.createFile] at created
  split at created
  · cases created
  · rename_i willing
    refine ⟨by simpa using willing, ?_⟩
    by_contra refuses
    rw [replace, Store.createFile_refused (by simpa using refuses)] at created
    cases created

theorem createFile_store {new : FileId} (created : g.createFile dir target = (some new, g')) :
    g.store.createFile dir target = (some new, g'.store) := by
  rw [Guarded.createFile, if_neg (by simp [(createFile_willing created).1]), replace] at created
  have file : (g.store.createFile dir target).1 = some new := congrArg Prod.fst created
  have after : (g.store.createFile dir target).2 = g'.store := congrArg (·.2.store) created
  exact Prod.ext file after

section Stages

variable {g₁ g₂ g₃ : Guarded} {new : FileId} {count : Nat}

theorem copyFile_unfound (missing : g.store.file? dir source = none) :
    (DirectoryView.direct dir).copyFile g source target = (false, g) := by
  simp [DirectoryView.copyFile, DirectoryView.direct, DirectoryView.file?, Backing.file?, missing]

theorem copyFile_uncreated (found : g.store.file? dir source = some present)
    (refused : g.createFile dir target = (none, g₁)) :
    (DirectoryView.direct dir).copyFile g source target = (false, g₁) := by
  simp [DirectoryView.copyFile, DirectoryView.direct, DirectoryView.file?, Backing.file?, found,
    DirectoryView.createFile, Backing.createFile, refused]

theorem copyFile_unsized (found : g.store.file? dir source = some present)
    (created : g.createFile dir target = (some new, g₁))
    (refused : g₁.resize new (g₁.store.fileBytes present).length = (false, g₂)) :
    (DirectoryView.direct dir).copyFile g source target = (false, (g₂.deleteFile dir target).2) := by
  have refused : FileView.resize g₁ (.direct new) (FileView.size g₁ ⟨present, false⟩) = (false, g₂) := refused
  simp only [DirectoryView.copyFile, DirectoryView.direct, DirectoryView.file?, Backing.file?, found,
    Option.map_some, DirectoryView.createFile, Backing.createFile, created, Bool.false_eq_true, if_false, refused]
  rfl

theorem copyFile_written (found : g.store.file? dir source = some present)
    (created : g.createFile dir target = (some new, g₁))
    (sized : g₁.resize new (g₁.store.fileBytes present).length = (true, g₂))
    (wrote : g₂.write new 0 (g₂.store.fileBytes present) = (count, g₃)) :
    (DirectoryView.direct dir).copyFile g source target =
      (count == (g₃.store.fileBytes present).length, g₃) := by
  have sized : FileView.resize g₁ (.direct new) (FileView.size g₁ ⟨present, false⟩) = (true, g₂) := sized
  have all : FileView.readAll g₂ ⟨present, false⟩ = g₂.store.fileBytes present := direct_readAll g₂ present
  have wrote : FileView.write g₂ (.direct new) 0 (g₂.store.fileBytes present) = (count, g₃) := wrote
  simp only [DirectoryView.copyFile, DirectoryView.direct, DirectoryView.file?, Backing.file?, found,
    Option.map_some, DirectoryView.createFile, Backing.createFile, created, Bool.false_eq_true, if_false, sized,
    all, wrote]
  rfl

end Stages

theorem copyFile_cases (sound : g.store.Sound) (willing : (g.directoryRefusals dir).deleteFile = false)
    (source target : String) :
    let outcome := (DirectoryView.direct dir).copyFile g source target
    (∃ present new, g.Receives dir source target present ∧
      outcome.1 = ((g.arriving dir target (g.store.fileBytes present)).length ==
        (g.store.fileBytes present).length) ∧ SameRules g outcome.2 ∧
      g.store.AddsFile outcome.2.store dir new target
        ((g.arriving dir target (g.store.fileBytes present)).resize (g.store.fileBytes present).length) true) ∨
    (∀ present, ¬ g.Receives dir source target present) ∧ outcome.1 = false ∧ Untouched g outcome.2 := by
  intro outcome
  cases found : g.store.file? dir source with
  | none =>
    refine .inr ⟨fun present receives => ?_, ?_⟩
    · cases found.symm.trans receives.found
    · simp only [outcome, copyFile_unfound found, true_and]
      exact .refl g
  | some present =>
    rcases createFile_pending g dir target with refused | ⟨new, g₁, created, pending⟩
    · refine .inr ⟨fun _ receives => ?_, ?_⟩
      · obtain ⟨file, after, made, -⟩ := Store.createFile_adds receives.accepts
        rw [Guarded.createFile, receives.creates, if_neg Bool.false_ne_true, replace, made] at refused
        cases refused
      · simp only [outcome, copyFile_uncreated found refused, true_and]
        exact .refl g
    · obtain ⟨creates, accepts⟩ := createFile_willing created
      obtain ⟨-, adds⟩ := Store.createFile_some (createFile_store created)
      have held : present ≠ new := by
        rintro rfl
        exact sound.fresh_file_unlisted adds.fresh dir (Store.file?_some found).1
      have size : g₁.store.fileBytes present = g.store.fileBytes present := by rw [adds.fileBytes, if_neg held]
      cases sizes : (g.refusalsAt dir target).resize with
      | true =>
        -- the one way on which the new file is taken away again
        have refused : g₁.resize new (g₁.store.fileBytes present).length = (false, g₁) := by
          rw [Guarded.resize, fileRefusals_new adds pending.rules, sizes, if_pos rfl]
        refine .inr ⟨fun _ receives => absurd receives.sizes (by simp [sizes]), ?_⟩
        simp only [outcome, copyFile_unsized found created refused, true_and]
        rcases (pending.undone sound).2 with untouched | ⟨-, refuses⟩
        · exact untouched
        · cases refuses.symm.trans willing
      | false =>
        obtain ⟨g₂, sized, rules₂, adds₂⟩ := resize_new adds pending.rules sizes (g₁.store.fileBytes present).length
        obtain ⟨g₃, wrote, rules₃, adds₃⟩ := write_new adds₂ rules₂ (g₂.store.fileBytes present)
        have same₂ : g₂.store.fileBytes present = g.store.fileBytes present := by rw [adds₂.fileBytes, if_neg held]
        have same₃ : g₃.store.fileBytes present = g.store.fileBytes present := by rw [adds₃.fileBytes, if_neg held]
        have done := copyFile_written found created sized wrote
        rw [same₂, size, overwrite_zeros (g.arriving_prefix dir target _).length_le] at adds₃
        rw [same₂, same₃] at done
        refine .inl ⟨present, new, ⟨found, accepts, creates, sizes⟩, ?_⟩
        simp only [outcome, done, true_and]
        exact ⟨rules₃, adds₃⟩

theorem snapshot_files (g : Guarded) (dir : DirectoryId) :
    ∃ name writable subdirectories, (DirectoryView.direct dir).snapshot g =
      .directory name writable (((DirectoryView.direct dir).files g).map (·.snapshot g)) subdirectories :=
  ⟨_, _, _, rfl⟩

theorem snapshot_ne_of_addsFile {new : FileId} {name : String} {bytes : Bytes} {writable : Bool}
    (adds : g.store.AddsFile g'.store dir new name bytes writable) :
    (DirectoryView.direct dir).snapshot g' ≠ (DirectoryView.direct dir).snapshot g := by
  intro same
  obtain ⟨_, _, _, before⟩ := snapshot_files g dir
  obtain ⟨_, _, _, after⟩ := snapshot_files g' dir
  rw [before, after] at same
  have files := congrArg List.length (Snapshot.directory.inj same).2.2.1
  simp [stored_store, adds.files] at files

/-- Copying a file inside its directory, which does not refuse to delete files, does all or nothing unless the
    new file is cut short. It tells when all bytes have arrived, and otherwise a file that is cut short stays. -/
theorem copyFile_exact (g : Guarded) (sound : g.store.Sound) (dir : DirectoryId)
    (willing : (g.directoryRefusals dir).deleteFile = false) (source target : String) :
    let outcome := (DirectoryView.direct dir).copyFile g source target
    (g.CopiesOrKeeps dir source target ↔ ¬ g.CutsShort dir source target) ∧
      (outcome.1 = true ↔ ∃ present, g.Receives dir source target present ∧
        g.arriving dir target (g.store.fileBytes present) = g.store.fileBytes present) ∧
      ∀ present, g.Receives dir source target present → ∃ new, SameRules g outcome.2 ∧
        g.store.AddsFile outcome.2.store dir new target
          ((g.arriving dir target (g.store.fileBytes present)).resize (g.store.fileBytes present).length) true := by
  intro outcome
  rcases copyFile_cases sound willing source target with
    ⟨present, new, receives, flag, rules, adds⟩ | ⟨none, refused, untouched⟩
  · have only : ∀ other, g.Receives dir source target other → other = present :=
      fun other also => Option.some.inj (also.found.symm.trans receives.found)
    have sent := g.arriving_prefix dir target (g.store.fileBytes present)
    refine ⟨?_, ?_, fun other also => only other also ▸ ⟨new, rules, adds⟩⟩
    · by_cases whole : g.arriving dir target (g.store.fileBytes present) = g.store.fileBytes present
      · have done : outcome.1 = true := by simp [outcome, flag, whole]
        have copied : g.Duplicates outcome.2 dir source target := by
          rw [whole, Bytes.resize_self] at adds
          exact ⟨rules, present, new, receives.found, adds⟩
        refine iff_of_true ⟨iff_of_true done copied, fun failed => by cases done.symm.trans failed⟩ ?_
        rintro ⟨other, also, short⟩
        rw [only other also, whole] at short
        exact Nat.lt_irrefl _ short
      · -- the copy fails, and the file that it leaves shows
        have short := Nat.lt_of_le_of_ne sent.length_le fun same => whole (sent.eq_of_length same)
        refine iff_of_false (fun kept => ?_) (not_not_intro ⟨present, receives, short⟩)
        exact snapshot_ne_of_addsFile adds (kept.2 (by simp [flag, Nat.ne_of_lt short]) _)
    · rw [flag, beq_iff_eq]
      constructor
      · exact fun same => ⟨present, receives, sent.eq_of_length same⟩
      · rintro ⟨other, also, whole⟩
        rw [← only other also, whole]
  · refine ⟨iff_of_true ⟨?_, fun _ => untouched.snapshot sound⟩ ?_, ?_,
      fun present receives => (none _ receives).elim⟩
    · refine iff_of_false (by simp [refused]) ?_
      rintro ⟨-, present, new, -, adds⟩
      exact snapshot_ne_of_addsFile adds (untouched.snapshot sound _)
    · rintro ⟨present, receives, -⟩
      exact none present receives
    · refine iff_of_false (by simp [outcome, refused]) ?_
      rintro ⟨present, receives, -⟩
      exact none present receives

/-- A directory in which one name takes no more than one byte of a write and another cannot be given a size. -/
def narrowShelf : Guarded where
  store := (Store.empty.plant "root" false [.file "a" [1, 2] false]).2
  ofFile path := { writeLimit := if path == "root/b" then some 1 else none, resize := path == "root/c" }

theorem narrowShelf_copies :
    ¬ narrowShelf.CopiesOrKeeps ⟨0⟩ "a" "b" ∧ narrowShelf.CopiesOrKeeps ⟨0⟩ "a" "c" ∧
      narrowShelf.CopiesOrKeeps ⟨0⟩ "a" "d" ∧
      ((DirectoryView.direct ⟨0⟩).copyFile narrowShelf "a" "b").2.store.fileBytes ⟨1⟩ = [1, 0] := by
  have sound : narrowShelf.store.Sound := Store.plant_sound Store.empty_sound _ _ _
  have course (target : String) := (copyFile_exact narrowShelf sound ⟨0⟩ rfl "a" target).1
  refine ⟨?_, (course "c").mpr ?_, (course "d").mpr ?_, by decide +kernel⟩
  · exact fun kept => (course "b").mp kept
      ⟨⟨0⟩, ⟨by decide +kernel, by decide +kernel, rfl, by decide +kernel⟩, by decide +kernel⟩
  · rintro ⟨present, receives, -⟩
    exact absurd receives.sizes (by decide +kernel)
  · rintro ⟨present, receives, short⟩
    have first : narrowShelf.store.file? ⟨0⟩ "a" = some ⟨0⟩ := by decide +kernel
    obtain rfl := Option.some.inj (receives.found.symm.trans first)
    exact absurd short (by decide +kernel)

end Copying

end Guarded

end GuestStorage.Memory
