import GuestStorage.Proofs.PathMap.Renames
import GuestStorage.Proofs.Session.Following
import GuestStorage.Proofs.Session.Locked

namespace GuestStorage.Session

open Memory Node GuestStorage.Tree

/-- A path names an entry of a directory that accepts changes. -/
structure Names (s : Store) (root : DirectoryId) (path : String) (way : List String) (dir : DirectoryId)
    (name : String) : Prop where
  normal : Mount.normalize path = .ok (way ++ [name])
  reached : (Node.directory root).descend? s way = some (.directory dir)
  writable : s.directoryWritable dir = true

def FileAt (s : Store) (root : DirectoryId) (path : String) (home : DirectoryId) (file : FileId) : Prop :=
  ∃ way name, Names s root path way home name ∧ (Node.directory home).child? s name = some (.file file) ∧
    (s.fileBytes file).length < Store.endLimit

def FreeAt (s : Store) (root : DirectoryId) (path : String) (goal : DirectoryId) : Prop :=
  ∃ way name, Names s root path way goal name ∧ (Node.directory goal).child? s name = none

/-- What can be seen of a file at one path is what could be seen of one at another path before. -/
structure Arrives (s s' : Store) (root : DirectoryId) (source target : String) : Prop where
  modes : ∀ mode, (Mount.openFile s' ⟨.direct root⟩ target mode).isOk = (Mount.openFile s ⟨.direct root⟩ source mode).isOk
  shown : ∀ file file', Mount.openFile s ⟨.direct root⟩ source .read = .ok file →
    Mount.openFile s' ⟨.direct root⟩ target .read = .ok file' →
      file'.readAll s' = file.readAll s ∧ file'.size s' = file.size s ∧ file'.isWritable s' = file.isWritable s

variable {s s' : Store} {root home goal : DirectoryId} {file : FileId} {path source target : String}
  {way front back names : List String} {name old new : String} {bytes : Bytes} {writable : Bool}

section Paths

variable (named : Names s root path way home name)
include named

theorem Names.locate : Mount.locate s ⟨.direct root⟩ path = .ok (.direct home, name) := by
  have reached : (DirectoryView.direct root).descend? s way = some (.direct home) :=
    (direct_descend?_eq_some s).mpr ⟨home, rfl, named.reached⟩
  simp [Mount.locate, named.normal, Except.bind, Mount.locateAlong, reached]

theorem Names.proper : name ≠ "" := ((normalize_ok named.normal).2 name (by simp)).1

theorem Names.child (found : (Node.directory home).child? s name = some (.file file)) :
    (Node.directory root).descend? s (way ++ [name]) = some (.file file) :=
  (descend?_concat_of_reached named.reached name).trans found

theorem Names.absent (free : (Node.directory home).child? s name = none) :
    (Node.directory root).descend? s (way ++ [name]) = none :=
  (descend?_concat_of_reached named.reached name).trans free

end Paths

section Opening

theorem openFile_of_lookup (sound : s.Sound) (normal : Mount.normalize path = .ok names)
    (shown : (Node.directory root).lookup s names = some ⟨.file bytes, writable⟩) :
    ∃ view, (∀ mode view', Mount.openFile s ⟨.direct root⟩ path mode = .ok view' ↔
        view' = view ∧ (mode.needsWrite = true → writable = true)) ∧
      view.readAll s = bytes ∧ view.size s = bytes.length ∧ view.isWritable s = writable := by
  obtain ⟨x, reached, same⟩ := Option.map_eq_some_iff.mp shown
  cases x with
  | directory dir => cases congrArg Entry.content same
  | file file =>
    cases same
    have access : (FileView.direct file).isWritable s = s.fileWritable file := by
      simp [FileView.isWritable, FileView.direct, Backing.fileWritable]
    refine ⟨.direct file, fun mode view' => ?_, by simp [store_self], by simp [store_self], access⟩
    rw [openFile_eq_ok sound]
    constructor
    · rintro ⟨names', normal', reached', direct, allowed⟩
      cases normal.symm.trans normal'
      cases reached.symm.trans reached'
      obtain ⟨node, readOnly⟩ := view'
      cases direct
      exact ⟨rfl, fun writes => access.symm.trans (allowed writes)⟩
    · rintro ⟨rfl, allowed⟩
      exact ⟨names, normal, reached, rfl, fun writes => access.trans (allowed writes)⟩

theorem isOk_openFile (sound : s.Sound) (normal : Mount.normalize path = .ok names)
    (shown : (Node.directory root).lookup s names = some ⟨.file bytes, writable⟩) (mode : Wire.OpenMode) :
    (Mount.openFile s ⟨.direct root⟩ path mode).isOk = true ↔ (mode.needsWrite = true → writable = true) := by
  obtain ⟨view, opens, -⟩ := openFile_of_lookup sound normal shown
  cases opened : Mount.openFile s ⟨.direct root⟩ path mode with
  | error e =>
    refine iff_of_false Bool.false_ne_true fun allowed => ?_
    cases opened.symm.trans ((opens mode view).mpr ⟨rfl, allowed⟩)
  | ok other => exact iff_of_true rfl ((opens mode other).mp opened).2

variable {names' : List String} {bytes' : Bytes} {writable' : Bool}

theorem arrives_iff (sound : s.Sound) (sound' : s'.Sound) (normal : Mount.normalize source = .ok names)
    (normal' : Mount.normalize target = .ok names')
    (shown : (Node.directory root).lookup s names = some ⟨.file bytes, writable⟩)
    (shown' : (Node.directory root).lookup s' names' = some ⟨.file bytes', writable'⟩) :
    Arrives s s' root source target ↔ bytes' = bytes ∧ writable' = writable := by
  obtain ⟨view, opens, contents, size, access⟩ := openFile_of_lookup sound normal shown
  obtain ⟨view', opens', contents', size', access'⟩ := openFile_of_lookup sound' normal' shown'
  constructor
  · intro arrives
    obtain ⟨same, -, sameAccess⟩ := arrives.shown view view' ((opens _ _).mpr ⟨rfl, nofun⟩)
      ((opens' _ _).mpr ⟨rfl, nofun⟩)
    exact ⟨contents'.symm.trans (same.trans contents), access'.symm.trans (sameAccess.trans access)⟩
  · rintro ⟨rfl, rfl⟩
    refine ⟨fun mode => ?_, fun file file' opened opened' => ?_⟩
    · rw [Bool.eq_iff_iff, isOk_openFile sound' normal' shown', isOk_openFile sound normal shown]
    · obtain ⟨rfl, -⟩ := (opens _ _).mp opened
      obtain ⟨rfl, -⟩ := (opens' _ _).mp opened'
      exact ⟨contents'.trans contents.symm, size'.trans size.symm, access'.trans access.symm⟩

end Opening

section Moving

variable (sound : s.Sound) (here : Names s root source front home old)
  (found : (Node.directory home).child? s old = some (.file file)) (there : Names s root target back goal new)
  (free : (Node.directory goal).child? s new = none)
include sound here found there free

theorem renameFile_eq : Mount.renameFile s ⟨.direct root⟩ source target =
    if goal = home then
      match (FileView.direct file).rename s new with
      | (some _, s') => (.ok (), s')
      | (none, s') => (.error (.ofRefusal ((FileView.direct file).isWritable s')), s')
    else Mount.moveFile s (.direct file) (.direct home) old (.direct goal) new := by
  have view : (DirectoryView.direct home).file? s old = some (.direct file) := by
    rw [direct_file?_eq home old sound, found]
    rfl
  have vacant : (DirectoryView.direct goal).hasEntry s new = false := by
    rw [child?_eq_none_iff, ← Store.hasChild_iff] at free
    simpa [store_self] using free
  have place : Mount.samePlace s (.direct home) (.direct goal) = true ↔ goal = home :=
    (Mount.samePlace_iff_node sound here.locate there.locate found).trans eq_comm
  have other : ¬ (Mount.samePlace s (.direct home) (.direct goal) && old == new) = true := by
    rw [Bool.and_eq_true, place, beq_iff_eq]
    rintro ⟨rfl, rfl⟩
    cases found.symm.trans free
  rw [Mount.renameFile, here.locate]
  simp only [view, there.locate, if_neg other, vacant, Bool.false_eq_true, if_false, place]
  by_cases same : goal = home
  · rw [if_pos same, if_pos same]
    rcases (FileView.direct file).rename s new with ⟨_ | _, s'⟩ <;> rfl
  · rw [if_neg same, if_neg same]

theorem rename_free (same : goal = home) (writable : s.fileWritable file = true) :
    ∃ s', (FileView.direct file).rename s new = (some (.direct file), s') ∧ s'.Sound ∧
      (Node.directory root).lookup s' (back ++ [new]) = some ⟨.file (s.fileBytes file), true⟩ := by
  subst same
  obtain rfl := sound.path_unique here.reached there.reached
  obtain ⟨s', renamed, sound', effect⟩ := rename_file_accepted sound writable there.proper found free
  refine ⟨s', renamed, sound', ?_⟩
  have shown := effect.lookup sound sound' here.reached found free (front ++ [new] ++ [])
  rw [Keyed.rekey_target, List.append_nil, List.append_nil] at shown
  rw [shown, Node.lookup, here.child found, ← writable]
  rfl

theorem moveFile_free (short : (s.fileBytes file).length < Store.endLimit) :
    ∃ s', Mount.moveFile s (.direct file) (.direct home) old (.direct goal) new = (.ok (), s') ∧ s'.Sound ∧
      (Node.directory root).lookup s' (back ++ [new]) = some ⟨.file (s.fileBytes file), true⟩ := by
  obtain ⟨copy, s₁, s₂, s₃, created, resized, wrote, sound₃, adds⟩ := create_filled sound there.writable
    there.proper free short
  have grows := adds.grows sound
  have present := sound.parent_held (sound.child?_eq_some.mp found).1
  have kept : (Node.directory home).child? s₃ old = some (.file file) :=
    grows.child?_of_some sound sound₃ found
  have open₃ : s₃.directoryWritable home = true :=
    (congrArg Entry.writable (grows.entry (.directory home) present.1)).trans here.writable
  obtain ⟨s', deleted, sound', cuts⟩ := deleteFile_accepted sound₃ open₃ kept
  have data : (Stored.store s₁).fileBytes file = s.fileBytes file :=
    PathMap.fileBytes_of_created sound present.2 created
  have open₀ : (DirectoryView.direct home).isWritable s = true := here.writable
  refine ⟨s', ?_, sound', ?_⟩
  · rw [Mount.moveFile, open₀, created]
    simp only [Bool.not_true, Bool.false_eq_true, if_false, direct_readAll]
    simp only [data, resized, wrote, bne_self_eq_false, Bool.false_eq_true, if_false, deleted]
  · have different : front ++ [old] ≠ back ++ [new] := by
      intro same
      have absent := there.absent free
      rw [← same, here.child found] at absent
      cases absent
    have apart := PathMap.file_not_above found here.reached there.reached different
    have still := grows.descend? sound sound₃ (here.child found)
    rw [cuts.lookup_outside sound₃ sound' still (fun z gone => List.mem_singleton.mp gone ▸ .refl _) apart,
      adds.lookup sound sound₃ free there.reached, if_pos rfl]

theorem renameFile_able (able : s.fileWritable file = true ∨ goal ≠ home)
    (short : (s.fileBytes file).length < Store.endLimit) :
    ∃ s', Mount.renameFile s ⟨.direct root⟩ source target = (.ok (), s') ∧ s'.Sound ∧
      (Node.directory root).lookup s' (back ++ [new]) = some ⟨.file (s.fileBytes file), true⟩ := by
  rw [renameFile_eq sound here found there free]
  by_cases same : goal = home
  · obtain ⟨s', renamed, kept⟩ := rename_free sound here found there free same (able.resolve_right (· same))
    exact ⟨s', by rw [if_pos same, renamed], kept⟩
  · rw [if_neg same]
    exact moveFile_free sound here found there free short

end Moving

/-- It makes no difference under which of two free paths a file comes to stand: either both requests get through or
    none, and where one does, the file arrives as it was. -/
def Alike (s : Store) (root : DirectoryId) (source target target' : String) : Prop :=
  let outcome := Mount.renameFile s ⟨.direct root⟩ source target
  let outcome' := Mount.renameFile s ⟨.direct root⟩ source target'
  (outcome.1 = .ok () ↔ outcome'.1 = .ok ()) ∧
    (outcome.1 = .ok () → Arrives s outcome.2 root source target) ∧
      (outcome'.1 = .ok () → Arrives s outcome'.2 root source target')

section Free

variable (sound : s.Sound) (present : FileAt s root source home file)
include sound present

/-- In its directory a file gets another name only if it accepts changes itself. It can always be moved to another
    directory, and accepts changes there. -/
theorem renameFile_free (vacant : FreeAt s root target goal) :
    (s.fileWritable file = false → goal = home →
        Mount.renameFile s ⟨.direct root⟩ source target = (.error .permissionDenied, s)) ∧
      (s.fileWritable file = true ∨ goal ≠ home →
        ∃ s', Mount.renameFile s ⟨.direct root⟩ source target = (.ok (), s') ∧
          (∀ mode, (Mount.openFile s' ⟨.direct root⟩ target mode).isOk = true) ∧
            (Arrives s s' root source target ↔ s.fileWritable file = true)) := by
  obtain ⟨front, old, here, found, short⟩ := present
  obtain ⟨back, new, there, free⟩ := vacant
  have shown : (Node.directory root).lookup s (front ++ [old]) =
      some ⟨.file (s.fileBytes file), s.fileWritable file⟩ := by
    rw [Node.lookup, here.child found]
    rfl
  refine ⟨fun locked same => ?_, fun able => ?_⟩
  · have refused : (FileView.direct file).rename s new = (none, s) := by
      simp [FileView.rename, FileView.direct, Backing.renameFile, Store.renameFile, locked]
    have access : (FileView.direct file).isWritable s = false := locked
    rw [renameFile_eq sound here found there free, if_pos same, refused]
    simp only [access]
    rfl
  · obtain ⟨s', done, sound', shown'⟩ := renameFile_able sound here found there free able short
    refine ⟨s', done, fun mode => (isOk_openFile sound' there.normal shown' mode).mpr fun _ => rfl, ?_⟩
    rw [arrives_iff sound sound' here.normal there.normal shown shown', eq_comm (a := true)]
    exact and_iff_right rfl

theorem alike_iff {goal' : DirectoryId} {target' : String} (vacant : FreeAt s root target goal)
    (vacant' : FreeAt s root target' goal') :
    Alike s root source target target' ↔ s.fileWritable file = true ∨ goal = home ∧ goal' = home := by
  obtain ⟨refused, moved⟩ := renameFile_free sound present vacant
  obtain ⟨refused', moved'⟩ := renameFile_free sound present vacant'
  rw [Alike]
  cases access : s.fileWritable file with
  | true =>
    obtain ⟨s₁, done, -, arrives⟩ := moved (.inl access)
    obtain ⟨s₂, done', -, arrives'⟩ := moved' (.inl access)
    rw [done, done']
    exact iff_of_true ⟨Iff.rfl, fun _ => arrives.mpr access, fun _ => arrives'.mpr access⟩ (.inl rfl)
  | false =>
    have stays : ∀ {s' : Store} {target : String}, (Arrives s s' root source target ↔ s.fileWritable file = true) →
        ¬ Arrives s s' root source target :=
      fun arrives arrived => Bool.false_ne_true (access.symm.trans (arrives.mp arrived))
    by_cases same : goal = home <;> by_cases same' : goal' = home
    · rw [refused access same, refused' access same']
      simp [same, same']
    · obtain ⟨s₂, done', -, -⟩ := moved' (.inr same')
      rw [refused access same, done']
      simp [same']
    · obtain ⟨s₁, done, -, -⟩ := moved (.inr same)
      rw [done, refused' access same']
      simp [same]
    · obtain ⟨s₁, done, -, arrives⟩ := moved (.inr same)
      rw [done]
      refine iff_of_false (fun alike => stays arrives (alike.2.1 rfl)) (by simp [same])

/-- It makes no difference under which of two free paths a file comes to stand exactly if the file itself accepts
    changes or stays in its directory both times. One that accepts no changes is refused another name in its
    directory, but moved to other directories, where it accepts them. -/
theorem renameFile_alike_iff {goal' : DirectoryId} {target' : String} (vacant : FreeAt s root target goal)
    (vacant' : FreeAt s root target' goal') :
    (Alike s root source target target' ↔ s.fileWritable file = true ∨ goal = home ∧ goal' = home) ∧
      (s.fileWritable file = false →
        (goal = home → Mount.renameFile s ⟨.direct root⟩ source target = (.error .permissionDenied, s)) ∧
          (goal ≠ home → ∃ s', Mount.renameFile s ⟨.direct root⟩ source target = (.ok (), s') ∧
            ∀ mode, (Mount.openFile s' ⟨.direct root⟩ target mode).isOk = true)) := by
  obtain ⟨refused, moved⟩ := renameFile_free sound present vacant
  refine ⟨alike_iff sound present vacant vacant', fun locked => ⟨refused locked, fun apart => ?_⟩⟩
  obtain ⟨s', done, modes, -⟩ := moved (.inr apart)
  exact ⟨s', done, modes⟩

end Free

def satchel : Store :=
  (Store.empty.plant "root" false [.file "a" [1] true, .file "b" [2] false, .directory "d" [] false]).2

theorem satchel_alike :
    Alike satchel ⟨0⟩ "b" "c" "d/b" ∧ ¬ Alike satchel ⟨0⟩ "a" "c" "/d\\a" ∧ Alike satchel ⟨0⟩ "a" "c" "e" := by
  have sound : satchel.Sound := Store.plant_sound Store.empty_sound _ _ _
  have locked : FileAt satchel ⟨0⟩ "a" ⟨0⟩ ⟨0⟩ := by
    refine ⟨[], "a", ⟨?_, ?_, ?_⟩, ?_, ?_⟩ <;> decide +kernel
  have open_ : FileAt satchel ⟨0⟩ "b" ⟨0⟩ ⟨1⟩ := by
    refine ⟨[], "b", ⟨?_, ?_, ?_⟩, ?_, ?_⟩ <;> decide +kernel
  have beside : FreeAt satchel ⟨0⟩ "c" ⟨0⟩ := by
    refine ⟨[], "c", ⟨?_, ?_, ?_⟩, ?_⟩ <;> decide +kernel
  have also : FreeAt satchel ⟨0⟩ "e" ⟨0⟩ := by
    refine ⟨[], "e", ⟨?_, ?_, ?_⟩, ?_⟩ <;> decide +kernel
  have inside : FreeAt satchel ⟨0⟩ "d/b" ⟨1⟩ := by
    refine ⟨["d"], "b", ⟨?_, ?_, ?_⟩, ?_⟩ <;> decide +kernel
  have alsoInside : FreeAt satchel ⟨0⟩ "/d\\a" ⟨1⟩ := by
    refine ⟨["d"], "a", ⟨?_, ?_, ?_⟩, ?_⟩ <;> decide +kernel
  refine ⟨(renameFile_alike_iff sound open_ beside inside).1.mpr (.inl (by decide +kernel)), ?_,
    (renameFile_alike_iff sound locked beside also).1.mpr (.inr ⟨rfl, rfl⟩)⟩
  rw [(renameFile_alike_iff sound locked beside alsoInside).1]
  decide +kernel

end GuestStorage.Session
