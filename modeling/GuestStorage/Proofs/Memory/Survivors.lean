import GuestStorage.Proofs.Memory.Undo

namespace GuestStorage.Memory

open GuestStorage.Tree Node

section Kinship

variable {s s' : Store} {x y z dir : Node}

theorem Node.below_iff (sound : s.Sound) : Below s x y ↔ ∃ z, z.parent? s = some x ∧ Within s z y := by
  constructor
  · rintro ⟨⟨path, reached⟩, apart⟩
    cases path with
    | nil => exact absurd (Option.some.inj reached).symm apart
    | cons name rest =>
      rw [descend?_cons, Option.bind_eq_some_iff] at reached
      obtain ⟨z, child, further⟩ := reached
      exact ⟨z, (sound.child?_eq_some.mp child).1, rest, further⟩
  · rintro ⟨z, owned, within⟩
    exact .of_child sound (sound.child?_eq_some.mpr ⟨owned, rfl⟩) within

theorem Store.Sound.file_owned {dir : DirectoryId} {file : FileId} (sound : s.Sound) (listed : file ∈ s.files dir) :
    (Node.file file).parent? s = some (.directory dir) := by
  simp [Node.parent?, (sound.file_listed file dir).mp listed]

theorem Store.Sound.directory_owned {dir sub : DirectoryId} (sound : s.Sound) (listed : sub ∈ s.subdirectories dir) :
    (Node.directory sub).parent? s = some (.directory dir) := by
  simp [Node.parent?, (sound.directory_listed sub dir).mp listed]

theorem Node.Within.of_parent (sound : s.Sound) (owned : y.parent? s = some x) : Within s x y :=
  (Within.refl x).child (sound.child?_eq_some.mpr ⟨owned, rfl⟩)

theorem Node.Within.to_parent (sound : s.Sound) (owned : y.parent? s = some dir) (within : Within s x y) :
    x = y ∨ Within s x dir := by
  obtain ⟨path, reached⟩ := within
  rcases List.eq_nil_or_concat' path with rfl | ⟨front, name, rfl⟩
  · exact .inl (Option.some.inj reached)
  · obtain ⟨holder, before, owned', -⟩ := sound.descend?_concat_eq_some.mp reached
    obtain rfl := Option.some.inj (owned.symm.trans owned')
    exact .inr ⟨front, before⟩

theorem Store.Sound.descend?_child (sound : s.Sound) (owned : y.parent? s = some x) (path : List String) :
    x.descend? s (y.name s :: path) = y.descend? s path := by
  rw [descend?_cons, sound.child?_eq_some.mpr ⟨owned, rfl⟩, Option.bind_some]

theorem Store.Sound.siblings_apart (sound : s.Sound) (owned : x.parent? s = some dir)
    (owned' : y.parent? s = some dir) (within : Within s x z) (within' : Within s y z) : x = y := by
  obtain ⟨path, reached⟩ := within
  obtain ⟨other, reached'⟩ := within'
  have way := (sound.descend?_child owned path).trans reached
  have way' := (sound.descend?_child owned' other).trans reached'
  have same := (List.cons.inj (sound.path_unique way way')).1
  have child := sound.child?_eq_some.mpr ⟨owned, same⟩
  exact Option.some.inj (child.symm.trans (sound.child?_eq_some.mpr ⟨owned', rfl⟩))

theorem Node.Within.antisymm (sound : s.Sound) (within : Within s x y) (back : Within s y x) : x = y := by
  obtain ⟨path, reached⟩ := within
  obtain ⟨rest, further⟩ := back
  have around := (descend?_append_of_reached reached rest).trans further
  obtain ⟨rfl, -⟩ := List.append_eq_nil_iff.mp (sound.no_cycle around)
  exact Option.some.inj reached

theorem Store.Sound.forall_child_iff (sound : s.Sound) {dir : DirectoryId} {holds : Node → Prop} :
    (∀ x, x.parent? s = some (.directory dir) → holds x) ↔
      (∀ file ∈ s.files dir, holds (.file file)) ∧ ∀ sub ∈ s.subdirectories dir, holds (.directory sub) := by
  simp [← sound.mem_children, Node.children, or_imp, forall_and]

theorem Store.Sound.exists_child_iff (sound : s.Sound) {dir : DirectoryId} {holds : Node → Prop} :
    (∃ x, x.parent? s = some (.directory dir) ∧ holds x) ↔
      (∃ file ∈ s.files dir, holds (.file file)) ∨ ∃ sub ∈ s.subdirectories dir, holds (.directory sub) := by
  simp [← sound.mem_children, Node.children, or_and_right, exists_or]

theorem Node.Within.of_file {file : FileId} (within : Within s (.file file) x) : x = .file file := by
  obtain ⟨path, reached⟩ := within
  cases path with
  | nil => exact (Option.some.inj reached).symm
  | cons name rest => cases reached

end Kinship

namespace Store

variable {s s' s'' : Store} {dir : DirectoryId} {files moreFiles : List FileId} {dirs moreDirs : List DirectoryId}

theorem Drops.refl (s : Store) : Drops s s [] [] := ⟨fun other => by simp, fun other => by simp⟩

theorem Drops.trans (first : Drops s s' files dirs) (second : Drops s' s'' moreFiles moreDirs) :
    Drops s s'' (files ++ moreFiles) (dirs ++ moreDirs) := by
  refine ⟨fun other => ?_, fun other => ?_⟩
  · rw [second.fileNode, first.fileNode, Option.map_map]
    by_cases early : other ∈ files <;> by_cases late : other ∈ moreFiles <;>
      simp [early, late, Function.comp_def]
  · rw [second.directoryNode, first.directoryNode, Option.map_map]
    congr 1
    funext node
    by_cases early : other ∈ dirs <;> by_cases late : other ∈ moreDirs <;>
      simp [early, late, List.filter_filter, Bool.and_comm]

theorem Drops.reach (effect : Drops s s' files dirs) : s'.reach = s.reach := by
  have size : s'.directoryNodes.size = s.directoryNodes.size :=
    size_directoryNodes_eq fun other => by rw [effect.directoryNode, Option.map_eq_none_iff]
  rw [Store.reach, Store.reach, size]

end Store

namespace Guarded

/-- No file is deleted from the directory. -/
def KeepsFiles (g : Guarded) (dir : DirectoryId) : Prop :=
  g.store.directoryWritable dir = false ∨ (g.directoryRefusals dir).deleteFile = true

def KeepsSubdirectories (g : Guarded) (dir : DirectoryId) : Prop :=
  g.store.directoryWritable dir = false ∨ (g.directoryRefusals dir).deleteSubdirectory = true

instance (g : Guarded) (dir : DirectoryId) : Decidable (g.KeepsFiles dir) := inferInstanceAs (Decidable (_ ∨ _))

instance (g : Guarded) (dir : DirectoryId) : Decidable (g.KeepsSubdirectories dir) :=
  inferInstanceAs (Decidable (_ ∨ _))

/-- Nodes that cannot be deleted, since their directory keeps them or since they hold what cannot. -/
inductive Survives (g : Guarded) : Node → Prop
  | file {file : FileId} {dir : DirectoryId} (listed : file ∈ g.store.files dir) (keeps : g.KeepsFiles dir) :
      Survives g (.file file)
  | directory {sub dir : DirectoryId} (listed : sub ∈ g.store.subdirectories dir)
      (keeps : g.KeepsSubdirectories dir) : Survives g (.directory sub)
  | holder {x : Node} {dir : DirectoryId} (owned : x.parent? g.store = some (.directory dir))
      (inside : Survives g x) : Survives g (.directory dir)

/-- Of some nodes all those are cut off that nothing keeps, and nothing else is done. -/
structure Prunes (g t : Guarded) (scope : Node → Prop) : Prop where
  rules : SameRules g t
  drops : ∃ files dirs, g.store.Drops t.store files dirs ∧
    (∀ file, file ∈ files ↔ scope (.file file) ∧ ¬ g.Survives (.file file)) ∧
    ∀ sub, sub ∈ dirs ↔ scope (.directory sub) ∧ ¬ g.Survives (.directory sub)

def Clear (g : Guarded) (scope : Node → Prop) (x : Node) : Prop :=
  ∀ y, Within g.store y x ∨ Within g.store x y → ¬ scope y

variable {g t t' : Guarded} {scope more : Node → Prop} {x y : Node} {dir sub : DirectoryId} {file : FileId}

section Survival

theorem survives_file_iff (sound : g.store.Sound) (listed : file ∈ g.store.files dir) :
    g.Survives (.file file) ↔ g.KeepsFiles dir := by
  refine ⟨fun survives => ?_, .file listed⟩
  cases survives with
  | file listed' keeps =>
    have owned := (sound.file_listed file _).mp listed
    rw [(sound.file_listed file _).mp listed'] at owned
    exact Option.some.inj owned ▸ keeps

theorem survives_directory_iff (sound : g.store.Sound) (listed : sub ∈ g.store.subdirectories dir) :
    g.Survives (.directory sub) ↔
      g.KeepsSubdirectories dir ∨ ∃ x, x.parent? g.store = some (.directory sub) ∧ g.Survives x := by
  constructor
  · intro survives
    cases survives with
    | directory listed' keeps =>
      have owned := (sound.directory_listed sub _).mp listed
      rw [(sound.directory_listed sub _).mp listed'] at owned
      exact .inl (Option.some.inj owned ▸ keeps)
    | holder owned inside => exact .inr ⟨_, owned, inside⟩
  · rintro (keeps | ⟨x, owned, inside⟩)
    · exact .directory listed keeps
    · exact .holder owned inside

theorem Survives.of_within (sound : g.store.Sound) (inside : g.Survives y) (within : Within g.store x y) :
    g.Survives x := by
  obtain ⟨path, reached⟩ := within
  induction path using List.reverseRecOn generalizing y with
  | nil => exact Option.some.inj reached ▸ inside
  | append_singleton path name ih =>
    obtain ⟨holder, before, owned, -⟩ := sound.descend?_concat_eq_some.mp reached
    cases holder with
    | file id => cases y <;> simp [Node.parent?] at owned
    | directory id => exact ih (.holder owned inside) before

end Survival

section Clearance

variable {holder : Node}

theorem Clear.child (clear : Clear g scope x) (sound : g.store.Sound) (owned : y.parent? g.store = some x) :
    Clear g scope y := by
  have below : Within g.store x y := .of_parent sound owned
  rintro z (above | inside)
  · rcases above.to_parent sound owned with rfl | above
    · exact clear z (.inr below)
    · exact clear z (.inl above)
  · exact clear z (.inr (below.trans inside))

theorem clear_of_sibling (sound : g.store.Sound) (owned : x.parent? g.store = some holder)
    (owned' : y.parent? g.store = some holder) (apart : x ≠ y) : Clear g (Within g.store x) y := by
  rintro z (above | below) inside
  · exact apart (sound.siblings_apart owned owned' (inside.trans above) (.refl _))
  · exact apart (sound.siblings_apart owned owned' inside below)

theorem Clear.or (clear : Clear g scope x) (also : Clear g more x) : Clear g (fun y => scope y ∨ more y) x :=
  fun y near either => either.elim (clear y near) (also y near)

end Clearance

section Deleting

theorem deleteFile_kept (keeps : g.KeepsFiles dir) (name : String) : g.deleteFile dir name = (false, g) := by
  rw [Guarded.deleteFile]
  split
  · rfl
  · rename_i willing
    rw [replace, Store.deleteFile, if_neg (by simp [keeps.resolve_right willing])]

theorem deleteFile_listed (sound : g.store.Sound) (loose : ¬ g.KeepsFiles dir)
    (listed : file ∈ g.store.files dir) :
    ∃ g', g.deleteFile dir (g.store.fileName file) = (true, g') ∧ SameRules g g' ∧
      g.store.Drops g'.store [file] [] := by
  obtain ⟨open', willing⟩ := not_or.mp loose
  rw [Bool.not_eq_false] at open'
  have found := sound.file?_eq_some.mpr ⟨listed, rfl⟩
  rw [Guarded.deleteFile, if_neg willing]
  rcases sound.deleteFile_drops dir (g.store.fileName file) with refused | ⟨_, after, deleted, also, drops⟩
  · simp [Store.deleteFile, open', found] at refused
  · cases found.symm.trans also
    rw [replace, deleted]
    exact ⟨_, rfl, ⟨rfl, rfl⟩, drops⟩

theorem deleteSubdirectory_kept (keeps : g.KeepsSubdirectories dir) (name : String) :
    g.deleteSubdirectory dir name = (false, g) := by
  rw [Guarded.deleteSubdirectory]
  split
  · rfl
  · rename_i willing
    rw [replace, Store.deleteSubdirectory, if_neg (by simp [keeps.resolve_right willing])]

theorem deleteSubdirectory_listed (sound : g.store.Sound) (loose : ¬ g.KeepsSubdirectories dir)
    (listed : sub ∈ g.store.subdirectories dir) (bare : g.store.holdsNothing sub = true) :
    ∃ g', g.deleteSubdirectory dir (g.store.directoryName sub) = (true, g') ∧ SameRules g g' ∧
      g.store.Drops g'.store [] [sub] := by
  obtain ⟨open', willing⟩ := not_or.mp loose
  rw [Bool.not_eq_false] at open'
  have found := sound.subdirectory?_eq_some.mpr ⟨listed, rfl⟩
  rw [Guarded.deleteSubdirectory, if_neg willing]
  rcases sound.deleteSubdirectory_drops dir (g.store.directoryName sub) with
    refused | ⟨_, after, deleted, also, -, drops⟩
  · simp [Store.deleteSubdirectory, open', found, bare] at refused
  · cases found.symm.trans also
    rw [replace, deleted]
    exact ⟨_, rfl, ⟨rfl, rfl⟩, drops⟩

end Deleting

section Pruning

theorem Prunes.refl (g : Guarded) : Prunes g g fun _ => False :=
  ⟨⟨rfl, rfl⟩, [], [], .refl _, by simp, by simp⟩

theorem Prunes.congr (before : Prunes g t scope) (same : ∀ x, ¬ g.Survives x → (scope x ↔ more x)) :
    Prunes g t more := by
  obtain ⟨rules, files, dirs, drops, fileLost, dirLost⟩ := before
  refine ⟨rules, files, dirs, drops, fun file => ?_, fun sub => ?_⟩
  · rw [fileLost]
    exact and_congr_left (same _)
  · rw [dirLost]
    exact and_congr_left (same _)

theorem Prunes.further (before : Prunes g t scope) {files : List FileId} {dirs : List DirectoryId}
    (rules : SameRules t t') (drops : t.store.Drops t'.store files dirs)
    (fileLost : ∀ file, file ∈ files ↔ more (.file file) ∧ ¬ g.Survives (.file file))
    (dirLost : ∀ sub, sub ∈ dirs ↔ more (.directory sub) ∧ ¬ g.Survives (.directory sub)) :
    Prunes g t' fun x => scope x ∨ more x := by
  obtain ⟨first, earlyFiles, earlyDirs, early, fileGone, dirGone⟩ := before
  refine ⟨first.trans rules, _, _, early.trans drops, fun file => ?_, fun sub => ?_⟩
  · rw [List.mem_append, fileGone, fileLost, or_and_right]
  · rw [List.mem_append, dirGone, dirLost, or_and_right]

theorem Prunes.sound (before : Prunes g t scope) (sound : g.store.Sound) : t.store.Sound := by
  obtain ⟨-, files, dirs, drops, -⟩ := before
  exact drops.sound sound

theorem Prunes.directoryName (before : Prunes g t scope) (dir : DirectoryId) :
    t.store.directoryName dir = g.store.directoryName dir := by
  obtain ⟨-, files, dirs, drops, -⟩ := before
  exact drops.directoryName dir

theorem Prunes.mem_files (before : Prunes g t scope) :
    file ∈ t.store.files dir ↔
      file ∈ g.store.files dir ∧ ¬ (scope (.file file) ∧ ¬ g.Survives (.file file)) := by
  obtain ⟨-, files, dirs, drops, fileLost, -⟩ := before
  rw [drops.files, List.mem_filter, decide_eq_true_iff, fileLost]

theorem Prunes.mem_subdirectories (before : Prunes g t scope) :
    sub ∈ t.store.subdirectories dir ↔
      sub ∈ g.store.subdirectories dir ∧ ¬ (scope (.directory sub) ∧ ¬ g.Survives (.directory sub)) := by
  obtain ⟨-, files, dirs, drops, -, dirLost⟩ := before
  rw [drops.subdirectories, List.mem_filter, decide_eq_true_iff, dirLost]

theorem Prunes.files_eq (before : Prunes g t scope) (kept : ∀ file ∈ g.store.files dir, ¬ scope (.file file)) :
    t.store.files dir = g.store.files dir := by
  obtain ⟨-, files, dirs, drops, fileLost, -⟩ := before
  rw [drops.files, List.filter_eq_self]
  intro file listed
  rw [decide_eq_true_iff, fileLost]
  exact fun lost => kept file listed lost.1

theorem Prunes.subdirectories_eq (before : Prunes g t scope)
    (kept : ∀ sub ∈ g.store.subdirectories dir, ¬ scope (.directory sub)) :
    t.store.subdirectories dir = g.store.subdirectories dir := by
  obtain ⟨-, files, dirs, drops, -, dirLost⟩ := before
  rw [drops.subdirectories, List.filter_eq_self]
  intro sub listed
  rw [decide_eq_true_iff, dirLost]
  exact fun lost => kept sub listed lost.1

theorem Prunes.directoryRefusals (before : Prunes g t scope) (sound : g.store.Sound)
    (above : ∀ x, Within g.store x (.directory dir) → ¬ scope x) :
    t.directoryRefusals dir = g.directoryRefusals dir := by
  obtain ⟨rules, files, dirs, drops, -, dirLost⟩ := before
  have path : t.store.directoryPath dir = g.store.directoryPath dir := by
    rw [Store.directoryPath, Store.directoryPath, drops.reach]
    let line (d : DirectoryId) : Prop := Within g.store (.directory d) (.directory dir)
    have closed : ∀ d parent, line d → g.store.directoryParent? d = some parent → line parent :=
      fun inner parent within owned => (Within.of_parent sound (by simp [Node.parent?, owned])).trans within
    refine Store.directoryPathWithin_congr closed ?_ (Within.refl _) _
    · intro inner within
      refine ⟨drops.directoryName inner, ?_⟩
      rw [drops.directoryParent?, if_neg]
      exact fun lost => above _ within ((dirLost inner).mp lost).1
  rw [Guarded.directoryRefusals, Guarded.directoryRefusals, rules.ofDirectory, path]

theorem Prunes.keepsFiles_iff (before : Prunes g t scope) (sound : g.store.Sound)
    (above : ∀ x, Within g.store x (.directory dir) → ¬ scope x) : t.KeepsFiles dir ↔ g.KeepsFiles dir := by
  have refusals := before.directoryRefusals sound above
  obtain ⟨-, files, dirs, drops, -⟩ := before
  rw [KeepsFiles, KeepsFiles, drops.directoryWritable, refusals]

theorem Prunes.keepsSubdirectories_iff (before : Prunes g t scope) (sound : g.store.Sound)
    (above : ∀ x, Within g.store x (.directory dir) → ¬ scope x) :
    t.KeepsSubdirectories dir ↔ g.KeepsSubdirectories dir := by
  have refusals := before.directoryRefusals sound above
  obtain ⟨-, files, dirs, drops, -⟩ := before
  rw [KeepsSubdirectories, KeepsSubdirectories, drops.directoryWritable, refusals]

theorem Prunes.holdsNothing_iff (before : Prunes g t scope) (sound : g.store.Sound)
    (covered : ∀ x, x.parent? g.store = some (.directory sub) → scope x) :
    t.store.holdsNothing sub = true ↔
      ∀ x, x.parent? g.store = some (.directory sub) → ¬ g.Survives x := by
  obtain ⟨coveredFiles, coveredDirs⟩ := sound.forall_child_iff.mp covered
  have gone : t.store.holdsNothing sub = true ↔
      (∀ file, file ∉ t.store.files sub) ∧ ∀ inner, inner ∉ t.store.subdirectories sub := by
    simp [Store.holdsNothing, List.eq_nil_iff_forall_not_mem]
  rw [gone, sound.forall_child_iff]
  refine and_congr (forall_congr' fun file => ?_) (forall_congr' fun inner => ?_)
  · rw [before.mem_files]
    have covered := coveredFiles file
    tauto
  · rw [before.mem_subdirectories]
    have covered := coveredDirs inner
    tauto

theorem Prunes.parent?_eq_iff (before : Prunes g t scope) (owned : x.parent? g.store = some y)
    (covered : scope x) : x.parent? t.store = x.parent? g.store ↔ g.Survives x := by
  obtain ⟨-, files, dirs, drops, fileLost, dirLost⟩ := before
  cases x with
  | file file =>
    obtain ⟨holder, owned, -⟩ := Option.map_eq_some_iff.mp owned
    by_cases survives : g.Survives (.file file) <;>
      simp [Node.parent?, drops.fileParent?, fileLost, covered, survives, owned]
  | directory sub =>
    obtain ⟨holder, owned, -⟩ := Option.map_eq_some_iff.mp owned
    by_cases survives : g.Survives (.directory sub) <;>
      simp [Node.parent?, drops.directoryParent?, dirLost, covered, survives, owned]

end Pruning

section Removing

open DirectoryView (dropFile dropSubdirectory cleanWithin forEach)

/-- A way to remove nodes tells whether it has removed one, and removes those that nothing keeps. -/
def Removes (g : Guarded) (x : Node) (step : Guarded → Bool × Guarded) : Prop :=
  ∀ t scope, Prunes g t scope → Clear g scope x →
    ((step t).1 = true ↔ ¬ g.Survives x) ∧
      Prunes g (step t).2 fun y => scope y ∨ Within g.store x y

theorem dropFile_removes (sound : g.store.Sound) (listed : file ∈ g.store.files dir) :
    g.Removes (.file file) fun t => dropFile (.direct dir) t (.direct file) := by
  intro t scope before clear
  have owned := sound.file_owned listed
  have above : ∀ x, Within g.store x (.directory dir) → ¬ scope x :=
    fun x within => clear x (.inl (within.trans (.of_parent sound owned)))
  have keeps := before.keepsFiles_iff sound above
  have survives := survives_file_iff sound listed
  show ((t.deleteFile dir (t.store.fileName file)).1 = true ↔ _) ∧
    Prunes g (t.deleteFile dir (t.store.fileName file)).2 _
  by_cases kept : g.KeepsFiles dir
  · rw [deleteFile_kept (keeps.mpr kept)]
    refine ⟨by simp [survives, kept], before.congr fun x lost => ?_⟩
    refine ⟨.inl, fun either => either.resolve_right fun within => ?_⟩
    exact lost (within.of_file ▸ survives.mpr kept)
  · have there : file ∈ t.store.files dir :=
      before.mem_files.mpr ⟨listed, fun lost => clear _ (.inl (.refl _)) lost.1⟩
    obtain ⟨t', deleted, rules, drops⟩ :=
      deleteFile_listed (before.sound sound) (fun still => kept (keeps.mp still)) there
    rw [deleted]
    refine ⟨by simp [survives, kept], before.further rules drops (fun other => ?_) fun inner => ?_⟩
    · rw [List.mem_singleton]
      constructor
      · rintro rfl
        exact ⟨.refl _, fun stays => kept (survives.mp stays)⟩
      · exact fun lost => Node.file.inj lost.1.of_file
    · simp only [List.not_mem_nil, false_iff]
      exact fun lost => by cases lost.1.of_file

theorem forEach_removes {α : Type} (sound : g.store.Sound) (step : Guarded → α → Bool × Guarded)
    (node : α → Node) {items : List α} {holder : Node}
    (owned : ∀ item ∈ items, (node item).parent? g.store = some holder) (distinct : (items.map node).Nodup)
    (each : ∀ item ∈ items, g.Removes (node item) (step · item)) (before : Prunes g t scope)
    (clear : ∀ item ∈ items, Clear g scope (node item)) :
    ((forEach step items t).1 = true ↔ ∀ item ∈ items, ¬ g.Survives (node item)) ∧
      Prunes g (forEach step items t).2 fun y => scope y ∨ ∃ item ∈ items, Within g.store (node item) y := by
  induction items generalizing t scope with
  | nil => exact ⟨by simp [forEach], before.congr (by simp)⟩
  | cons item rest ih =>
    obtain ⟨first, after⟩ := each item List.mem_cons_self t scope before (clear item List.mem_cons_self)
    obtain ⟨apart, others⟩ := List.nodup_cons.mp distinct
    have next : ∀ other ∈ rest, Clear g (fun y => scope y ∨ Within g.store (node item) y) (node other) := by
      intro other listed
      have listed' := List.mem_cons_of_mem item listed
      have different : node item ≠ node other := fun same => apart (same ▸ List.mem_map_of_mem listed)
      exact (clear other listed').or
        (clear_of_sibling sound (owned item List.mem_cons_self) (owned other listed') different)
    obtain ⟨flag, last⟩ := ih (fun other listed => owned other (List.mem_cons_of_mem item listed)) others
      (fun other listed => each other (List.mem_cons_of_mem item listed)) after next
    refine ⟨?_, last.congr fun y _ => ?_⟩
    · simp only [forEach, Bool.and_eq_true, first, flag, List.forall_mem_cons]
    · simp only [List.exists_mem_cons_iff, or_assoc]

/-- A way to empty a directory tells whether nothing in it is left, and removes what nothing keeps. -/
def Empties (g : Guarded) (sub : DirectoryId) (step : Guarded → Bool × Guarded) : Prop :=
  ∀ t scope, Prunes g t scope → Clear g scope (.directory sub) →
    ((step t).1 = true ↔ ∀ x, x.parent? g.store = some (.directory sub) → ¬ g.Survives x) ∧
      Prunes g (step t).2 fun y => scope y ∨ Below g.store (.directory sub) y

theorem Prunes.of_stays (pruned : Prunes g t fun y => scope y ∨ Below g.store (.directory sub) y)
    (survives : g.Survives (.directory sub)) :
    Prunes g t fun y => scope y ∨ Within g.store (.directory sub) y := by
  refine pruned.congr fun y lost => or_congr_right ⟨And.left, fun within => ⟨within, ?_⟩⟩
  rintro rfl
  exact lost survives

theorem Prunes.deleteSubdirectory (after : Prunes g t fun y => scope y ∨ Below g.store (.directory sub) y)
    (sound : g.store.Sound) (clear : Clear g scope (.directory sub)) (listed : sub ∈ g.store.subdirectories dir)
    (bare : ∀ x, x.parent? g.store = some (.directory sub) → ¬ g.Survives x) :
    ((t.deleteSubdirectory dir (g.store.directoryName sub)).1 = true ↔ ¬ g.Survives (.directory sub)) ∧
      Prunes g (t.deleteSubdirectory dir (g.store.directoryName sub)).2
        fun y => scope y ∨ Within g.store (.directory sub) y := by
  have survives : g.Survives (.directory sub) ↔ g.KeepsSubdirectories dir :=
    (survives_directory_iff sound listed).trans
      (or_iff_left fun ⟨x, below, stuck⟩ => bare x below stuck)
  have above : ∀ x, Within g.store x (.directory dir) →
      ¬ (scope x ∨ Below g.store (.directory sub) x) := by
    have owned := sound.directory_owned listed
    rintro x within (early | below)
    · exact clear x (.inl (within.trans (.of_parent sound owned))) early
    · exact below.2 (Within.antisymm sound (within.trans (.of_parent sound owned)) below.1)
  have keeps := after.keepsSubdirectories_iff sound above
  by_cases kept : g.KeepsSubdirectories dir
  · rw [deleteSubdirectory_kept (keeps.mpr kept)]
    exact ⟨by simp [survives, kept], after.of_stays (survives.mpr kept)⟩
  · have lost : ¬ g.Survives (.directory sub) := fun inside => kept (survives.mp inside)
    have there : sub ∈ t.store.subdirectories dir := by
      refine after.mem_subdirectories.mpr ⟨listed, fun gone => ?_⟩
      exact gone.1.elim (clear _ (.inl (.refl _))) fun below => below.2 rfl
    have empty : t.store.holdsNothing sub = true :=
      (after.holdsNothing_iff sound fun x child => .inr ((below_iff sound).mpr ⟨x, child, .refl x⟩)).mpr bare
    obtain ⟨t', deleted, rules, drops⟩ :=
      deleteSubdirectory_listed (after.sound sound) (fun still => kept (keeps.mp still)) there empty
    rw [← after.directoryName sub, deleted]
    have last : Prunes g t' fun y => (scope y ∨ Below g.store (.directory sub) y) ∨ y = .directory sub := by
      refine after.further rules drops (by simp) fun inner => ?_
      simp only [List.mem_singleton, Node.directory.injEq]
      exact ⟨fun same => ⟨same, same ▸ lost⟩, And.left⟩
    refine ⟨by simp [lost], last.congr fun y _ => ?_⟩
    rw [or_assoc]
    refine or_congr_right ⟨?_, fun within => ?_⟩
    · rintro (below | rfl)
      · exact below.1
      · exact .refl _
    · by_cases same : y = .directory sub
      · exact .inr same
      · exact .inl ⟨within, same⟩

theorem dropSubdirectory_removes {depth : Nat} (sound : g.store.Sound) (listed : sub ∈ g.store.subdirectories dir)
    (empties : g.Empties sub fun t => cleanWithin depth t (.direct dir) (g.store.directoryName sub)) :
    g.Removes (.directory sub) fun t => dropSubdirectory depth (.direct dir) t (.direct sub) := by
  intro t scope before clear
  obtain ⟨flag, after⟩ := empties t scope before clear
  simp only [dropSubdirectory, direct_name, stored_store, before.directoryName sub]
  rcases outcome : cleanWithin depth t (.direct dir) (g.store.directoryName sub) with ⟨done, t'⟩
  simp only [outcome] at flag after
  cases done with
  | false =>
    have inside : g.Survives (.directory sub) :=
      (survives_directory_iff sound listed).mpr (.inr (by simpa using flag))
    exact ⟨by simp [inside], after.of_stays inside⟩
  | true => exact after.deleteSubdirectory sound clear listed (flag.mp rfl)

theorem cleanWithin_empties (sound : g.store.Sound) (depth : Nat) (listed : sub ∈ g.store.subdirectories dir)
    (deep : ∀ path inner, (Node.directory sub).descend? g.store path = some (.directory inner) →
      path.length < depth) :
    g.Empties sub fun t => cleanWithin depth t (.direct dir) (g.store.directoryName sub) := by
  induction depth generalizing dir sub with
  | zero => exact absurd (deep [] sub rfl) (Nat.not_lt_zero _)
  | succ depth ih =>
    intro t scope before clear
    have present : t.store.subdirectory? dir (g.store.directoryName sub) = some sub := by
      refine (before.sound sound).subdirectory?_eq_some.mpr ⟨?_, before.directoryName sub⟩
      exact before.mem_subdirectories.mpr ⟨listed, fun lost => clear _ (.inl (.refl _)) lost.1⟩
    -- the files go first, which keeps every subdirectory where it was
    obtain ⟨filesFlag, first⟩ := forEach_removes sound
      (fun t file => dropFile (.direct sub) t (.direct file)) Node.file (fun _ => sound.file_owned)
      ((sound.files_nodup sub).map fun _ _ => Node.file.inj) (fun file inside => dropFile_removes sound inside)
      before fun file inside => clear.child sound (sound.file_owned inside)
    have sameFiles : t.store.files sub = g.store.files sub := before.files_eq fun file inside =>
      clear _ (.inr (.of_parent sound (sound.file_owned inside)))
    have clear' : ∀ inner ∈ g.store.subdirectories sub, Clear g
        (fun y => scope y ∨ ∃ file ∈ g.store.files sub, Within g.store (.file file) y) (.directory inner) := by
      refine fun inner inside => (clear.child sound (sound.directory_owned inside)).or ?_
      rintro y near ⟨file, among, within⟩
      exact clear_of_sibling sound (sound.file_owned among) (sound.directory_owned inside) nofun y near within
    have sameDirs := first.subdirectories_eq fun inner inside => clear' inner inside _ (.inl (.refl _))
    obtain ⟨dirsFlag, second⟩ := forEach_removes sound
      (fun t inner => dropSubdirectory depth (.direct sub) t (.direct inner)) Node.directory
      (fun _ => sound.directory_owned)
      ((sound.subdirectories_nodup sub).map fun _ _ => Node.directory.inj)
      (fun inner inside => dropSubdirectory_removes sound inside
        (ih inside fun path last reached => by
          have further : (Node.directory sub).descend? g.store (g.store.directoryName inner :: path) =
              some (.directory last) := (sound.descend?_child (sound.directory_owned inside) path).trans reached
          exact Nat.lt_of_succ_lt_succ (deep _ last further)))
      first clear'
    have seen : (DirectoryView.direct dir).subdirectory? t (g.store.directoryName sub) = some (.direct sub) := by
      rw [direct_subdirectory?, stored_store, present]
      rfl
    simp only [DirectoryView.cleanWithin_succ depth rfl seen, direct_files, direct_subdirectories,
      DirectoryView.forEach_map, stored_store, sameFiles, sameDirs]
    refine ⟨?_, second.congr fun y _ => ?_⟩
    · rw [Bool.and_eq_true, filesFlag, dirsFlag, sound.forall_child_iff]
    · rw [below_iff sound, sound.exists_child_iff, or_assoc]

end Removing

/-- Below a directory that stays in place which the rules let go is gone, and only there. -/
structure Leaves (g g' : Guarded) (sub : DirectoryId) (scope : Node → Prop) : Prop where
  rules : SameRules g g'
  /-- Nodes of the scope at most come off their directories, and nothing else is different. -/
  drops : ∃ files dirs, g.store.Drops g'.store files dirs ∧ (∀ file ∈ files, scope (.file file)) ∧
    ∀ inner ∈ dirs, scope (.directory inner)
  file_left_iff : ∀ dir file, Within g.store (.directory sub) (.directory dir) → file ∈ g.store.files dir →
    (file ∈ g'.store.files dir ↔ g.KeepsFiles dir)
  directory_left_iff : ∀ dir inner, Within g.store (.directory sub) (.directory dir) →
    inner ∈ g.store.subdirectories dir →
      (inner ∈ g'.store.subdirectories dir ↔ g.KeepsSubdirectories dir ∨
        ∃ x, Below g.store (.directory inner) x ∧ x.parent? g'.store = x.parent? g.store)
  outside : ∀ (top : Node) path, top.descend? g.store path = some (.directory sub) →
    ∀ other, ¬ path <+: other → top.lookup g'.store other = top.lookup g.store other

section Cleaning

open DirectoryView (dropSubdirectory cleanWithin)

theorem below_survives_iff (sound : g.store.Sound) (before : Prunes g t scope)
    (covers : ∀ x, Below g.store (.directory sub) x → scope x) :
    (∃ x, Below g.store (.directory sub) x ∧ x.parent? t.store = x.parent? g.store) ↔
      ∃ x, x.parent? g.store = some (.directory sub) ∧ g.Survives x := by
  constructor
  · rintro ⟨x, below, stays⟩
    obtain ⟨y, owned, within⟩ := (below_iff sound).mp below
    refine ⟨y, owned, Survives.of_within sound ?_ within⟩
    obtain ⟨⟨path, reached⟩, apart⟩ := below
    obtain rfl | ⟨front, name, rfl⟩ := List.eq_nil_or_concat' path
    · exact absurd (Option.some.inj reached).symm apart
    · obtain ⟨holder, -, owned, -⟩ := sound.descend?_concat_eq_some.mp reached
      exact (before.parent?_eq_iff owned (covers x ⟨⟨_, reached⟩, apart⟩)).mp stays
  · rintro ⟨x, owned, survives⟩
    have below := (below_iff sound).mpr ⟨x, owned, .refl x⟩
    exact ⟨x, below, (before.parent?_eq_iff owned (covers x below)).mpr survives⟩

theorem Prunes.leaves (before : Prunes g t scope) (sound : g.store.Sound)
    (covers : ∀ x, Below g.store (.directory sub) x → scope x)
    (inside : ∀ x, scope x → Within g.store (.directory sub) x) : Leaves g t sub scope := by
  have below : ∀ {dir x}, Within g.store (.directory sub) (.directory dir) →
      x.parent? g.store = some (.directory dir) → Below g.store (.directory sub) x := by
    intro dir x within owned
    refine ⟨within.trans (.of_parent sound owned), ?_⟩
    rintro rfl
    have same := Within.antisymm sound within (.of_parent sound owned)
    rw [same] at owned
    cases sound.no_cycle ((sound.descend?_child owned []).trans rfl)
  refine ⟨before.rules, ?_, ?_, ?_, ?_⟩
  · obtain ⟨-, files, dirs, drops, fileLost, dirLost⟩ := before
    exact ⟨files, dirs, drops, fun file lost => ((fileLost file).mp lost).1,
      fun inner lost => ((dirLost inner).mp lost).1⟩
  · intro dir file within listed
    have covered := covers _ (below within (sound.file_owned listed))
    rw [before.mem_files, ← survives_file_iff sound listed]
    tauto
  · intro dir inner within listed
    have lower := below within (sound.directory_owned listed)
    have covered := covers _ lower
    rw [before.mem_subdirectories, below_survives_iff sound before
      fun x deeper => covers x ⟨lower.1.trans deeper.1, ?_⟩, ← survives_directory_iff sound listed]
    · tauto
    · rintro rfl
      exact lower.2 (Within.antisymm sound deeper.1 lower.1)
  · intro top path reached other apart
    obtain ⟨-, files, dirs, drops, fileLost, dirLost⟩ := before
    refine (cuts_of_drops drops).lookup_outside sound (drops.sound sound) reached (fun z lost => ?_) apart
    simp only [List.mem_append, List.mem_map] at lost
    rcases lost with ⟨file, lost, rfl⟩ | ⟨inner, lost, rfl⟩
    · exact inside _ ((fileLost file).mp lost).1
    · exact inside _ ((dirLost inner).mp lost).1

theorem Prunes.subdirectory?_eq_none_iff (before : Prunes g t scope) (sound : g.store.Sound)
    (listed : sub ∈ g.store.subdirectories dir) :
    t.store.subdirectory? dir (g.store.directoryName sub) = none ↔
      scope (.directory sub) ∧ ¬ g.Survives (.directory sub) := by
  have stays : (t.store.subdirectory? dir (g.store.directoryName sub)).isSome ↔
      sub ∈ t.store.subdirectories dir := by
    constructor
    · intro present
      obtain ⟨other, found⟩ := Option.isSome_iff_exists.mp present
      obtain ⟨among, same⟩ := Store.subdirectory?_some found
      rw [before.directoryName] at same
      obtain rfl := sound.directory_name_injective (before.mem_subdirectories.mp among).1 listed same
      exact among
    · intro among
      rw [(before.sound sound).subdirectory?_eq_some.mpr ⟨among, before.directoryName sub⟩]
      rfl
  rw [before.mem_subdirectories] at stays
  rw [← Option.not_isSome_iff_eq_none, stays]
  tauto

/-- Cleaning and deleting a subdirectory take away all that can be taken away, and tell whether that was all. -/
theorem cleaning_exact (g : Guarded) (sound : g.store.Sound) {dir sub : DirectoryId} {name : String}
    (found : g.store.subdirectory? dir name = some sub) :
    (∃ g', (DirectoryView.direct dir).cleanSubdirectory g name = (g'.store.holdsNothing sub, g') ∧
      g'.store.subdirectory? dir name = some sub ∧ Leaves g g' sub (Below g.store (.directory sub))) ∧
    ∃ g', (DirectoryView.direct dir).deleteTree g name = ((g'.store.subdirectory? dir name).isNone, g') ∧
      Leaves g g' sub (Within g.store (.directory sub)) ∧
      (g'.store.subdirectory? dir name = none ↔
        ¬ g.KeepsSubdirectories dir ∧
          ∀ x, Below g.store (.directory sub) x → x.parent? g'.store ≠ x.parent? g.store) := by
  obtain ⟨listed, rfl⟩ := Store.subdirectory?_some found
  have empties := cleanWithin_empties sound g.store.reach listed
    fun path inner reached => sound.length_lt_reach reached
  have clear : Clear g (fun _ => False) (.directory sub) := fun _ _ => id
  have below : ∀ x, x.parent? g.store = some (.directory sub) → Below g.store (.directory sub) x :=
    fun x owned => (below_iff sound).mpr ⟨x, owned, .refl x⟩
  constructor
  · obtain ⟨flag, pruned⟩ := empties g _ (.refl g) clear
    have pruned : Prunes g _ (Below g.store (.directory sub)) := pruned.congr (by simp)
    refine ⟨_, Prod.ext (Bool.eq_iff_iff.mpr ?_) rfl, ?_, pruned.leaves sound (fun _ => id) fun _ => And.left⟩
    · exact flag.trans (pruned.holdsNothing_iff sound below).symm
    · refine (pruned.sound sound).subdirectory?_eq_some.mpr ⟨?_, pruned.directoryName sub⟩
      exact pruned.mem_subdirectories.mpr ⟨listed, fun lost => lost.1.2 rfl⟩
  · obtain ⟨flag, pruned⟩ := dropSubdirectory_removes sound listed empties g _ (.refl g) clear
    have pruned : Prunes g _ (Within g.store (.directory sub)) := pruned.congr (by simp)
    have same : (DirectoryView.direct dir).deleteTree g (g.store.directoryName sub) =
        dropSubdirectory g.store.reach (.direct dir) g (.direct sub) := rfl
    have gone := pruned.subdirectory?_eq_none_iff sound listed
    rw [and_iff_right (Within.refl _)] at gone
    rw [same]
    refine ⟨_, Prod.ext (Bool.eq_iff_iff.mpr ?_) rfl, pruned.leaves sound (fun _ => And.left) fun _ => id, ?_⟩
    · exact flag.trans (gone.symm.trans Option.isNone_iff_eq_none.symm)
    · refine gone.trans ?_
      rw [survives_directory_iff sound listed, ← below_survives_iff sound pruned fun _ => And.left]
      simp only [not_or, not_exists, not_and, ne_eq]

/-- One subdirectory with a read-only directory and one that lets no subdirectory go, and another without. -/
def walled : Guarded where
  store := (Store.empty.plant "root" false
    [.directory "a" [.file "f" [1] false, .directory "b" [.file "g" [2] false] true,
      .directory "c" [.file "h" [3] false, .directory "d" [] false] false] false,
     .directory "e" [.file "i" [4] false, .directory "j" [] false] false]).2
  ofDirectory path := { deleteSubdirectory := path == "root/a/c" }

theorem walled_cleaning :
    (∃ g', (DirectoryView.direct ⟨0⟩).cleanSubdirectory walled "a" = (false, g') ∧
      ⟨0⟩ ∉ g'.store.files ⟨1⟩ ∧ ⟨1⟩ ∈ g'.store.files ⟨2⟩ ∧ ⟨2⟩ ∈ g'.store.subdirectories ⟨1⟩ ∧
        ⟨2⟩ ∉ g'.store.files ⟨3⟩ ∧ ⟨4⟩ ∈ g'.store.subdirectories ⟨3⟩) ∧
    ∃ g', (DirectoryView.direct ⟨0⟩).deleteTree walled "e" = (true, g') ∧
      (Node.file ⟨3⟩).parent? g'.store ≠ some (.directory ⟨5⟩) := by
  have sound : walled.store.Sound := Store.plant_sound Store.empty_sound _ _ _
  obtain ⟨⟨g', cleaned, -, left⟩, -⟩ := cleaning_exact walled sound (by decide +kernel :
    walled.store.subdirectory? ⟨0⟩ "a" = some ⟨1⟩)
  obtain ⟨-, g'', deleted, -, gone⟩ := cleaning_exact walled sound (by decide +kernel :
    walled.store.subdirectory? ⟨0⟩ "e" = some ⟨5⟩)
  have file := left.file_left_iff
  have directory := left.directory_left_iff
  obtain ⟨files, dirs, drops, -⟩ := left.drops
  have inB : ⟨1⟩ ∈ g'.store.files ⟨2⟩ :=
    (file ⟨2⟩ ⟨1⟩ ⟨["b"], by decide +kernel⟩ (by decide +kernel)).mpr (by decide +kernel)
  have b : ⟨2⟩ ∈ g'.store.subdirectories ⟨1⟩ := by
    refine (directory ⟨1⟩ ⟨2⟩ (.refl _) (by decide +kernel)).mpr (.inr ⟨.file ⟨1⟩, ⟨⟨["g"], ?_⟩, by decide⟩, ?_⟩)
    · decide +kernel
    · rw [(drops.sound sound).file_owned inB, sound.file_owned (by decide +kernel : ⟨1⟩ ∈ walled.store.files ⟨2⟩)]
  have whole : (g''.store.subdirectory? ⟨0⟩ "e").isNone = true :=
    (congrArg Prod.fst deleted).symm.trans (by decide +kernel)
  refine ⟨⟨g', ?_, ?_, inB, b, ?_, ?_⟩, g'', by rw [deleted, whole], ?_⟩
  · have occupied : g'.store.holdsNothing ⟨1⟩ = false := by
      simp [Store.holdsNothing, List.ne_nil_of_mem b]
    rw [cleaned, occupied]
  · exact fun stays => absurd ((file ⟨1⟩ ⟨0⟩ (.refl _) (by decide +kernel)).mp stays) (by decide +kernel)
  · exact fun stays =>
      absurd ((file ⟨3⟩ ⟨2⟩ ⟨["c"], by decide +kernel⟩ (by decide +kernel)).mp stays) (by decide +kernel)
  · exact (directory ⟨3⟩ ⟨4⟩ ⟨["c"], by decide +kernel⟩ (by decide +kernel)).mpr (.inl (by decide +kernel))
  · have inside : Below walled.store (.directory ⟨5⟩) (.file ⟨3⟩) := ⟨⟨["i"], by decide +kernel⟩, by decide⟩
    have left := (gone.mp (Option.isNone_iff_eq_none.mp whole)).2 _ inside
    rwa [sound.file_owned (by decide +kernel : ⟨3⟩ ∈ walled.store.files ⟨5⟩)] at left

end Cleaning

end Guarded

end GuestStorage.Memory
