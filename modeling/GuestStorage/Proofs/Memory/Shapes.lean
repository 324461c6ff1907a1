import GuestStorage.Proofs.Memory.Undo

namespace GuestStorage.Tree.DirectoryView

variable {σ F D : Type} [Backing σ F D]

def directoryPaths (s : σ) (dir : DirectoryView D) : Set (List String) :=
  {names | (dir.descend? s names).isSome = true}

/-- The lengths of the files below a directory, by the way to the directory of the file and by its name there. -/
def fileLengths (s : σ) (dir : DirectoryView D) (names : List String) (name : String) : Option Nat :=
  ((dir.descend? s names).bind (·.file? s name)).map (·.size s)

end GuestStorage.Tree.DirectoryView

namespace GuestStorage.Memory

open GuestStorage.Tree Node
open Stored (store)

section Paths

variable {σ : Type} [Backing σ FileId DirectoryId] [Stored σ] {t t' : σ} {a b : DirectoryView DirectoryId}
  {names : List String}

theorem mem_directoryPaths : names ∈ a.directoryPaths t ↔
    (Node.directory a.node).outline? (store t) names = some none := by
  rw [DirectoryView.directoryPaths, Set.mem_ofPred_eq, Option.isSome_iff_exists, outline?, content?, lookup,
    Option.map_map, Option.map_map, Option.map_eq_some_iff]
  constructor
  · rintro ⟨dir, reached⟩
    exact ⟨_, ((view_descend?_eq_some t).mp reached).2, rfl⟩
  · rintro ⟨x, reached, shown⟩
    cases x with
    | file file => cases shown
    | directory dir => exact ⟨⟨dir, a.readOnly⟩, (view_descend?_eq_some t).mpr ⟨rfl, reached⟩⟩

theorem fileLengths_eq_some {name : String} {length : Nat} (sound : (store t).Sound) :
    a.fileLengths t names name = some length ↔
      (Node.directory a.node).outline? (store t) (names ++ [name]) = some (some length) := by
  rw [DirectoryView.fileLengths, Option.map_eq_some_iff]
  simp only [Option.bind_eq_some_iff]
  rw [outline?, content?, lookup, Option.map_map, Option.map_map, Option.map_eq_some_iff]
  constructor
  · rintro ⟨view, ⟨dir, reached, found⟩, rfl⟩
    rw [DirectoryView.file?, Stored.file?, Option.map_eq_some_iff] at found
    obtain ⟨file, found, rfl⟩ := found
    refine ⟨.file file, ?_, ?_⟩
    · rw [descend?_concat_of_reached ((view_descend?_eq_some t).mp reached).2]
      exact sound.child?_file_eq_some.mpr found
    · rw [FileView.size, Stored.fileSize]
      rfl
  · rintro ⟨x, reached, shown⟩
    cases x with
    | directory dir => cases shown
    | file file =>
      obtain ⟨holder, above, owned, named⟩ := sound.holder_of_descend?_concat reached
      refine ⟨⟨file, a.readOnly⟩, ⟨⟨holder, a.readOnly⟩, (view_descend?_eq_some t).mpr ⟨rfl, above⟩, ?_⟩, ?_⟩
      · rw [DirectoryView.file?, Stored.file?,
          sound.child?_file_eq_some.mp (sound.child?_eq_some.mpr ⟨owned, named⟩)]
        rfl
      · rw [FileView.size, Stored.fileSize]
        exact Option.some.inj shown

/-- What names and sizes tell of a directory is which directories are below it and which lengths its files have. -/
theorem alike_iff (sound : (store t).Sound) : (Node.directory a.node).Alike (store t) (.directory b.node) ↔
    a.directoryPaths t = b.directoryPaths t ∧ a.fileLengths t = b.fileLengths t := by
  constructor
  · intro alike
    refine ⟨Set.ext fun names => ?_, funext fun names => funext fun name => Option.ext fun length => ?_⟩
    · rw [mem_directoryPaths, mem_directoryPaths, alike]
    · rw [fileLengths_eq_some sound, fileLengths_eq_some sound, alike]
  · rintro ⟨directories, files⟩ path
    ext shown
    cases shown with
    | none => rw [← mem_directoryPaths, directories, mem_directoryPaths]
    | some length =>
      rcases List.eq_nil_or_concat' path with rfl | ⟨names, name, rfl⟩
      · exact ⟨nofun, nofun⟩
      · rw [← fileLengths_eq_some sound, files, fileLengths_eq_some sound]

theorem sameShape_iff (sound : (store t).Sound) : a.sameShape t b = true ↔
    a.directoryPaths t = b.directoryPaths t ∧ a.fileLengths t = b.fileLengths t :=
  (sameShape_iff_alike sound).trans (alike_iff sound)

theorem sameShape_equivalence (sound : (store t).Sound) :
    Equivalence fun a b : DirectoryView DirectoryId => a.sameShape t b = true where
  refl _ := (sameShape_iff sound).mpr ⟨rfl, rfl⟩
  symm same :=
    have ⟨directories, files⟩ := (sameShape_iff sound).mp same
    (sameShape_iff sound).mpr ⟨directories.symm, files.symm⟩
  trans first second :=
    have ⟨directories, files⟩ := (sameShape_iff sound).mp first
    have ⟨directories', files'⟩ := (sameShape_iff sound).mp second
    (sameShape_iff sound).mpr ⟨directories.trans directories', files.trans files'⟩

end Paths

section Relisting

/-- The same trees, with what is in each directory listed in any order. -/
structure Relists (s s' : Store) : Prop where
  fileNode : ∀ file, s'.fileNode? file = s.fileNode? file
  directoryName : ∀ dir, s'.directoryName dir = s.directoryName dir
  directoryParent? : ∀ dir, s'.directoryParent? dir = s.directoryParent? dir
  files : ∀ dir, (s'.files dir).Perm (s.files dir)
  subdirectories : ∀ dir, (s'.subdirectories dir).Perm (s.subdirectories dir)

variable {s s' : Store} (relists : Relists s s')
include relists

theorem Relists.name (x : Node) : x.name s' = x.name s := by
  cases x with
  | file file => exact Store.fileName_of_node (relists.fileNode file)
  | directory dir => exact relists.directoryName dir

theorem Relists.parent? (x : Node) : x.parent? s' = x.parent? s := by
  cases x with
  | file file => rw [Node.parent?, Node.parent?, Store.fileParent?_of_node (relists.fileNode file)]
  | directory dir => rw [Node.parent?, Node.parent?, relists.directoryParent?]

theorem Relists.children (x : Node) : (x.children s').Perm (x.children s) := by
  cases x with
  | file file => exact .refl _
  | directory dir => exact ((relists.files dir).map _).append ((relists.subdirectories dir).map _)

theorem Relists.sound (sound : s.Sound) : s'.Sound := by
  refine Store.sound_of_nodes (fun x y => ?_) (fun x => ?_) ?_
  · rw [(relists.children x).mem_iff, sound.mem_children, relists.parent?]
  · have names : Node.name s' = Node.name s := funext relists.name
    rw [names]
    exact ((relists.children x).map _).nodup_iff.mpr (sound.children_names_nodup x)
  · obtain ⟨rank, grows⟩ := sound.node_ranked
    exact ⟨rank, fun x y owned => grows x y (relists.parent? y ▸ owned)⟩

theorem Relists.outline? (sound : s.Sound) (x : Node) (path : List String) : x.outline? s' path = x.outline? s path := by
  have found : x.descend? s' path = x.descend? s path := by
    refine descend?_congr fun _ name y _ _ => Option.ext fun z => ?_
    rw [(relists.sound sound).child?_eq_some, sound.child?_eq_some, relists.parent?, relists.name]
  rw [Node.outline?, content?, lookup, found, Node.outline?, content?, lookup]
  cases x.descend? s path with
  | none => rfl
  | some y =>
    cases y with
    | directory dir => rfl
    | file file => simp [Node.entry, Store.fileBytes_of_node (relists.fileNode file)]

end Relisting

variable {σ : Type} [Backing σ FileId DirectoryId] [Stored σ] {t t' : σ} in
theorem Relists.sameShape (relists : Relists (store t) (store t')) (sound : (store t).Sound)
    (a b : DirectoryView DirectoryId) : a.sameShape t' b = a.sameShape t b := by
  rw [Bool.eq_iff_iff, sameShape_iff_alike (relists.sound sound), sameShape_iff_alike sound]
  simp only [Node.Alike, relists.outline? sound]

theorem Node.Below.of_within {s : Store} {x y z : Node} {name : String} (sound : s.Sound) (within : Within s x y)
    (found : y.child? s name = some z) : Below s x z := by
  refine ⟨within.child found, ?_⟩
  rintro rfl
  obtain ⟨path, reached⟩ := within
  have around : z.descend? s (path ++ [name]) = some z := (descend?_concat_of_reached reached name).trans found
  cases List.append_ne_nil_of_right_ne_nil path (List.cons_ne_nil name []) (sound.no_cycle around)

theorem Store.Sound.within_or_within {s : Store} {x y z : Node} {path other : List String} (sound : s.Sound)
    (reached : x.descend? s path = some z) (also : y.descend? s other = some z) : Within s x y ∨ Within s y x := by
  induction path using List.reverseRecOn generalizing other z with
  | nil =>
    obtain rfl := Option.some.inj reached
    exact .inr ⟨other, also⟩
  | append_singleton path name ih =>
    rcases List.eq_nil_or_concat' other with rfl | ⟨front, last, rfl⟩
    · obtain rfl := Option.some.inj also
      exact .inl ⟨_, reached⟩
    · obtain ⟨holder, above, owned, -⟩ := sound.descend?_concat_eq_some.mp reached
      obtain ⟨holder', above', owned', -⟩ := sound.descend?_concat_eq_some.mp also
      obtain rfl := Option.some.inj (owned.symm.trans owned')
      exact ih above above'

namespace Guarded

/-- A run of deletions of single files and of empty directories in or below a directory, each of them carried out or
    refused. -/
inductive Deletions (top : DirectoryId) (g : Guarded) : Guarded → Prop
  | refl : Deletions top g g
  | file {g' : Guarded} {dir : DirectoryId} (name : String) (before : Deletions top g g')
      (inside : Within g'.store (.directory top) (.directory dir)) : Deletions top g (g'.deleteFile dir name).2
  | directory {g' : Guarded} {dir : DirectoryId} (name : String) (before : Deletions top g g')
      (inside : Within g'.store (.directory top) (.directory dir)) : Deletions top g (g'.deleteSubdirectory dir name).2

/-- What pruning does: what is lost was below the directory, and where nothing is lost, nothing is different. -/
structure Pruned (top : DirectoryId) (g g' : Guarded) (lost : List Node) : Prop where
  sound : g'.store.Sound
  cuts : Cuts g.store g'.store lost
  below : ∀ z ∈ lost, Below g.store (.directory top) z
  intact : lost = [] → g' = g

section Pruning

variable {g g' g'' : Guarded} {top dir : DirectoryId} {lost : List Node}

theorem Pruned.cut (before : Pruned top g g' lost) (sound : g.store.Sound) {x : Node} {name : String}
    (inside : Within g'.store (.directory top) (.directory dir))
    (found : (Node.directory dir).child? g'.store name = some x) (sound'' : g''.store.Sound)
    (cuts : Cuts g'.store g''.store [x]) : Pruned top g g'' (lost ++ [x]) := by
  refine ⟨sound'', before.cuts.trans cuts, fun z gone => ?_, by simp⟩
  rcases List.mem_append.mp gone with early | late
  · exact before.below z early
  · obtain rfl := List.mem_singleton.mp late
    have inside := before.cuts.within sound before.sound inside
    have found := ((before.cuts.child?_eq_some sound before.sound).mp found).1
    exact .of_within sound inside found

theorem Deletions.pruned (run : Deletions top g g') (sound : g.store.Sound) : ∃ lost, Pruned top g g' lost := by
  induction run with
  | refl => exact ⟨[], sound, Cuts.refl _, by simp, fun _ => rfl⟩
  | @file g' dir name _ inside ih =>
    obtain ⟨lost, before⟩ := ih
    obtain ⟨g'', ⟨refused, -⟩ | ⟨file, deleted, sound'', found, cuts⟩⟩ := direct_deleteFile (s := g') before.sound dir name
    · have refused : g'.deleteFile dir name = (false, g'') := refused
      rw [refused]
      exact ⟨lost, deleteFile_refused refused ▸ before⟩
    · have deleted : g'.deleteFile dir name = (true, g'') := deleted
      rw [deleted]
      exact ⟨_, before.cut sound inside found sound'' cuts⟩
  | @directory g' dir name _ inside ih =>
    obtain ⟨lost, before⟩ := ih
    obtain ⟨g'', ⟨refused, -⟩ | ⟨sub, deleted, sound'', found, -, cuts⟩⟩ :=
      direct_deleteSubdirectory (s := g') before.sound dir name
    · have refused : g'.deleteSubdirectory dir name = (false, g'') := refused
      rw [refused]
      exact ⟨lost, deleteSubdirectory_refused refused ▸ before⟩
    · have deleted : g'.deleteSubdirectory dir name = (true, g'') := deleted
      rw [deleted]
      exact ⟨_, before.cut sound inside found sound'' cuts⟩

theorem Pruned.lookup_apart (pruned : Pruned top g g' lost) (sound : g.store.Sound) {x : Node}
    (apart : ¬ Within g.store (.directory top) x) (outside : ¬ Within g.store x (.directory top))
    (path : List String) : x.lookup g'.store path = x.lookup g.store path := by
  refine pruned.cuts.lookup_kept sound pruned.sound fun front z _ _ there gone => ?_
  obtain ⟨⟨rest, down⟩, -⟩ := pruned.below z gone
  rcases sound.within_or_within there down with within | within
  · exact outside within
  · exact apart within

theorem Deletions.eq_of_sameShape {c copy : DirectoryId} (sound : g.store.Sound)
    (held : (Node.directory c).held g.store = true) (present : (Node.directory copy).held g.store = true)
    (apart : ¬ Within g.store (.directory c) (.directory copy))
    (bare : ∀ name, (Node.directory copy).child? g.store name = none)
    (copied : (DirectoryView.direct c).copyTree g (.direct copy) = (true, g')) (run : Deletions c g' g'')
    (same : (DirectoryView.direct c).sameShape g'' (.direct copy) = true) :
    g'' = g' ∧ ∀ path, (Node.directory c).lookup g''.store path = (Node.directory c).lookup g.store path := by
  obtain ⟨complete, g₁, again, sound₁, grown, whole⟩ :=
    copyTreeWithin_copies (Backing.reach g c) g c copy sound held present apart bare
  cases copied.symm.trans again
  have still : ∀ path, (Node.directory c).lookup g'.store path = (Node.directory c).lookup g.store path :=
    grown.lookup_apart sound sound₁ held apart
  have alsoApart : ¬ Within g'.store (.directory c) (.directory copy) :=
    fun within => apart (grown.within sound sound₁ present within)
  -- nothing that was there can stand in the copy, which was empty
  have outside : ¬ Within g'.store (.directory copy) (.directory c) := by
    intro within
    obtain ⟨path, reached⟩ : Within g.store (.directory copy) (.directory c) := grown.within sound sound₁ held within
    cases path with
    | nil => exact apart ⟨[], Option.some.inj reached ▸ rfl⟩
    | cons name rest =>
      rw [descend?_cons, bare] at reached
      cases reached
  obtain ⟨lost, pruned⟩ := run.pruned sound₁
  have equal : ∀ path, (Node.directory copy).content? g''.store path = (Node.directory c).content? g'.store path := by
    intro path
    rw [content?_of_lookup (pruned.lookup_apart sound₁ alsoApart outside path), content?_of_lookup (still path)]
    cases path with
    | nil => rfl
    | cons name rest => exact content?_of_opened (whole rfl name rest)
  have none : lost = [] := List.eq_nil_iff_forall_not_mem.mpr fun z gone =>
    sameShapeWithin_complete (t := g'') _ sound₁ pruned.sound pruned.cuts equal same z gone (pruned.below z gone)
  obtain rfl := pruned.intact none
  exact ⟨rfl, still⟩

end Pruning

/-- Comparing directories in memory. It tells whether the same paths lead to directories and to files of the same
    lengths, so that it is an equivalence and no listing has to be in any order. A directory that was copied into an
    empty one apart from it, and from which things were deleted since, has the shape of the copy only when nothing was
    deleted: then it shows at each path, byte for byte, what was there when it was copied. -/
theorem shapes_exact (g : Guarded) (sound : g.store.Sound) :
    (∀ a b : DirectoryView DirectoryId, a.sameShape g b = true ↔
      a.directoryPaths g = b.directoryPaths g ∧ a.fileLengths g = b.fileLengths g) ∧
    (Equivalence fun a b : DirectoryView DirectoryId => a.sameShape g b = true) ∧
    (∀ g' : Guarded, Relists g.store g'.store → ∀ a b : DirectoryView DirectoryId,
      a.sameShape g' b = a.sameShape g b) ∧
    ∀ (c copy : DirectoryId) (g' g'' : Guarded), (Node.directory c).held g.store = true →
      (Node.directory copy).held g.store = true → ¬ Within g.store (.directory c) (.directory copy) →
      (∀ name, (Node.directory copy).child? g.store name = none) →
      (DirectoryView.direct c).copyTree g (.direct copy) = (true, g') → Deletions c g' g'' →
      (DirectoryView.direct c).sameShape g'' (.direct copy) = true →
        g'' = g' ∧ ∀ path, (Node.directory c).lookup g''.store path = (Node.directory c).lookup g.store path := by
  refine ⟨fun a b => sameShape_iff (t := g) sound, sameShape_equivalence (t := g) sound, ?_, ?_⟩
  · intro g' relists a b
    have relists : Relists (store g) (store g') := relists
    exact relists.sameShape sound a b
  · exact fun c copy g' g'' held present apart bare copied run same =>
      run.eq_of_sameShape sound held present apart bare copied same

def stuckCopy : Guarded := ((DirectoryView.direct ⟨1⟩).copyTree stuckTree (.direct ⟨3⟩)).2

theorem stuckTree_shapes :
    stuckTree.store.Sound ∧
      (DirectoryView.direct ⟨1⟩).sameShape (stuckCopy.deleteFile ⟨2⟩ "g").2 (.direct ⟨3⟩) = true ∧
      (stuckCopy.deleteFile ⟨2⟩ "g").2 = stuckCopy ∧
      (DirectoryView.direct ⟨1⟩).sameShape (stuckCopy.deleteFile ⟨1⟩ "f").2 (.direct ⟨3⟩) = false := by
  have sound : stuckTree.store.Sound := Store.plant_sound Store.empty_sound _ _ _
  have same : (DirectoryView.direct ⟨1⟩).sameShape (stuckCopy.deleteFile ⟨2⟩ "g").2 (.direct ⟨3⟩) = true := by
    decide +kernel
  have apart : ¬ Within stuckTree.store (.directory ⟨1⟩) (.directory ⟨3⟩) := by
    rintro ⟨path, reached⟩
    have long : (Node.directory ⟨0⟩).descend? stuckTree.store ("a" :: path) = some (.directory ⟨3⟩) := reached
    have short : (Node.directory ⟨0⟩).descend? stuckTree.store ["b"] = some (.directory ⟨3⟩) := by decide +kernel
    exact absurd (List.cons.inj (sound.path_unique long short)).1 (by decide)
  have bare : stuckTree.store.childNames ⟨3⟩ = [] := by decide +kernel
  refine ⟨sound, same, ?_, by decide +kernel⟩
  exact ((shapes_exact stuckTree sound).2.2.2 ⟨1⟩ ⟨3⟩ stuckCopy _ (by decide +kernel) (by decide +kernel) apart
    (fun name => child?_eq_none_iff.mpr (by simp [bare])) (Prod.ext (by decide +kernel) rfl)
    (.file "g" .refl ⟨["deep"], by decide +kernel⟩) same).1

end Guarded

end GuestStorage.Memory
