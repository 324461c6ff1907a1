import GuestStorage.Proofs.Memory.Compare
import GuestStorage.Proofs.Memory.Copy
import GuestStorage.Proofs.Memory.Depth

namespace GuestStorage.Memory

open GuestStorage.Tree Node Store

variable {s s' : Store} {x y : Node} {dir inner sub : DirectoryId} {file : FileId} {name : String}
  {depth : Nat} {lost : List Node}

section Single

theorem acceptsChild_of_free (writable : s.directoryWritable dir = true) (proper : name ≠ "")
    (free : (Node.directory dir).child? s name = none) : s.acceptsChild dir name = true := by
  have untaken : s.hasChild dir name = false := by
    rw [child?_eq_none_iff, ← hasChild_iff] at free
    simpa using free
  rw [acceptsChild, writable, untaken]
  simpa using proper

variable (sound : s.Sound)
include sound

theorem createFile_accepted (writable : s.directoryWritable dir = true) (proper : name ≠ "")
    (free : (Node.directory dir).child? s name = none) :
    ∃ new s', (DirectoryView.direct dir).createFile s name = (some (.direct new), s') ∧ s'.Sound ∧
      Adds s s' (.directory dir) (.file new) name ⟨.file [], true⟩ := by
  have accepts := acceptsChild_of_free writable proper free
  obtain ⟨new, s', created, effect⟩ := createFile_adds accepts
  refine ⟨new, s', ?_, effect.sound sound (free_of_accepts accepts), adds_file effect⟩
  simp [DirectoryView.createFile, DirectoryView.direct, Backing.createFile, created]

theorem createSubdirectory_accepted (writable : s.directoryWritable dir = true) (proper : name ≠ "")
    (free : (Node.directory dir).child? s name = none) :
    ∃ new s', (DirectoryView.direct dir).createSubdirectory s name = (some (.direct new), s') ∧
      s'.Sound ∧ Adds s s' (.directory dir) (.directory new) name ⟨.directory, true⟩ := by
  have accepts := acceptsChild_of_free writable proper free
  obtain ⟨new, s', created, effect⟩ := createSubdirectory_adds accepts
  refine ⟨new, s', ?_, effect.sound sound (free_of_accepts accepts), adds_directory effect⟩
  simp [DirectoryView.createSubdirectory, DirectoryView.direct, Backing.createSubdirectory, created]

theorem resize_accepted (writable : s.fileWritable file = true) (size : Nat) :
    ∃ s', (FileView.direct file).resize s size = (true, s') ∧ s'.Sound ∧
      Refills s s' (.file file) ⟨.file ((s.fileBytes file).resize size), true⟩ := by
  have held : (Node.file file).held s = true := by
    cases node : s.fileNode? file with
    | none => simp [fileWritable, node] at writable
    | some node => simp [Node.held, *]
  obtain ⟨s', ⟨refused, -⟩ | ⟨resized, sound', fills⟩⟩ := direct_resize (s := s) sound file held size
  · simp [FileView.resize, FileView.direct, Backing.resize, Store.resize, writable] at refused
  · exact ⟨s', resized, sound', writable ▸ fills⟩

theorem write_accepted (writable : s.fileWritable file = true) {data : Bytes}
    (short : data.length < endLimit) :
    ∃ s', (FileView.direct file).write s 0 data = (data.length, s') ∧ s'.Sound ∧
      Refills s s' (.file file) ⟨.file ((s.fileBytes file).overwrite 0 data), true⟩ := by
  have held : (Node.file file).held s = true := by
    cases node : s.fileNode? file with
    | none => simp [fileWritable, node] at writable
    | some node => simp [Node.held, *]
  have effect := modifyFile_fills s file (·.overwrite 0 data)
  refine ⟨_, ?_, effect.sound sound, writable ▸ refills_file effect held⟩
  simp [FileView.write, FileView.direct, Backing.write, Store.write, writable, short]

theorem create_filled (writable : s.directoryWritable dir = true) (proper : name ≠ "")
    (free : (Node.directory dir).child? s name = none) {data : Bytes} (short : data.length < endLimit) :
    ∃ new s₁ s₂ s', (DirectoryView.direct dir).createFile s name = (some (.direct new), s₁) ∧
      (FileView.direct new).resize s₁ data.length = (true, s₂) ∧
      (FileView.direct new).write s₂ 0 data = (data.length, s') ∧ s'.Sound ∧
      Adds s s' (.directory dir) (.file new) name ⟨.file data, true⟩ := by
  obtain ⟨new, s₁, created, sound₁, adds⟩ := createFile_accepted sound writable proper free
  obtain ⟨s₂, resized, sound₂, sizes⟩ := resize_accepted sound₁ adds.fileWritable data.length
  obtain ⟨s', wrote, sound', writes⟩ := write_accepted sound₂ sizes.fileWritable short
  refine ⟨new, s₁, s₂, s', created, resized, wrote, sound', ?_⟩
  have whole := (adds.refilled sizes).refilled writes
  rwa [sizes.fileBytes, Bytes.overwrite_whole (by simp)] at whole

theorem deleteFile_accepted (writable : s.directoryWritable dir = true)
    (found : (Node.directory dir).child? s name = some (.file file)) :
    ∃ s', (DirectoryView.direct dir).deleteFile s name = (true, s') ∧ s'.Sound ∧
      Cuts s s' [.file file] := by
  have there := sound.child?_file_eq_some.mp found
  rcases sound.deleteFile_drops dir name with refused | ⟨other, s', deleted, same, effect⟩
  · simp [Store.deleteFile, writable, there] at refused
  · obtain rfl := Option.some.inj (there.symm.trans same)
    exact ⟨s', deleted, effect.sound sound, cuts_of_drops effect⟩

theorem deleteSubdirectory_accepted (writable : s.directoryWritable dir = true)
    (found : (Node.directory dir).child? s name = some (.directory sub))
    (bare : ∀ name, (Node.directory sub).child? s name = none) :
    ∃ s', (DirectoryView.direct dir).deleteSubdirectory s name = (true, s') ∧ s'.Sound ∧
      Cuts s s' [.directory sub] := by
  have there := child?_directory_eq_some.mp found
  have childless : (Node.directory sub).children s = [] := by
    rw [List.eq_nil_iff_forall_not_mem]
    intro y listed
    have inside := sound.child?_eq_some.mpr ⟨sound.mem_children.mp listed, rfl⟩
    simp [bare] at inside
  have empty : s.holdsNothing sub = true := by
    simpa [holdsNothing, Node.children] using childless
  rcases sound.deleteSubdirectory_drops dir name with refused | ⟨other, s', deleted, same, -, effect⟩
  · simp [Store.deleteSubdirectory, writable, there, empty] at refused
  · obtain rfl := Option.some.inj (there.symm.trans same)
    exact ⟨s', deleted, effect.sound sound, cuts_of_drops effect⟩

theorem deleteSubdirectory_full {other : String}
    (found : (Node.directory dir).child? s name = some (.directory sub))
    (inside : (Node.directory sub).child? s other = some y) :
    (DirectoryView.direct dir).deleteSubdirectory s name = (false, s) := by
  have there := child?_directory_eq_some.mp found
  have listed := sound.mem_children.mpr (sound.child?_eq_some.mp inside).1
  have full : s.holdsNothing sub = false := by
    by_contra empty
    rw [Bool.not_eq_false] at empty
    have childless : (Node.directory sub).children s = [] := by
      simpa [holdsNothing, Node.children] using empty
    simp [childless] at listed
  simp [DirectoryView.deleteSubdirectory, DirectoryView.direct, Backing.deleteSubdirectory,
    Store.deleteSubdirectory, there, full]

theorem rename_file_accepted {old : String} (writable : s.fileWritable file = true) (proper : name ≠ "")
    (found : (Node.directory dir).child? s old = some (.file file))
    (free : (Node.directory dir).child? s name = none) :
    ∃ s', (FileView.direct file).rename s name = (some (.direct file), s') ∧ s'.Sound ∧
      Renames s s' (.file file) name := by
  have owned := (sound.child?_eq_some.mp found).1
  have parent : s.fileParent? file = some dir := by simpa [Node.parent?] using owned
  have isFree : s.nameIsFree (s.fileParent? file) name = true := by
    rw [parent, nameIsFree_some, ← child?_eq_none_iff]
    exact free
  rcases s.renameFile_renames file name with refused | ⟨s', renamed, -, -, effect⟩
  · simp [renameFile, writable, proper, isFree] at refused
  · refine ⟨s', ?_, effect.sound sound isFree, renames_file effect (sound.parent_held owned).2⟩
    simp [FileView.rename, FileView.direct, Backing.renameFile, renamed]

theorem rename_directory_accepted {old : String} (writable : s.directoryWritable sub = true)
    (proper : name ≠ "") (found : (Node.directory dir).child? s old = some (.directory sub))
    (free : (Node.directory dir).child? s name = none) :
    ∃ s', (DirectoryView.direct sub).rename s name = (some (.direct sub), s') ∧ s'.Sound ∧
      Renames s s' (.directory sub) name := by
  have owned := (sound.child?_eq_some.mp found).1
  have parent : s.directoryParent? sub = some dir := by simpa [Node.parent?] using owned
  have isFree : s.nameIsFree (s.directoryParent? sub) name = true := by
    rw [parent, nameIsFree_some, ← child?_eq_none_iff]
    exact free
  rcases s.renameDirectory_renames sub name with refused | ⟨s', renamed, -, -, effect⟩
  · simp [renameDirectory, writable, proper, isFree] at refused
  · refine ⟨s', ?_, effect.sound sound isFree, renames_directory effect (sound.parent_held owned).2⟩
    simp [DirectoryView.rename, DirectoryView.direct, Backing.renameDirectory, renamed]

end Single

/-- Everything in a node accepts changes and can be made anew elsewhere, and its directories lie less
    than a depth below it. -/
def Pliable (s : Store) (x : Node) (depth : Nat) : Prop :=
  ∀ path entry, x.lookup s path = some entry → entry.writable = true ∧ "" ∉ path ∧
    (∀ bytes, entry.content = .file bytes → bytes.length < endLimit) ∧
    (entry.content = .directory → path.length < depth)

namespace Pliable

theorem child (pliable : Pliable s x (depth + 1)) (found : x.child? s name = some y) :
    Pliable s y depth := by
  intro path entry shown
  have below : x.lookup s (name :: path) = some entry := by
    rw [lookup_cons, found]
    exact shown
  obtain ⟨writable, named, short, near⟩ := pliable _ entry below
  refine ⟨writable, fun empty => named (List.mem_cons_of_mem name empty), short, fun kind => ?_⟩
  exact Nat.lt_of_succ_lt_succ (near kind)

theorem name_ne (pliable : Pliable s x depth) (found : x.child? s name = some y) : name ≠ "" := by
  have shown : x.lookup s [name] = some (y.entry s) := by
    rw [lookup_cons, found]
    rfl
  rintro rfl
  exact (pliable _ _ shown).2.1 List.mem_cons_self

theorem directoryWritable (pliable : Pliable s (.directory dir) depth) :
    s.directoryWritable dir = true := (pliable [] _ rfl).1

theorem length_lt (pliable : Pliable s (.file file) depth) : (s.fileBytes file).length < endLimit :=
  (pliable [] _ rfl).2.2.1 _ rfl

theorem of_lookup (pliable : Pliable s x depth) (same : ∀ path, x.lookup s' path = x.lookup s path) :
    Pliable s' x depth := by
  intro path entry shown
  rw [same] at shown
  exact pliable path entry shown

theorem cuts (pliable : Pliable s x depth) (sound : s.Sound) (sound' : s'.Sound)
    (effect : Cuts s s' lost) : Pliable s' x depth := by
  intro path entry shown
  obtain ⟨z, reached, rfl⟩ := Option.map_eq_some_iff.mp shown
  have before := ((effect.descend?_eq_some sound sound').mp reached).1
  rw [effect.entry]
  exact pliable path _ (by rw [Node.lookup, before]; rfl)

theorem clears {allowed : Node → Prop} (pliable : Pliable s x depth) (sound : s.Sound)
    (effect : Clears s s' allowed) : Pliable s' x depth := by
  obtain ⟨sound', lost, cuts, -⟩ := effect
  exact pliable.cuts sound sound' cuts

theorem of_reach (sound : s.Sound) (open' : ∀ path entry, x.lookup s path = some entry →
      entry.writable = true ∧ "" ∉ path ∧ ∀ bytes, entry.content = .file bytes → bytes.length < endLimit) :
    Pliable s x s.reach := by
  intro path entry shown
  obtain ⟨writable, named, short⟩ := open' path entry shown
  refine ⟨writable, named, short, fun kind => ?_⟩
  obtain ⟨z, reached, rfl⟩ := Option.map_eq_some_iff.mp shown
  cases z with
  | file file => cases kind
  | directory sub =>
    have bound := sound.length_lt_size (held_of_writable writable) reached
    rw [reach]
    omega

end Pliable

section Cleaning

theorem Store.Sound.sibling_apart (sound : s.Sound) (owned : x.parent? s = some (.directory dir))
    (also : y.parent? s = some (.directory dir)) : ¬ Below s x y := by
  rintro ⟨⟨path, reached⟩, apart⟩
  rcases List.eq_nil_or_concat' path with rfl | ⟨front, last, rfl⟩
  · exact apart (Option.some.inj reached).symm
  · obtain ⟨holder, before, owned', -⟩ := sound.descend?_concat_eq_some.mp reached
    obtain rfl := Option.some.inj (also.symm.trans owned')
    have around : x.descend? s (front ++ [x.name s]) = some x :=
      sound.descend?_concat_eq_some.mpr ⟨_, before, owned, rfl⟩
    exact List.append_ne_nil_of_right_ne_nil front (by simp) (sound.no_cycle around)

structure Left (s t : Store) (dir : DirectoryId) (files : List FileId) (subs : List DirectoryId) :
    Prop where
  clears : Clears s t (Below s (.directory dir))
  files_nodup : files.Nodup
  subs_nodup : subs.Nodup
  files : ∀ file, (Node.file file).parent? t = some (.directory dir) ↔ file ∈ files
  subs : ∀ sub, (Node.directory sub).parent? t = some (.directory dir) ↔ sub ∈ subs

variable {t t' : Store} {files : List FileId} {subs : List DirectoryId}

theorem Left.start (sound : s.Sound) (dir : DirectoryId) :
    Left s s dir (s.files dir) (s.subdirectories dir) := by
  refine ⟨.refl sound _, sound.files_nodup dir, sound.subdirectories_nodup dir, ?_, ?_⟩
  · intro file
    rw [← sound.mem_children]
    simp [Node.children]
  · intro sub
    rw [← sound.mem_children]
    simp [Node.children]

theorem Left.cut (before : Left s t dir files subs) (sound : s.Sound) (cuts : Cuts t t' lost)
    (sound' : t'.Sound) (child : x.parent? t = some (.directory dir)) (gone : x ∈ lost)
    (below : ∀ z ∈ lost, z = x ∨ Below t x z) :
    Clears s t' (Below s (.directory dir)) ∧
      ∀ y : Node, y.parent? t' = some (.directory dir) ↔ y.parent? t = some (.directory dir) ∧ y ≠ x := by
  obtain ⟨soundNow, earlier, early, inside⟩ := before.clears
  have within : ∀ z, Within t x z → Within s x z := fun z => early.within sound soundNow
  have found := sound.child?_eq_some.mpr ⟨early.parent?_of_some child, rfl⟩
  refine ⟨⟨sound', earlier ++ lost, early.trans cuts, ?_⟩, fun y => ?_⟩
  · intro z left
    rcases List.mem_append.mp left with left | left
    · exact inside z left
    · rcases below z left with rfl | ⟨under, -⟩
      · exact .of_child sound found (.refl _)
      · exact .of_child sound found (within z under)
  · rw [cuts.parent?]
    constructor
    · intro owned
      split at owned
      · cases owned
      · rename_i kept
        exact ⟨owned, fun same => kept (same ▸ gone)⟩
    · rintro ⟨owned, apart⟩
      rw [if_neg]
      · exact owned
      · intro left
        rcases below y left with same | under
        · exact apart same
        · exact soundNow.sibling_apart child owned under

theorem Left.dropFile (before : Left s t dir (file :: files) subs) (sound : s.Sound)
    (writable : t.directoryWritable dir = true) :
    ∃ t', DirectoryView.dropFile (.direct dir) t (.direct file) = (true, t') ∧ Left s t' dir files subs := by
  have child := (before.files file).mpr List.mem_cons_self
  obtain ⟨fresh, distinct⟩ := List.nodup_cons.mp before.files_nodup
  obtain ⟨t', dropped, sound', cuts⟩ :=
    deleteFile_accepted before.clears.1 writable (before.clears.1.child?_eq_some.mpr ⟨child, rfl⟩)
  obtain ⟨clears, parents⟩ := before.cut sound cuts sound' child List.mem_cons_self fun z gone =>
    .inl (List.mem_singleton.mp gone)
  refine ⟨t', dropped, clears, distinct, before.subs_nodup, fun other => ?_, fun sub => ?_⟩
  · rw [parents, before.files, List.mem_cons]
    by_cases same : other = file <;> simp [same, fresh]
  · rw [parents, before.subs]
    simp

def Empties (depth : Nat) : Prop :=
  ∀ (t : Store) (dir sub : DirectoryId) (name : String), t.Sound →
    (Node.directory dir).child? t name = some (.directory sub) → Pliable t (.directory sub) depth →
    ∃ t', DirectoryView.cleanWithin depth t (.direct dir) name = (true, t') ∧
      ∀ name, (Node.directory sub).child? t' name = none

theorem Left.dropSubdirectory (empties : Empties depth) (before : Left s t dir files (sub :: subs))
    (sound : s.Sound) (pliable : Pliable t (.directory dir) (depth + 1)) :
    ∃ t', DirectoryView.dropSubdirectory depth (.direct dir) t (.direct sub) = (true, t') ∧
      Left s t' dir files subs := by
  have soundNow := before.clears.1
  have child := (before.subs sub).mpr List.mem_cons_self
  have found := soundNow.child?_eq_some.mpr ⟨child, rfl⟩
  obtain ⟨fresh, distinct⟩ := List.nodup_cons.mp before.subs_nodup
  obtain ⟨t₁, cleaned, bare⟩ := empties t dir sub _ soundNow found (pliable.child found)
  have inside := cleanWithin_clears (σ := Store) depth soundNow dir ((Node.directory sub).name t)
  rw [cleaned] at inside
  obtain ⟨sound₁, lost, cuts, below⟩ := inside
  have under : ∀ z ∈ lost, Below t (.directory sub) z := by
    intro z gone
    obtain ⟨y, there, within⟩ := below z gone
    obtain rfl := Option.some.inj (found.symm.trans there)
    exact within
  have still : (Node.directory dir).child? t₁ ((Node.directory sub).name t) = some (.directory sub) :=
    (cuts.child?_eq_some soundNow sound₁).mpr ⟨found, fun gone => (under _ gone).2 rfl⟩
  have writable := (pliable.cuts soundNow sound₁ cuts).directoryWritable
  obtain ⟨t', removed, sound', last⟩ := deleteSubdirectory_accepted sound₁ writable still bare
  have covered : ∀ z ∈ lost ++ [.directory sub], z = .directory sub ∨ Below t (.directory sub) z := by
    intro z gone
    rcases List.mem_append.mp gone with gone | gone
    · exact .inr (under z gone)
    · exact .inl (List.mem_singleton.mp gone)
  obtain ⟨clears, parents⟩ := before.cut sound (cuts.trans last) sound' child
    (List.mem_append_right lost List.mem_cons_self) covered
  refine ⟨t', ?_, clears, before.files_nodup, distinct, fun file => ?_, fun other => ?_⟩
  · rw [DirectoryView.dropSubdirectory, show (DirectoryView.direct sub).name t = (Node.directory sub).name t from rfl,
      cleaned]
    exact removed
  · rw [parents, before.files]
    simp
  · rw [parents, before.subs, List.mem_cons]
    by_cases same : other = sub <;> simp [same, fresh]

theorem Left.dropFiles (sound : s.Sound) (pliable : Pliable s (.directory dir) depth) :
    ∃ t, DirectoryView.forEach (DirectoryView.dropFile (.direct dir)) ((DirectoryView.direct dir).files s) s =
        (true, t) ∧ Left s t dir [] (s.subdirectories dir) := by
  rw [direct_files, DirectoryView.forEach_map]
  have loop := DirectoryView.forEach_completes
    (fun t file => DirectoryView.dropFile (.direct dir) t (.direct file)) (s.files dir)
    (fun rest t => Left s t dir rest (s.subdirectories dir)) ?_ (.start sound dir)
  · exact ⟨_, Prod.ext loop.1 rfl, loop.2⟩
  · intro t file rest before
    obtain ⟨t', dropped, after⟩ := before.dropFile sound (pliable.clears sound before.clears).directoryWritable
    rw [dropped]
    exact ⟨rfl, after⟩

theorem Left.dropSubdirectories (empties : Empties depth) (before : Left s t dir [] subs) (sound : s.Sound)
    (pliable : Pliable s (.directory dir) (depth + 1)) :
    ∃ t', DirectoryView.forEach (DirectoryView.dropSubdirectory depth (.direct dir))
        ((DirectoryView.direct dir).subdirectories t) t = (true, t') ∧ Left s t' dir [] [] := by
  rw [direct_subdirectories, DirectoryView.forEach_map]
  have listed : Left s t dir [] (t.subdirectories dir) := by
    refine ⟨before.clears, List.nodup_nil, before.clears.1.subdirectories_nodup dir, before.files, ?_⟩
    intro sub
    rw [← before.clears.1.mem_children]
    simp [Node.children]
  have loop := DirectoryView.forEach_completes
    (fun t sub => DirectoryView.dropSubdirectory depth (.direct dir) t (.direct sub)) (t.subdirectories dir)
    (fun rest t => Left s t dir [] rest) ?_ listed
  · exact ⟨_, Prod.ext loop.1 rfl, loop.2⟩
  · intro t sub rest before
    obtain ⟨t', dropped, after⟩ :=
      before.dropSubdirectory empties sound (pliable.clears sound before.clears)
    rw [dropped]
    exact ⟨rfl, after⟩

theorem cleanWithin_empties (depth : Nat) : Empties depth := by
  induction depth with
  | zero =>
    intro t dir sub name sound found pliable
    exact absurd ((pliable [] _ rfl).2.2.2 rfl) (Nat.lt_irrefl 0)
  | succ depth ih =>
    intro s dir sub name sound found pliable
    have there : (DirectoryView.direct dir).subdirectory? s name = some (.direct sub) := by
      rw [direct_subdirectory?]
      exact congrArg (Option.map DirectoryView.direct) (child?_directory_eq_some.mp found)
    obtain ⟨t, filesGone, left⟩ := Left.dropFiles sound pliable
    obtain ⟨t', allGone, nothing⟩ := left.dropSubdirectories ih sound pliable
    rw [DirectoryView.cleanWithin_succ depth rfl there, filesGone]
    dsimp only
    rw [allGone]
    refine ⟨t', rfl, fun name => ?_⟩
    rw [Option.eq_none_iff_forall_not_mem]
    intro y inside
    have owned := (nothing.clears.1.child?_eq_some.mp inside).1
    cases y with
    | file file => exact List.not_mem_nil ((nothing.files file).mp owned)
    | directory sub => exact List.not_mem_nil ((nothing.subs sub).mp owned)

theorem cleanSubdirectory_accepted (sound : s.Sound)
    (found : (Node.directory dir).child? s name = some (.directory sub))
    (pliable : Pliable s (.directory sub) s.reach) :
    ∃ s' lost, (DirectoryView.direct dir).cleanSubdirectory s name = (true, s') ∧ s'.Sound ∧
      Cuts s s' lost ∧ (∀ z ∈ lost, Below s (.directory sub) z) ∧
      ∀ name, (Node.directory sub).child? s' name = none := by
  obtain ⟨s', cleaned, bare⟩ := cleanWithin_empties s.reach s dir sub name sound found pliable
  have effect := cleanSubdirectory_clears (σ := Store) sound dir name
  rw [DirectoryView.cleanSubdirectory] at effect ⊢
  rw [show DirectoryView.cleanWithin (Backing.reach s (DirectoryView.direct dir).node) s (.direct dir) name =
    (true, s') from cleaned] at effect ⊢
  obtain ⟨sound', lost, cuts, below⟩ := effect
  refine ⟨s', lost, rfl, sound', cuts, ?_, bare⟩
  intro z gone
  obtain ⟨y, there, under⟩ := below z gone
  obtain rfl := Option.some.inj (found.symm.trans there)
  exact under

theorem deleteTree_accepted (sound : s.Sound) (writable : s.directoryWritable dir = true)
    (found : (Node.directory dir).child? s name = some (.directory sub))
    (pliable : Pliable s (.directory sub) s.reach) :
    ∃ s' lost, (DirectoryView.direct dir).deleteTree s name = (true, s') ∧ s'.Sound ∧ Cuts s s' lost ∧
      (∀ z ∈ lost, Within s (.directory sub) z) ∧ .directory sub ∈ lost := by
  obtain ⟨s₁, lost, cleaned, sound₁, cuts, below, bare⟩ := cleanSubdirectory_accepted sound found pliable
  have still : (Node.directory dir).child? s₁ name = some (.directory sub) :=
    (cuts.child?_eq_some sound sound₁).mpr ⟨found, fun gone => (below _ gone).2 rfl⟩
  have open₁ : s₁.directoryWritable dir = true := by
    have same := congrArg Entry.writable (cuts.entry (.directory dir))
    exact same.trans writable
  obtain ⟨s', removed, sound', last⟩ := deleteSubdirectory_accepted sound₁ open₁ still bare
  refine ⟨s', _, ?_, sound', cuts.trans last, ?_, List.mem_append_right lost List.mem_cons_self⟩
  · rw [DirectoryView.deleteTree, cleaned]
    exact removed
  · intro z gone
    rcases List.mem_append.mp gone with gone | gone
    · exact (below z gone).1
    · rw [List.mem_singleton.mp gone]
      exact .refl _

end Cleaning

section Copying

variable {source target : DirectoryId} {subs : List DirectoryId} {done : List Node} {t : Store}

theorem placeFile_accepted (sound : s.Sound) (writable : s.directoryWritable dir = true)
    (proper : name ≠ "") (free : (Node.directory dir).child? s name = none) {data : Bytes}
    (short : data.length < endLimit) :
    ((DirectoryView.direct dir).placeFile s name data).1 = true := by
  obtain ⟨new, s₁, s₂, s', created, resized, wrote, -, -⟩ := create_filled sound writable proper free short
  simp [DirectoryView.placeFile, created, resized, wrote]

theorem fresh_of_nodup {α β : Type} {f : α → β} {items before rest : List α} {x : α}
    (distinct : (items.map f).Nodup) (parts : items = before ++ x :: rest) : f x ∉ before.map f := by
  rw [parts, List.map_append, List.map_cons] at distinct
  intro among
  exact (List.nodup_append.mp distinct).2.2 _ among _ List.mem_cons_self rfl

theorem Mirrors.target_writable (before : Mirrors s t (.directory target) done)
    (writable : s.directoryWritable target = true) : t.directoryWritable target = true := by
  have same := congrArg Entry.writable (before.grown.entry (.directory target) (held_of_writable writable))
  exact same.trans writable

theorem Mirrors.placeFile_accepted (before : Mirrors s t (.directory target) done)
    (writable : s.directoryWritable target = true) (held : (Node.file file).held s = true)
    (proper : s.fileName file ≠ "") (short : (s.fileBytes file).length < endLimit)
    (fresh : s.fileName file ∉ done.map (Node.name s)) :
    ∃ t', (DirectoryView.direct target).placeFile t ((FileView.direct file).name t)
        ((FileView.direct file).readAll t) = (true, t') ∧
      Mirrors s t' (.directory target) (done ++ [.file file]) := by
  have named : (FileView.direct file).name t = s.fileName file := before.grown.name (.file file) held
  have filled : (FileView.direct file).readAll t = s.fileBytes file := by
    have shown := before.grown.entry (.file file) held
    rw [direct_readAll]
    exact Content.file.inj (congrArg Entry.content shown)
  obtain ⟨complete, t', placed, -, -, further⟩ := Mirrors.placeFile (σ := Store) before held
  have whole := Memory.placeFile_accepted before.sound (before.target_writable writable) proper
    (before.only _ fresh) short
  rw [named, filled] at placed ⊢
  rw [placed] at whole
  exact ⟨t', whole ▸ placed, further whole⟩

theorem files_placed (sound : s.Sound) (writable : s.directoryWritable target = true)
    (bare : ∀ name, (Node.directory target).child? s name = none)
    (pliable : Pliable s (.directory source) (depth + 1)) :
    (DirectoryView.forEachUntil
      (fun t file => (DirectoryView.direct target).placeFile t (file.name t) (file.readAll t))
      ((DirectoryView.direct source).files s) s).1 = true := by
  have loop := DirectoryView.forEachUntil_completes
    (fun t file => (DirectoryView.direct target).placeFile t (file.name t) (file.readAll t))
    ((DirectoryView.direct source).files s)
    (fun placed t => Mirrors s t (.directory target) (placed.map fun file => .file file.node))
    ?_ (.start sound bare)
  · obtain ⟨t', placed, -⟩ := loop
    rw [placed]
  · intro placed x rest t parts before
    have listed : x ∈ (DirectoryView.direct source).files s := by
      rw [parts]
      exact List.mem_append_right placed List.mem_cons_self
    rw [direct_files, List.mem_map] at listed
    obtain ⟨file, listed, rfl⟩ := listed
    have found : (Node.directory source).child? s (s.fileName file) = some (.file file) :=
      sound.child?_file_eq_some.mpr (sound.file?_eq_some.mpr ⟨listed, rfl⟩)
    have distinct : (((DirectoryView.direct source).files s).map fun file => s.fileName file.node).Nodup := by
      rw [direct_files, List.map_map]
      exact sound.fileNames_nodup source
    have fresh := fresh_of_nodup distinct parts
    have next := before.placeFile_accepted writable (sound.listed_file_held listed)
      (pliable.name_ne found) (pliable.child found).length_lt (by simpa [Function.comp_def, Node.name] using fresh)
    simpa using next

def CopiesAll (depth : Nat) : Prop :=
  ∀ (t : Store) (source target : DirectoryId), t.Sound → t.directoryWritable target = true →
    ¬ Within t (.directory source) (.directory target) →
    (∀ name, (Node.directory target).child? t name = none) → Pliable t (.directory source) depth →
    (DirectoryView.copyTreeWithin depth t (.direct source) (.direct target)).1 = true

theorem Mirrors.copySubdirectory_accepted (copies : CopiesAll depth)
    (before : Mirrors s t (.directory target) done) (sound : s.Sound)
    (writable : s.directoryWritable target = true) (pliable : Pliable s (.directory sub) depth)
    (proper : s.directoryName sub ≠ "") (apart : ¬ Within s (.directory sub) (.directory target))
    (fresh : s.directoryName sub ∉ done.map (Node.name s)) :
    ∃ t', DirectoryView.copyInto (DirectoryView.copyTreeWithin depth) (.direct target) t (.direct sub) = (true, t') ∧
      Mirrors s t' (.directory target) (done ++ [.directory sub]) := by
  have present := held_of_writable writable
  have held : (Node.directory sub).held s = true := held_of_writable pliable.directoryWritable
  obtain ⟨complete, t', copied, -, -, further⟩ := Mirrors.copySubdirectory
    (copyTreeWithin_copies (σ := Store) depth) before sound present held apart
  have named : (DirectoryView.direct sub).name t = s.directoryName sub :=
    before.grown.name (.directory sub) held
  obtain ⟨new, t₁, created, sound₁, adds⟩ := createSubdirectory_accepted before.sound
    (before.target_writable writable) proper (before.only _ fresh)
  obtain ⟨grown, -, -, outside, bare⟩ := before.added sound present held apart sound₁ adds
  have open₁ : t₁.directoryWritable new = true := by
    have shown := adds.entry (.directory new)
    rw [if_pos rfl] at shown
    exact congrArg Entry.writable shown
  have soft : Pliable t₁ (.directory sub) depth :=
    pliable.of_lookup fun path => grown.lookup_apart sound sound₁ held apart path
  have whole := copies t₁ sub new sound₁ open₁ outside bare soft
  have same : complete = true := by
    rw [DirectoryView.copyInto, named, created] at copied
    exact (congrArg Prod.fst copied).symm.trans whole
  exact ⟨t', same ▸ copied, further same⟩

theorem subdirectories_copied (copies : CopiesAll depth) (sound : s.Sound)
    (writable : s.directoryWritable target = true)
    (apart : ¬ Within s (.directory source) (.directory target))
    (pliable : Pliable s (.directory source) (depth + 1))
    (before : Mirrors s t (.directory target) ((s.files source).map .file)) (distinct : subs.Nodup)
    (listed : ∀ sub ∈ subs, sub ∈ s.subdirectories source) :
    (DirectoryView.forEachUntil (DirectoryView.copyInto (DirectoryView.copyTreeWithin depth) (.direct target))
      (subs.map .direct) t).1 = true := by
  have loop := DirectoryView.forEachUntil_completes
    (DirectoryView.copyInto (DirectoryView.copyTreeWithin depth) (.direct target)) (subs.map DirectoryView.direct)
    (fun copied t => Mirrors s t (.directory target)
      ((s.files source).map .file ++ copied.map fun sub => .directory sub.node)) ?_ (by simpa)
  · obtain ⟨t', copied, -⟩ := loop
    rw [copied]
  · intro copied x rest t' parts earlier
    have here : x ∈ subs.map DirectoryView.direct := by
      rw [parts]
      exact List.mem_append_right copied List.mem_cons_self
    obtain ⟨sub, among, rfl⟩ := List.mem_map.mp here
    have found : (Node.directory source).child? s (s.directoryName sub) = some (.directory sub) :=
      child?_directory_eq_some.mpr (sound.subdirectory?_eq_some.mpr ⟨listed sub among, rfl⟩)
    have names : ((subs.map DirectoryView.direct).map fun sub => s.directoryName sub.node).Nodup := by
      rw [List.map_map]
      exact distinct.map_on fun one here other there =>
        sound.directory_name_injective (listed one here) (listed other there)
    have fresh : s.directoryName sub ∉
        ((s.files source).map Node.file ++ copied.map fun sub => Node.directory sub.node).map (Node.name s) := by
      rw [List.map_append, List.mem_append, not_or, List.map_map, List.map_map]
      refine ⟨fun taken => ?_, fresh_of_nodup names parts⟩
      obtain ⟨file, there, same⟩ := List.mem_map.mp taken
      exact sound.names_apart there (listed sub among) same
    have outside : ¬ Within s (.directory sub) (.directory target) :=
      fun below => apart (((Within.refl _).child found).trans below)
    have next := earlier.copySubdirectory_accepted copies sound writable (pliable.child found)
      (pliable.name_ne found) outside fresh
    simpa using next

theorem copyTreeWithin_completes (depth : Nat) : CopiesAll depth := by
  induction depth with
  | zero =>
    intro t source target _ _ _ _ pliable
    exact absurd ((pliable [] _ rfl).2.2.2 rfl) (Nat.lt_irrefl 0)
  | succ depth ih =>
    intro s source target sound writable apart bare pliable
    have whole := files_placed sound writable bare pliable
    rcases mirror_files (σ := Store) source sound bare with ⟨t, placed, mirrored⟩ | ⟨t, placed, -⟩
    · have files : Mirrors s t (.directory target) ((s.files source).map .file) := mirrored
      have held : (Node.directory source).held s = true := held_of_writable pliable.directoryWritable
      have isOther : Node.directory source ≠ .directory target := by
        intro same
        exact apart (same ▸ .refl _)
      have listed : ∀ sub ∈ t.subdirectories source, sub ∈ s.subdirectories source := by
        intro sub there
        have owned : (Node.directory sub).parent? t = some (.directory source) := by
          rw [← files.sound.mem_children]
          simpa [Node.children] using there
        rw [files.grown.parent?_eq_some sound held isOther, ← sound.mem_children] at owned
        simpa [Node.children] using owned
      rw [DirectoryView.copyTreeWithin_of_placed placed, direct_subdirectories]
      exact subdirectories_copied ih sound writable apart pliable files
        (files.sound.subdirectories_nodup source) listed
    · rw [placed] at whole
      cases whole

end Copying

end GuestStorage.Memory
