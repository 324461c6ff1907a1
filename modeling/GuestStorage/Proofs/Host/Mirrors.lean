import GuestStorage.Proofs.Host.Children
import GuestStorage.Proofs.Path
import GuestStorage.Proofs.Tree.Loops
import GuestStorage.Tree.Mount

namespace GuestStorage.Host

open GuestStorage.Tree

variable {path place spot : Location} {root : Root} {disk other : Disk}

def DirectoryPlaced (disk : Disk) (root : Root) (place : Location) (dir : DirectoryView DirectoryNode) : Prop :=
  ∃ names, dir.node = ⟨root, root.path ++ names⟩ ∧ disk.Plain place names

def FilePlaced (disk : Disk) (root : Root) (place : Location) (file : FileView FileNode) : Prop :=
  ∃ names name, file.node = ⟨root, root.path ++ (names ++ [name])⟩ ∧ disk.Plain place (names ++ [name])

def NoLink (wanted : Entry → Bool) : Prop := ∀ text, wanted (.link text) = false

theorem noLink_isFile : NoLink DirectoryNode.isFile := fun _ => rfl

theorem noLink_isDirectory : NoLink DirectoryNode.isDirectory := fun _ => rfl

namespace Disk

section Children

variable {names : List String} {name : String} {dir : DirectoryNode} {wanted : Entry → Bool} {child : Location}
  (rooted : disk.Rooted root place) (node : dir = ⟨root, root.path ++ names⟩) (plain : disk.Plain place names)
include rooted node plain

theorem plain_of_child? (noLink : NoLink wanted) (found : dir.child? disk wanted name = some child) :
    child = root.path ++ (names ++ [name]) ∧ disk.Plain place (names ++ [name]) ∧
      ∃ entry, disk.find? (place ++ (names ++ [name])) = some entry ∧ wanted entry = true := by
  obtain ⟨valid, -, ⟨entry, stands, fits⟩, rfl⟩ := DirectoryNode.child?_eq_some.mp found
  rw [DirectoryNode.childPath, node, List.append_assoc] at stands ⊢
  rw [entryAt?] at stands
  split at stands
  · rename_i there reached
    obtain ⟨same, _⟩ := rooted.resolveParent_append plain reached
    rw [same] at stands
    refine ⟨rfl, plain.concat (proper_of_validName valid) ?_, entry, stands, fits⟩
    intro text linked
    rw [linked] at stands
    cases stands
    rw [noLink text] at fits
    cases fits
  · cases stands

theorem plain_of_childPaths (noLink : NoLink wanted) (listed : child ∈ dir.childPaths disk wanted) :
    ∃ name, child = root.path ++ (names ++ [name]) ∧ disk.Plain place (names ++ [name]) ∧
      ∃ entry, disk.find? (place ++ (names ++ [name])) = some entry ∧ wanted entry = true := by
  obtain ⟨-, entries, shown, ⟨name, entry⟩, among, fits, rfl⟩ := DirectoryNode.mem_childPaths.mp listed
  obtain ⟨there, reached, -, rfl⟩ := list_eq_ok.mp shown
  rw [node] at reached
  obtain rfl := walk_eq_ok plain ((rooted.resolve_append plain).symm.trans reached)
  have stands := rooted.sound.mem_children.mp among
  have proper := rooted.sound.proper_of_find? stands name (by simp)
  rw [List.append_assoc] at stands
  refine ⟨name, ?_, plain.concat proper ?_, entry, stands, fits⟩
  · simp [DirectoryNode.childPath, node]
  · intro text linked
    rw [stands] at linked
    cases linked
    rw [noLink text] at fits
    cases fits

theorem childPaths_eq_nil (none : disk.resolve (root.path ++ names) = .ok (place ++ names) →
      disk.find? (place ++ names) ≠ some .directory) (wanted : Entry → Bool) : dir.childPaths disk wanted = [] := by
  refine List.eq_nil_iff_forall_not_mem.mpr fun child listed => ?_
  obtain ⟨-, entries, shown, -⟩ := DirectoryNode.mem_childPaths.mp listed
  obtain ⟨there, reached, directory, -⟩ := list_eq_ok.mp shown
  rw [node] at reached
  obtain rfl := walk_eq_ok plain ((rooted.resolve_append plain).symm.trans reached)
  exact none reached directory

end Children

theorem plain_of_descend? {names more : List String} {dir sub : DirectoryView DirectoryNode}
    (rooted : disk.Rooted root place) (node : dir.node = ⟨root, root.path ++ names⟩) (plain : disk.Plain place names)
    (reached : dir.descend? disk more = some sub) :
    sub.node = ⟨root, root.path ++ (names ++ more)⟩ ∧ disk.Plain place (names ++ more) := by
  induction more generalizing names dir with
  | nil =>
    cases reached
    rw [List.append_nil]
    exact ⟨node, plain⟩
  | cons name rest ih =>
    rw [DirectoryView.descend?, List.foldlM_cons] at reached
    obtain ⟨next, found, further⟩ := Option.bind_eq_some_iff.mp reached
    obtain ⟨child, held, rfl⟩ := Option.map_eq_some_iff.mp found
    obtain ⟨there, seen, rfl⟩ := Option.map_eq_some_iff.mp held
    obtain ⟨rfl, longer, -⟩ := plain_of_child? rooted node plain noLink_isDirectory seen
    have last := ih (by rw [node]) longer further
    rwa [List.append_assoc, List.singleton_append] at last

/-- A path leads nowhere on two disks, or alike below their roots, or to the same thing elsewhere, no file. -/
inductive Tame (place spot : Location) (disk other : Disk) (file : Location) : Prop
  | lost (why : Refusal) (left : disk.resolve file = .error why) (right : other.resolve file = .error why)
  | inside (names : List String) (left : disk.resolve file = .ok (place ++ names))
      (right : other.resolve file = .ok (spot ++ names))
      (same : other.find? (spot ++ names) = disk.find? (place ++ names))
  | outside (there there' : Location) (left : disk.resolve file = .ok there)
      (right : other.resolve file = .ok there') (same : other.find? there' = disk.find? there)
      (noFile : ∀ bytes, disk.find? there ≠ some (.file bytes))

namespace Tame

section Location

variable {file : Location} (tame : Tame place spot disk other file)
include tame

theorem readFile_eq : other.readFile file = disk.readFile file := by
  rw [readFile, readFile]
  cases tame with
  | lost why left right => rw [left, right]
  | inside names left right same => simp only [left, right, same]
  | outside there there' left right same noFile => simp only [left, right, same]

theorem targetAt?_eq : other.targetAt? file = disk.targetAt? file := by
  rw [targetAt?, targetAt?]
  cases tame with
  | lost why left right => rw [left, right]
  | inside names left right same => simp only [left, right, same]
  | outside there there' left right same noFile => simp only [left, right, same]

end Location

section File

variable {file : FileView FileNode} (tame : Tame place spot disk other file.node.path)
include tame

theorem size_eq : file.size other = file.size disk := by
  simp only [FileView.size, Backing.fileSize, FileNode.size, Root.targetAt?_congr tame.targetAt?_eq]

theorem read_eq (offset length : Nat) : file.read other offset length = file.read disk offset length := by
  simp only [FileView.read, Backing.read, FileNode.read, tame.readFile_eq]

theorem readAll_eq : file.readAll other = file.readAll disk := by
  rw [FileView.readAll, FileView.readAll, tame.size_eq, tame.read_eq]

theorem isReadable_eq : file.isReadable other = file.isReadable disk := by
  simp only [FileView.isReadable, Backing.fileReadable, Root.targetAt?_congr tame.targetAt?_eq]

theorem isWritable_eq : file.isWritable other = file.isWritable disk := by
  simp only [FileView.isWritable, Backing.fileWritable, Root.targetAt?_congr tame.targetAt?_eq]

end File

end Tame

/-- Two disks on which a path leads to roots that show the same. The second may lack links that the first has. -/
structure Mirrors (path place spot : Location) (disk other : Disk) : Prop where
  left : disk.Rooted path place
  right : other.Rooted path spot
  shows : ∀ names, other.find? (spot ++ names) = disk.find? (place ++ names) ∨
    other.find? (spot ++ names) = none ∧ ∃ text, disk.find? (place ++ names) = some (.link text)

namespace Mirrors

variable (mirrors : Mirrors path place spot disk other) {names : List String}
include mirrors

theorem same_of_noLink (noLink : ∀ text, disk.find? (place ++ names) ≠ some (.link text)) :
    other.find? (spot ++ names) = disk.find? (place ++ names) := by
  rcases mirrors.shows names with same | ⟨-, text, linked⟩
  · exact same
  · exact absurd linked (noLink text)

theorem same_of_plain (plain : disk.Plain place names) {way : List String} (short : way <+: names) :
    other.find? (spot ++ way) = disk.find? (place ++ way) := by
  refine mirrors.same_of_noLink fun text linked => ?_
  by_cases here : way = []
  · rw [here, List.append_nil, mirrors.left.directory] at linked
    cases linked
  · exact plain.noLink way short here text linked

theorem same_wanted {wanted : Entry → Bool} (noLink : NoLink wanted) {entry : Entry} (fits : wanted entry = true) :
    other.find? (spot ++ names) = some entry ↔ disk.find? (place ++ names) = some entry := by
  rcases mirrors.shows names with same | ⟨missing, text, linked⟩
  · rw [same]
  · rw [missing, linked]
    refine iff_of_false (by simp) fun same => ?_
    rw [← Option.some.inj same, noLink text] at fits
    cases fits

theorem plain (plain : disk.Plain place names) : other.Plain spot names := by
  refine ⟨plain.proper, fun way short some_ text => ?_⟩
  rw [mirrors.same_of_plain plain short]
  exact plain.noLink way short some_ text

theorem resolve (plain : disk.Plain place names) :
    (∃ why, disk.resolve (path ++ names) = .error why ∧ other.resolve (path ++ names) = .error why) ∨
      disk.resolve (path ++ names) = .ok (place ++ names) ∧
        other.resolve (path ++ names) = .ok (spot ++ names) := by
  rw [mirrors.left.resolve_append plain, mirrors.right.resolve_append (mirrors.plain plain)]
  exact walk_alike plain fun way short => mirrors.same_of_plain plain short

theorem tame (plain : disk.Plain place names) : Tame place spot disk other (path ++ names) := by
  rcases mirrors.resolve plain with ⟨why, left, right⟩ | ⟨left, right⟩
  · exact .lost why left right
  · exact .inside names left right (mirrors.same_of_plain plain (List.prefix_refl _))

theorem resolveParent (plain : disk.Plain place names) (name : String) :
    (∃ why, disk.resolveParent (path ++ (names ++ [name])) = .error why ∧
      other.resolveParent (path ++ (names ++ [name])) = .error why) ∨
      disk.resolveParent (path ++ (names ++ [name])) = .ok (place ++ names ++ [name]) ∧
        other.resolveParent (path ++ (names ++ [name])) = .ok (spot ++ names ++ [name]) ∧
        disk.find? (place ++ names) = some .directory := by
  rw [← List.append_assoc, Disk.resolveParent, Disk.resolveParent, List.getLast?_concat,
    List.dropLast_concat]
  rcases mirrors.resolve plain with ⟨why, left, right⟩ | ⟨left, right⟩
  · exact .inl ⟨why, by rw [left], by rw [right]⟩
  · simp only [left, right, mirrors.same_of_plain plain (List.prefix_refl _)]
    cases disk.find? (place ++ names) with
    | none => exact .inl ⟨_, rfl, rfl⟩
    | some entry =>
      cases entry with
      | file | link => exact .inl ⟨_, rfl, rfl⟩
      | directory =>
        dsimp only
        split
        · exact .inl ⟨_, rfl, rfl⟩
        · split
          · exact .inr ⟨rfl, rfl, rfl⟩
          · exact .inl ⟨_, rfl, rfl⟩

end Mirrors

section Nodes

variable (mirrors : Mirrors root place spot disk other) {names : List String}
include mirrors

namespace Mirrors

section Directory

variable {dir : DirectoryView DirectoryNode} (placed : DirectoryPlaced disk root place dir)
include placed

theorem directory_isWritable_eq : dir.isWritable other = dir.isWritable disk := by
  obtain ⟨names, node, plain⟩ := placed
  simp only [DirectoryView.isWritable, Backing.directoryWritable, node,
    Root.targetAt?_congr (mirrors.tame plain).targetAt?_eq]

theorem child?_eq {wanted : Entry → Bool} (noLink : NoLink wanted) (name : String) :
    dir.node.child? other wanted name = dir.node.child? disk wanted name := by
  obtain ⟨names, node, plain⟩ := placed
  have same : (other.entryAt? (root.path ++ (names ++ [name]))).any wanted =
      (disk.entryAt? (root.path ++ (names ++ [name]))).any wanted := by
    rw [entryAt?, entryAt?]
    rcases mirrors.resolveParent plain name with ⟨why, left, right⟩ | ⟨left, right, -⟩
    · rw [left, right]
    · simp only [left, right, List.append_assoc]
      rw [Bool.eq_iff_iff, Option.any_eq_true, Option.any_eq_true]
      refine exists_congr fun entry => and_congr_left fun fits => ?_
      exact mirrors.same_wanted noLink fits
  simp only [DirectoryNode.child?, DirectoryNode.childPath, node, List.append_assoc, Root.entryAt?]
  by_cases admitted : root.admits (root.path ++ (names ++ [name])) = true
  · simp only [if_pos admitted, same]
  · simp only [if_neg admitted]

theorem subdirectory?_eq (name : String) : dir.subdirectory? other name = dir.subdirectory? disk name := by
  simp only [DirectoryView.subdirectory?, Backing.subdirectory?, mirrors.child?_eq placed noLink_isDirectory]

theorem file?_eq (name : String) : dir.file? other name = dir.file? disk name := by
  simp only [DirectoryView.file?, Backing.file?, mirrors.child?_eq placed noLink_isFile]

theorem hasEntry_eq (name : String) : dir.hasEntry other name = dir.hasEntry disk name := by
  rw [DirectoryView.hasEntry, DirectoryView.hasEntry, mirrors.file?_eq placed, mirrors.subdirectory?_eq placed]

theorem childPaths_eq {wanted : Entry → Bool} (noLink : NoLink wanted) :
    dir.node.childPaths other wanted = dir.node.childPaths disk wanted := by
  obtain ⟨names, node, plain⟩ := placed
  refine DirectoryNode.childPaths_congr ?_
  rw [list, list, node]
  rcases mirrors.resolve plain with ⟨why, left, right⟩ | ⟨left, right⟩
  · rw [left, right]
  · simp only [left, right, mirrors.same_of_plain plain (List.prefix_refl _)]
    cases disk.find? (place ++ names) with
    | none => rfl
    | some entry =>
      cases entry with
      | file | link => rfl
      | directory =>
        refine congrArg Except.ok ?_
        refine mirrors.left.sound.children_filter_eq mirrors.right.sound fun name entry fits => ?_
        rw [List.append_assoc, List.append_assoc]
        exact mirrors.same_wanted noLink fits

theorem files_eq : dir.files other = dir.files disk := by
  simp only [DirectoryView.files, Backing.files, mirrors.childPaths_eq placed noLink_isFile]

theorem subdirectories_eq : dir.subdirectories other = dir.subdirectories disk := by
  simp only [DirectoryView.subdirectories, Backing.subdirectories, mirrors.childPaths_eq placed noLink_isDirectory]

theorem placed_of_subdirectory? {name : String} {sub : DirectoryView DirectoryNode}
    (found : dir.subdirectory? disk name = some sub) : DirectoryPlaced disk root place sub := by
  obtain ⟨names, node, plain⟩ := placed
  obtain ⟨child, held, rfl⟩ := Option.map_eq_some_iff.mp found
  obtain ⟨there, seen, rfl⟩ := Option.map_eq_some_iff.mp held
  obtain ⟨rfl, further, -⟩ := plain_of_child? mirrors.left node plain noLink_isDirectory seen
  exact ⟨names ++ [name], by rw [node], further⟩

theorem placed_of_file? {name : String} {file : FileView FileNode}
    (found : dir.file? disk name = some file) : FilePlaced disk root place file := by
  obtain ⟨names, node, plain⟩ := placed
  obtain ⟨child, held, rfl⟩ := Option.map_eq_some_iff.mp found
  obtain ⟨there, seen, rfl⟩ := Option.map_eq_some_iff.mp held
  obtain ⟨rfl, further, -⟩ := plain_of_child? mirrors.left node plain noLink_isFile seen
  exact ⟨names, name, by rw [node], further⟩

theorem placed_of_files {file : FileView FileNode} (listed : file ∈ dir.files disk) :
    FilePlaced disk root place file := by
  obtain ⟨names, node, plain⟩ := placed
  obtain ⟨child, among, rfl⟩ := List.mem_map.mp listed
  obtain ⟨there, seen, rfl⟩ := List.mem_map.mp among
  obtain ⟨name, rfl, further, -⟩ := plain_of_childPaths mirrors.left node plain noLink_isFile seen
  exact ⟨names, name, by rw [node], further⟩

theorem placed_of_subdirectories {sub : DirectoryView DirectoryNode}
    (listed : sub ∈ dir.subdirectories disk) : DirectoryPlaced disk root place sub := by
  obtain ⟨names, node, plain⟩ := placed
  obtain ⟨child, among, rfl⟩ := List.mem_map.mp listed
  obtain ⟨there, seen, rfl⟩ := List.mem_map.mp among
  obtain ⟨name, rfl, further, -⟩ := plain_of_childPaths mirrors.left node plain noLink_isDirectory seen
  exact ⟨names ++ [name], by rw [node], further⟩

theorem descend?_eq (names : List String) : dir.descend? other names = dir.descend? disk names ∧
    ∀ sub, dir.descend? disk names = some sub → DirectoryPlaced disk root place sub := by
  induction names generalizing dir with
  | nil =>
    refine ⟨rfl, fun sub reached => ?_⟩
    cases reached
    exact placed
  | cons name rest ih =>
    simp only [DirectoryView.descend?, List.foldlM_cons, mirrors.subdirectory?_eq placed]
    cases found : dir.subdirectory? disk name with
    | none => exact ⟨rfl, by simp⟩
    | some next => exact ih (mirrors.placed_of_subdirectory? placed found)

end Directory

theorem file_tame {file : FileView FileNode} (placed : FilePlaced disk root place file) :
    Tame place spot disk other file.node.path := by
  obtain ⟨names, name, node, plain⟩ := placed
  rw [node]
  exact mirrors.tame plain

section Size

variable {dir : DirectoryView DirectoryNode}

omit mirrors in
theorem sizeWithin_eq_zero (bare : ∀ wanted, dir.node.childPaths disk wanted = []) (depth : Nat) :
    dir.sizeWithin disk depth = 0 := by
  cases depth with
  | zero => rfl
  | succ depth =>
    simp only [DirectoryView.sizeWithin_succ, DirectoryView.files, DirectoryView.subdirectories, Backing.files,
      Backing.subdirectories, bare, List.map_nil, List.sum_nil, Nat.add_zero]

theorem sizeWithin_eq {depth depth' : Nat} (node : dir.node = ⟨root, root.path ++ names⟩) (plain : disk.Plain place names)
    (room : ∀ more, disk.find? (place ++ (names ++ more)) = some .directory → more.length < depth)
    (room' : ∀ more, disk.find? (place ++ (names ++ more)) = some .directory → more.length < depth') :
    dir.sizeWithin other depth' = dir.sizeWithin disk depth := by
  induction depth generalizing depth' dir names with
  | zero =>
    have none : disk.find? (place ++ names) ≠ some .directory := fun directory =>
      absurd (room [] (by rwa [List.append_nil])) (by simp)
    have none' : other.find? (spot ++ names) ≠ some .directory := by
      rwa [mirrors.same_of_plain plain (List.prefix_refl _)]
    rw [sizeWithin_eq_zero (childPaths_eq_nil mirrors.left node plain fun _ => none),
      sizeWithin_eq_zero (childPaths_eq_nil mirrors.right node (mirrors.plain plain) fun _ => none')]
  | succ depth ih =>
    cases depth' with
    | zero =>
      have none : disk.find? (place ++ names) ≠ some .directory := fun directory =>
        absurd (room' [] (by rwa [List.append_nil])) (by simp)
      rw [sizeWithin_eq_zero (childPaths_eq_nil mirrors.left node plain fun _ => none)]
      rfl
    | succ depth' =>
      have placed : DirectoryPlaced disk root place dir := ⟨names, node, plain⟩
      rw [DirectoryView.sizeWithin_succ, DirectoryView.sizeWithin_succ, mirrors.files_eq placed,
        mirrors.subdirectories_eq placed]
      congr 2
      · refine List.map_congr_left fun file listed => ?_
        exact (mirrors.file_tame (mirrors.placed_of_files placed listed)).size_eq
      · refine List.map_congr_left fun sub listed => ?_
        obtain ⟨child, among, rfl⟩ := List.mem_map.mp listed
        obtain ⟨there, seen, rfl⟩ := List.mem_map.mp among
        obtain ⟨name, rfl, further, -⟩ := plain_of_childPaths mirrors.left node plain noLink_isDirectory seen
        have deeper : ∀ {bound : Nat},
            (∀ more, disk.find? (place ++ (names ++ more)) = some .directory → more.length < bound + 1) →
            ∀ more, disk.find? (place ++ (names ++ [name] ++ more)) = some .directory → more.length < bound := by
          intro bound room more found
          rw [List.append_assoc] at found
          exact Nat.lt_of_succ_lt_succ (room _ found)
        exact ih (by rw [node]) further (deeper room) (deeper room')

theorem size_eq (placed : DirectoryPlaced disk root place dir) : dir.size other = dir.size disk := by
  obtain ⟨names, node, plain⟩ := placed
  rw [DirectoryView.size, DirectoryView.size]
  rcases mirrors.resolve plain with ⟨why, left, right⟩ | ⟨left, right⟩
  · rw [sizeWithin_eq_zero (childPaths_eq_nil mirrors.left node plain (by simp [left])),
      sizeWithin_eq_zero (childPaths_eq_nil mirrors.right node (mirrors.plain plain) (by simp [right]))]
  · refine mirrors.sizeWithin_eq node plain (fun more found => ?_) fun more found => ?_
    · rw [← List.append_assoc] at found
      exact mirrors.left.sound.lt_reach (by rwa [node]) found
    · have also : other.find? (spot ++ (names ++ more)) = some .directory :=
        (mirrors.same_of_noLink (by simp [found])).trans found
      rw [← List.append_assoc] at also
      exact mirrors.right.sound.lt_reach (by rwa [node]) also

end Size

section Mount

variable {mount : Mount DirectoryNode} (placed : DirectoryPlaced disk root place mount.root)
include placed

omit mirrors placed in
theorem samePlace_iff {home newHome : DirectoryView DirectoryNode} {front back : List String}
    (node : home.node = ⟨root, root.path ++ front⟩) (node' : newHome.node = ⟨root, root.path ++ back⟩)
    (clean : ∀ name ∈ front, Path.IsName name) (clean' : ∀ name ∈ back, Path.IsName name) :
    Mount.samePlace disk home newHome = true ↔ front = back := by
  rw [Mount.samePlace, beq_iff_eq]
  simp only [DirectoryView.path, Backing.directoryPath, node, node']
  constructor
  · intro same
    have texts := congrArg String.toList same
    simp only [pathText, String.toList_append] at texts
    exact Path.join_append_injective clean clean' (String.toList_inj.mp (List.append_cancel_left texts))
  · rintro rfl
    rfl

theorem locateAlong_eq (names : List String) :
    mount.locateAlong other names = mount.locateAlong disk names ∧
      ∀ dir name, mount.locateAlong disk names = .ok (dir, name) → DirectoryPlaced disk root place dir := by
  simp only [Mount.locateAlong]
  cases names.getLast? with
  | none => exact ⟨rfl, by simp⟩
  | some last =>
    obtain ⟨same, reaches⟩ := mirrors.descend?_eq placed names.dropLast
    simp only [same]
    cases reached : mount.root.descend? disk names.dropLast with
    | none => exact ⟨trivial, by simp⟩
    | some holder =>
      refine ⟨trivial, fun dir name found => ?_⟩
      cases found
      exact reaches _ reached

theorem locate_eq (text : String) : mount.locate other text = mount.locate disk text ∧
    ∀ dir name, mount.locate disk text = .ok (dir, name) → DirectoryPlaced disk root place dir := by
  simp only [Mount.locate]
  cases Mount.normalize text with
  | error e => exact ⟨rfl, by simp [Except.bind]⟩
  | ok names => exact mirrors.locateAlong_eq placed names

theorem entryType_eq (text : String) : mount.entryType other text = mount.entryType disk text := by
  simp only [Mount.entryType]
  cases Mount.normalize text with
  | error e => rfl
  | ok names =>
    cases names with
    | nil => rfl
    | cons first rest =>
      obtain ⟨same, reaches⟩ := mirrors.locateAlong_eq placed (first :: rest)
      simp only [same]
      cases found : mount.locateAlong disk (first :: rest) with
      | error e => rfl
      | ok spot =>
        have here := reaches spot.1 spot.2 found
        simp only [mirrors.file?_eq here, mirrors.subdirectory?_eq here]

theorem openFile_eq (text : String) (mode : Wire.OpenMode) :
    mount.openFile other text mode = mount.openFile disk text mode ∧
      ∀ file, mount.openFile disk text mode = .ok file → FilePlaced disk root place file := by
  obtain ⟨same, reaches⟩ := mirrors.locate_eq placed text
  simp only [Mount.openFile, same]
  cases located : mount.locate disk text with
  | error e => exact ⟨rfl, by simp⟩
  | ok spot =>
    have here := reaches spot.1 spot.2 located
    simp only [mirrors.file?_eq here]
    cases found : spot.1.file? disk spot.2 with
    | none => exact ⟨rfl, by simp⟩
    | some file =>
      have filePlaced := mirrors.placed_of_file? here found
      have tame := mirrors.file_tame filePlaced
      simp only [tame.isReadable_eq, tame.isWritable_eq]
      refine ⟨trivial, fun opened result => ?_⟩
      split at result
      · cases result
      · split at result
        · cases result
        · cases result
          exact filePlaced

theorem openDirectory_eq (text : String) :
    mount.openDirectory other text = mount.openDirectory disk text ∧
      ∀ dir, mount.openDirectory disk text = .ok dir → DirectoryPlaced disk root place dir := by
  simp only [Mount.openDirectory]
  cases Mount.normalize text with
  | error e => exact ⟨rfl, by simp⟩
  | ok names =>
    obtain ⟨same, reaches⟩ := mirrors.descend?_eq placed names
    simp only [same]
    cases reached : mount.root.descend? disk names with
    | none => exact ⟨trivial, by simp⟩
    | some dir =>
      refine ⟨trivial, fun found result => ?_⟩
      cases result
      exact reaches dir reached

end Mount

end Mirrors

end Nodes

end Disk

end GuestStorage.Host
