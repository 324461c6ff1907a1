import GuestStorage.Proofs.Host.Tidy
import GuestStorage.Proofs.Tree.Ground

namespace GuestStorage.Host.Disk

open GuestStorage.Tree

variable {first disk after : Disk} {root : Root} {path place : Location} {names : List String} {name : String}

/-- The states that differ from the first inside a place alone, where it is tidy. -/
structure Enclosed (first : Disk) (path place : Location) (disk : Disk) : Prop where
  rooted : disk.Rooted path place
  tidy : disk.Tidy place
  around : disk.around place = first.around place

theorem Enclosed.next (enclosed : Enclosed first path place disk) (tidies : Tidies place disk after) :
    Enclosed first path place after :=
  ⟨enclosed.rooted.keeps tidies.toKeeps, tidies.tidy, tidies.around.trans enclosed.around⟩

def Down (path there : Location) : Prop := ∃ names, (∀ name ∈ names, Proper name) ∧ there = path ++ names

def Deeper (path there : Location) : Prop :=
  ∃ names name, (∀ name ∈ names, Proper name) ∧ Proper name ∧ there = path ++ names ++ [name]

theorem Down.child {there : Location} (down : Down path there) (proper : Proper name) :
    Deeper path (there ++ [name]) := by
  obtain ⟨names, all, rfl⟩ := down
  exact ⟨names, name, all, proper, rfl⟩

theorem Deeper.down {there : Location} (deeper : Deeper path there) : Down path there := by
  obtain ⟨names, name, all, proper, rfl⟩ := deeper
  refine ⟨names ++ [name], fun other among => ?_, List.append_assoc ..⟩
  rcases List.mem_append.mp among with above | last
  · exact all other above
  · rw [List.mem_singleton.mp last]
    exact proper

section Cases

variable (disk : Disk) (file : FileNode)

theorem write_cases (offset : Nat) (data : Bytes) : (Backing.write disk file offset data).2 = disk ∨
    ∃ change, disk.changeFile file.path change = .ok (Backing.write disk file offset data).2 := by
  simp only [Backing.write, FileNode.write]
  split
  · exact .inl rfl
  · split
    · exact .inl rfl
    · rename_i after changed
      exact .inr ⟨_, (Root.handing_eq_ok.mp changed).2⟩

theorem resize_cases (size : Nat) : (Backing.resize disk file size).2 = disk ∨
    ∃ change, disk.changeFile file.path change = .ok (Backing.resize disk file size).2 := by
  simp only [Backing.resize, FileNode.resize]
  split
  · exact .inl rfl
  · split
    · exact .inl rfl
    · rename_i after changed
      exact .inr ⟨_, (Root.handing_eq_ok.mp changed).2⟩

end Cases

section Steps

variable {dir : DirectoryNode} {wanted : Entry → Bool} {child : Location}

theorem deeper_of_child? (down : Down path dir.path) (found : dir.child? disk wanted name = some child) :
    Deeper path child := by
  obtain ⟨valid, -, -, rfl⟩ := DirectoryNode.child?_eq_some.mp found
  exact down.child (proper_of_validName valid)

variable (enclosed : Enclosed first path place disk)
include enclosed

theorem deeper_of_childPaths (down : Down path dir.path) (listed : child ∈ dir.childPaths disk wanted) :
    Deeper path child := by
  obtain ⟨names, all, here⟩ := id down
  obtain ⟨-, entries, shown, ⟨name, entry⟩, among, -, rfl⟩ := DirectoryNode.mem_childPaths.mp listed
  obtain ⟨there, reached, -, rfl⟩ := list_eq_ok.mp shown
  rw [here] at reached
  obtain rfl := walk_eq_ok (enclosed.tidy.plain all)
    ((enclosed.rooted.resolve_append (enclosed.tidy.plain all)).symm.trans reached)
  have found := enclosed.rooted.sound.mem_children.mp among
  rw [List.append_assoc] at found
  exact down.child (enclosed.tidy.proper found name (by simp))

theorem Enclosed.changeFile {file : Location} (down : Down path file) {change : Bytes → Bytes}
    (changed : disk.changeFile file change = .ok after) : Enclosed first path place after := by
  obtain ⟨names, all, rfl⟩ := down
  exact enclosed.next (changeFile_tidies enclosed.rooted enclosed.tidy all changed)

theorem Enclosed.create {entry : Entry} (down : Down path dir.path) (valid : validName name = true)
    (noLink : ∀ text, entry ≠ .link text) (created : disk.create (dir.childPath name) entry = .ok after) :
    Enclosed first path place after := by
  obtain ⟨names, all, here⟩ := down
  rw [DirectoryNode.childPath, here] at created
  exact enclosed.next (create_tidies enclosed.rooted enclosed.tidy all valid noLink created)

theorem Enclosed.removeFile {there : Location} (deeper : Deeper path there)
    (removed : disk.removeFile there = .ok after) : Enclosed first path place after := by
  obtain ⟨names, name, all, -, rfl⟩ := deeper
  exact enclosed.next (removeFile_tidies enclosed.rooted enclosed.tidy all removed)

theorem Enclosed.removeDirectory {there : Location} (deeper : Deeper path there)
    (removed : disk.removeDirectory there = .ok after) : Enclosed first path place after := by
  obtain ⟨names, name, all, -, rfl⟩ := deeper
  exact enclosed.next (removeDirectory_tidies enclosed.rooted enclosed.tidy all removed)

theorem Enclosed.renameAt {there : Location} (deeper : Deeper path there) (new : String) :
    Enclosed first path place (renameAt disk root there new).2 := by
  obtain ⟨names, old, all, -, rfl⟩ := deeper
  exact enclosed.next (renameAt_tidies enclosed.rooted enclosed.tidy all root old new)

theorem Enclosed.createChild {α : Type} {dir : DirectoryNode} {entry : Entry} {below : α → Prop}
    (down : Down path dir.path) (node : Root → Location → α) (noLink : ∀ text, entry ≠ .link text)
    (name : String) (stands : ∀ root there, Deeper path there → below (node root there)) :
    Enclosed first path place (dir.createChild node entry disk name).2 ∧
      ∀ new, (dir.createChild node entry disk name).1 = some new → below new := by
  rcases dir.createChild_cases node entry disk name with refused | ⟨after, valid, -, made, created⟩
  · rw [refused]
    exact ⟨enclosed, by simp⟩
  · rw [created]
    refine ⟨enclosed.create down valid noLink made, ?_⟩
    rintro _ ⟨⟩
    exact stands _ _ (down.child (proper_of_validName valid))

theorem Enclosed.removeChild {dir : DirectoryNode} {wanted : Entry → Bool}
    {remove : Disk → Location → Except Refusal Disk} (down : Down path dir.path)
    (removes : ∀ {there after}, Deeper path there → remove disk there = .ok after → Enclosed first path place after)
    (name : String) : Enclosed first path place (dir.removeChild wanted remove disk name).2 := by
  rcases dir.removeChild_cases wanted remove disk name with refused | ⟨child, after, found, gone, removed⟩
  · rw [refused]
    exact enclosed
  · rw [removed]
    exact removes (deeper_of_child? down found) gone

end Steps

def part (first : Disk) (path place : Location) : Region Disk where
  holds := Enclosed first path place
  file node := Deeper path node.path
  directory node := Down path node.path
  below node := Deeper path node.path
  directory_of_below deeper := deeper.down
  subdirectories enclosed down listed := by
    obtain ⟨child, among, rfl⟩ := List.mem_map.mp listed
    exact deeper_of_childPaths enclosed down among
  file? _ down found := by
    obtain ⟨child, there, rfl⟩ := Option.map_eq_some_iff.mp found
    exact deeper_of_child? down there
  subdirectory? _ down found := by
    obtain ⟨child, there, rfl⟩ := Option.map_eq_some_iff.mp found
    exact deeper_of_child? down there
  write {s file} offset data enclosed deeper := by
    rcases write_cases s file offset data with same | ⟨change, changed⟩
    · rwa [same]
    · exact enclosed.changeFile deeper.down changed
  resize {s file} size enclosed deeper := by
    rcases resize_cases s file size with same | ⟨change, changed⟩
    · rwa [same]
    · exact enclosed.changeFile deeper.down changed
  renameFile name enclosed deeper := enclosed.renameAt deeper name
  renameDirectory name enclosed deeper := by
    simp only [Backing.renameDirectory, DirectoryNode.rename]
    split
    · exact enclosed
    · exact enclosed.renameAt deeper name
  createFile name enclosed down := enclosed.createChild down FileNode.mk (by simp) name fun _ _ deeper => deeper
  createSubdirectory name enclosed down :=
    enclosed.createChild down DirectoryNode.mk (by simp) name fun _ _ deeper => deeper
  deleteFile name enclosed down := enclosed.removeChild down (fun deeper => enclosed.removeFile deeper) name
  deleteSubdirectory name enclosed down := enclosed.removeChild down (fun deeper => enclosed.removeDirectory deeper) name

def viewAt (root : Root) (names : List String) : DirectoryView DirectoryNode := .direct ⟨root, root.path ++ names⟩

theorem viewAt_concat (root : Root) (names : List String) (name : String) :
    viewAt root (names ++ [name]) = ⟨⟨root, root.path ++ names ++ [name]⟩, false⟩ := by
  rw [viewAt, ← List.append_assoc]
  rfl

section Stand

variable {sub : DirectoryView DirectoryNode} (stand : disk.Stand root place names)
include stand

theorem Stand.subdirectory?_iff : (viewAt root names).subdirectory? disk name = some sub ↔
    disk.find? (place ++ names ++ [name]) = some .directory ∧
      root.admits (root.path ++ names ++ [name]) = true ∧ sub = viewAt root (names ++ [name]) := by
  have child : ∀ there, (viewAt root names).node.child? disk DirectoryNode.isDirectory name = some there ↔
      there = root.path ++ names ++ [name] ∧ root.admits there = true ∧
        ∃ entry, disk.find? (place ++ names ++ [name]) = some entry ∧ DirectoryNode.isDirectory entry = true :=
    fun there => stand.child?_iff rfl
  simp only [DirectoryView.subdirectory?, Backing.subdirectory?, Option.map_eq_some_iff, child]
  constructor
  · rintro ⟨node, ⟨there, ⟨rfl, admitted, entry, found, fits⟩, rfl⟩, rfl⟩
    cases entry with
    | directory => exact ⟨found, admitted, (viewAt_concat ..).symm⟩
    | file | link => cases fits
  · rintro ⟨found, admitted, rfl⟩
    exact ⟨_, ⟨_, ⟨rfl, admitted, .directory, found, rfl⟩, rfl⟩, (viewAt_concat ..).symm⟩

theorem Stand.mem_subdirectories : sub ∈ (viewAt root names).subdirectories disk ↔
    ∃ name, disk.find? (place ++ names ++ [name]) = some .directory ∧ sub = viewAt root (names ++ [name]) := by
  have child : ∀ there, there ∈ (viewAt root names).node.childPaths disk DirectoryNode.isDirectory ↔
      ∃ name entry, there = root.path ++ names ++ [name] ∧ disk.find? (place ++ names ++ [name]) = some entry ∧
        DirectoryNode.isDirectory entry = true := fun there => stand.mem_childPaths rfl
  simp only [DirectoryView.subdirectories, Backing.subdirectories, List.mem_map, child]
  constructor
  · rintro ⟨node, ⟨there, ⟨name, entry, rfl, found, fits⟩, rfl⟩, rfl⟩
    cases entry with
    | directory => exact ⟨name, found, (viewAt_concat ..).symm⟩
    | file | link => cases fits
  · rintro ⟨name, found, rfl⟩
    exact ⟨_, ⟨_, ⟨name, .directory, rfl, found, rfl⟩, rfl⟩, (viewAt_concat ..).symm⟩

theorem Stand.files_eq_nil_iff : (viewAt root names).files disk = [] ↔
    ∀ name bytes, disk.find? (place ++ names ++ [name]) ≠ some (.file bytes) := by
  have child : ∀ there, there ∈ (viewAt root names).node.childPaths disk DirectoryNode.isFile ↔
      ∃ name entry, there = root.path ++ names ++ [name] ∧ disk.find? (place ++ names ++ [name]) = some entry ∧
        DirectoryNode.isFile entry = true := fun there => stand.mem_childPaths rfl
  simp only [DirectoryView.files, Backing.files, List.map_eq_nil_iff]
  simp only [List.eq_nil_iff_forall_not_mem, child]
  constructor
  · intro none name bytes found
    exact none _ ⟨name, _, rfl, found, rfl⟩
  · rintro none there ⟨name, entry, -, found, fits⟩
    cases entry with
    | file bytes => exact none name bytes found
    | directory | link => cases fits

theorem Stand.isWritable : (viewAt root names).isWritable disk = true := by
  have led : root.targetAt? disk (root.path ++ names) = some .directory := by
    rw [Root.targetAt?_eq_some, targetAt?, stand.resolve]
    exact ⟨stand.admitted, stand.directory⟩
  simp [DirectoryView.isWritable, viewAt, DirectoryView.direct, Backing.directoryWritable, led]

theorem Stand.proper_of_found {entry : Entry} (found : disk.find? (place ++ names ++ [name]) = some entry) :
    Proper name := by
  rw [List.append_assoc] at found
  exact stand.tidy.proper found name (by simp)

end Stand

theorem name_viewAt (proper : Proper name) : (viewAt root (names ++ [name])).name disk = name := by
  rw [viewAt_concat]
  exact lastName_concat proper _

theorem Stand.finds_iff (stand : disk.Stand root place names) : (viewAt root names).Finds disk ↔
    ∀ name, disk.find? (place ++ names ++ [name]) = some .directory →
      root.admits (root.path ++ names ++ [name]) = true := by
  constructor
  · intro finds name found
    have listed := finds _ (stand.mem_subdirectories.mpr ⟨name, found, rfl⟩)
    rw [name_viewAt (stand.proper_of_found found)] at listed
    exact (stand.subdirectory?_iff.mp listed).2.1
  · intro admitted sub listed
    obtain ⟨name, found, rfl⟩ := stand.mem_subdirectories.mp listed
    rw [name_viewAt (stand.proper_of_found found)]
    exact stand.subdirectory?_iff.mpr ⟨found, admitted name found, rfl⟩

theorem descend?_iff (rooted : disk.Rooted root place) (tidy : disk.Tidy place) (top : root.admits root = true)
    {dir : DirectoryView DirectoryNode} :
    (viewAt root []).descend? disk names = some dir ↔
      disk.find? (place ++ names) = some .directory ∧ root.admits (root.path ++ names) = true ∧
        dir = viewAt root names := by
  induction names using List.reverseRecOn generalizing dir with
  | nil =>
    rw [List.append_nil, List.append_nil]
    exact ⟨fun reached => ⟨rooted.directory, top, (Option.some.inj reached).symm⟩,
      fun ⟨_, _, same⟩ => same ▸ rfl⟩
  | append_singleton front last ih =>
    rw [DirectoryView.descend?_concat, Option.bind_eq_some_iff, ← List.append_assoc, ← List.append_assoc]
    constructor
    · rintro ⟨holder, reached, found⟩
      obtain ⟨holds, admitted, rfl⟩ := ih.mp reached
      have stand : disk.Stand root place front := ⟨rooted, tidy, admitted, holds⟩
      exact stand.subdirectory?_iff.mp found
    · rintro ⟨found, admitted, rfl⟩
      have holds := rooted.sound.stands found
      have above := Root.admits_of_prefix (List.prefix_append _ _) admitted
      have stand : disk.Stand root place front := ⟨rooted, tidy, above, holds⟩
      exact ⟨_, ih.mpr ⟨holds, above, rfl⟩, stand.subdirectory?_iff.mpr ⟨found, admitted, rfl⟩⟩

section Level

variable (stand : disk.Stand root place names) (stand' : after.Stand root place names)
include stand stand'

theorem sameLevel
    (same : ∀ name, SameKind (disk.find? (place ++ names ++ [name])) (after.find? (place ++ names ++ [name]))) :
    SameLevel disk after (viewAt root names) := by
  have directories : ∀ name, after.find? (place ++ names ++ [name]) = some .directory ↔
      disk.find? (place ++ names ++ [name]) = some .directory := by
    intro name
    rcases same name with equal | ⟨old, new, stood, stands⟩
    · rw [equal]
    · rw [stood, stands]
      simp
  refine ⟨fun none => ?_, fun name => Option.ext fun sub => ?_, fun finds => ?_, ?_⟩
  · rw [stand.files_eq_nil_iff] at none
    refine stand'.files_eq_nil_iff.mpr fun name bytes found => ?_
    rcases same name with equal | ⟨old, -, stood, -⟩
    · exact none name bytes (equal.trans found)
    · exact none name old stood
  · rw [stand'.subdirectory?_iff, stand.subdirectory?_iff, directories]
  · exact stand'.finds_iff.mpr fun name found => stand.finds_iff.mp finds name ((directories name).mp found)
  · rw [stand.isWritable, stand'.isWritable]

end Level

theorem Stand.lt_reach (stand : disk.Stand root place names) {more : List String}
    (found : disk.find? (place ++ (names ++ more)) = some .directory) :
    more.length < Backing.reach disk (viewAt root names).node := by
  rw [← List.append_assoc] at found
  exact stand.rooted.sound.lt_reach stand.resolve found

section Holds

variable {s : Disk} {dir sub : DirectoryView DirectoryNode}

theorem stand_of_reached (holds : disk.Rooted root place ∧ disk.Tidy place) (top : root.admits root = true)
    (reached : (viewAt root []).descend? disk names = some dir) :
    disk.Stand root place names ∧ dir = viewAt root names := by
  obtain ⟨found, admitted, rfl⟩ := (descend?_iff holds.1 holds.2 top).mp reached
  exact ⟨⟨holds.1, holds.2, admitted, found⟩, rfl⟩

theorem Stand.found (stand : disk.Stand root place names)
    (found : (viewAt root names).subdirectory? disk name = some sub) :
    sub ∈ (viewAt root names).subdirectories disk ∧ sub.name disk = name := by
  obtain ⟨stands, -, rfl⟩ := stand.subdirectory?_iff.mp found
  exact ⟨stand.mem_subdirectories.mpr ⟨name, stands, rfl⟩, name_viewAt (stand.proper_of_found stands)⟩

theorem Stand.listed (stand : disk.Stand root place names) (listed : sub ∈ (viewAt root names).subdirectories disk) :
    (viewAt root names).subdirectory? disk (sub.name disk) = some sub ∨
      sub.files disk = [] ∧ sub.subdirectories disk = [] := by
  obtain ⟨name, found, rfl⟩ := stand.mem_subdirectories.mp listed
  rw [name_viewAt (stand.proper_of_found found)]
  by_cases admitted : root.admits (root.path ++ names ++ [name]) = true
  · exact .inl (stand.subdirectory?_iff.mpr ⟨found, admitted, rfl⟩)
  · have bare : ∀ wanted, (viewAt root (names ++ [name])).node.childPaths disk wanted = [] := fun wanted =>
      List.eq_nil_iff_forall_not_mem.mpr fun child among =>
        admitted (List.append_assoc .. ▸ (DirectoryNode.mem_childPaths.mp among).1)
    simp [DirectoryView.files, DirectoryView.subdirectories, Backing.files, Backing.subdirectories, bare]

theorem Stand.names_nodup (stand : disk.Stand root place names) :
    (((viewAt root names).subdirectories disk).map (·.name disk)).Nodup := by
  have listed : (viewAt root names).node.childPaths disk DirectoryNode.isDirectory =
      ((disk.children (place ++ names)).filter (DirectoryNode.isDirectory ·.2)).map
        fun e => root.path ++ names ++ [e.1] := stand.childPaths_eq rfl
  have told : ((viewAt root names).subdirectories disk).map (·.name disk) =
      ((disk.children (place ++ names)).filter (DirectoryNode.isDirectory ·.2)).map (·.1) := by
    simp only [DirectoryView.subdirectories, Backing.subdirectories, listed, List.map_map]
    refine List.map_congr_left fun e among => ?_
    have found := stand.rooted.sound.mem_children.mp (List.mem_of_mem_filter among)
    have named : (viewAt root (names ++ [e.1])).name disk = e.1 := name_viewAt (stand.proper_of_found found)
    rwa [viewAt_concat] at named
  rw [told]
  exact (stand.rooted.sound.children_nodup _).sublist (List.filter_sublist.map _)

theorem find?_around_of_below {there : Location} (below : Below place there) (disk : Disk) :
    (disk.around place).find? there = none := by
  cases found : (disk.around place).find? there with
  | none => rfl
  | some entry =>
    have some_ : there ≠ [] := fun top => below.2 (List.prefix_nil.mp (top ▸ below.1) ▸ top)
    have listed := List.mem_filter.mp (mem_of_find? some_ found)
    exact absurd below (by simpa using listed.2)

theorem Rooted.filled (rooted : disk.Rooted root place) {there : Location} {old : Bytes}
    (found : disk.find? there = some (.file old)) (bytes : Bytes) : (disk.filled there bytes).Rooted root place := by
  have alike := sameKind_filled found bytes
  refine ⟨filled_sound rooted.sound found bytes, ?_, ?_⟩
  · -- the way to the place meets the same directories and links as before
    rw [resolve_of_sameKind fun spot => ?_]
    · exact rooted.leads
    · by_cases below : Below place spot
      · exact .inl ((find?_around_of_below below _).trans (find?_around_of_below below _).symm)
      · rw [find?_around below, find?_around below]
        exact alike spot
  · rcases alike place with same | ⟨_, _, file, _⟩
    · rw [← same, rooted.directory]
    · rw [rooted.directory] at file
      cases file

theorem changeFile_steady (holds : disk.Rooted root place ∧ disk.Tidy place) (top : root.admits root = true)
    {file : Location} {change : Bytes → Bytes} (changed : disk.changeFile file change = .ok after) :
    Steady (fun s => s.Rooted root place ∧ s.Tidy place) (viewAt root []) disk after := by
  obtain ⟨there, bytes, -, found, rfl⟩ := changeFile_eq_ok changed
  have holds' := And.intro (holds.1.filled found (change bytes)) (holds.2.filled found (change bytes))
  refine ⟨holds', fun names dir reached => ?_⟩
  obtain ⟨stand, rfl⟩ := stand_of_reached holds top reached
  have alike := sameKind_filled found (change bytes)
  refine sameLevel stand ⟨holds'.1, holds'.2, stand.admitted, ?_⟩ fun name => alike _
  rcases alike (place ++ names) with same | ⟨_, _, file, _⟩
  · rw [← same, stand.directory]
  · rw [stand.directory] at file
    cases file

end Holds

section Create

variable (stand : disk.Stand root place names) (usable : Path.Usable name)
  (free : disk.find? (place ++ names ++ [name]) = none)
include stand usable free

theorem Stand.create {entry : Entry} : disk.create (root.path ++ names ++ [name]) entry =
    .ok (disk.put (place ++ names ++ [name]) entry) := by
  obtain ⟨-, short, clean⟩ := usable_iff.mp usable
  rw [Disk.create, stand.resolveParent short clean]
  simp only [free]
  rfl

theorem Stand.makes (admitted : root.admits (root.path ++ names ++ [name]) = true) :
    Makes (viewAt root []) disk (disk.put (place ++ names ++ [name]) .directory) names name
      (viewAt root (names ++ [name])) := by
  have tidies : Tidies place disk (disk.put (place ++ names ++ [name]) .directory) :=
    put_tidies stand.tidy stand.directory usable free (by simp)
  have found := find?_put free .directory
  have later : ∀ {others}, disk.Stand root place others →
      (disk.put (place ++ names ++ [name]) .directory).Stand root place others := by
    intro others old
    refine ⟨stand.rooted.keeps tidies.toKeeps, tidies.tidy, old.admitted, ?_⟩
    rw [found, old.directory, ite_self]
  have new : (disk.put (place ++ names ++ [name]) .directory).Stand root place (names ++ [name]) := by
    refine ⟨stand.rooted.keeps tidies.toKeeps, tidies.tidy, List.append_assoc .. ▸ admitted, ?_⟩
    rw [found, if_pos (List.append_assoc ..).symm]
  have bare : ∀ other,
      (disk.put (place ++ names ++ [name]) .directory).find? (place ++ (names ++ [name]) ++ [other]) = none := by
    intro other
    rw [← List.append_assoc, found, if_neg (by simp)]
    -- nothing can have stood below a place that was free
    refine stand.rooted.sound.nothing_below (by simp) fun holds => ?_
    rw [free] at holds
    cases holds
  refine ⟨?_, fun wanted => ?_, new.finds_iff.mpr fun other stood => (nomatch (bare other).symm.trans stood),
    new.isWritable, fun reached => ?_, fun reached finds => ?_, fun reached => ?_,
    fun {others _} reached wanted => ?_⟩
  · exact new.files_eq_nil_iff.mpr fun other bytes stood => nomatch (bare other).symm.trans stood
  · refine Option.eq_none_iff_forall_ne_some.mpr fun sub inside => ?_
    exact nomatch (bare wanted).symm.trans (new.subdirectory?_iff.mp inside).1
  · obtain ⟨old, rfl⟩ := stand_of_reached ⟨stand.rooted, stand.tidy⟩ stand.top reached
    rw [old.files_eq_nil_iff, (later old).files_eq_nil_iff]
    intro none other bytes stood
    rw [found] at stood
    split at stood
    · cases stood
    · exact none other bytes stood
  · obtain ⟨old, rfl⟩ := stand_of_reached ⟨stand.rooted, stand.tidy⟩ stand.top reached
    refine (later old).finds_iff.mpr fun other stood => ?_
    rw [found] at stood
    split at stood
    · rename_i here
      obtain ⟨above, last⟩ := List.append_inj' here rfl
      obtain rfl := List.append_cancel_left above
      rwa [List.singleton_inj.mp last]
    · exact old.finds_iff.mp finds other stood
  · obtain ⟨old, rfl⟩ := stand_of_reached ⟨stand.rooted, stand.tidy⟩ stand.top reached
    rw [old.isWritable, (later old).isWritable]
  · obtain ⟨old, rfl⟩ := stand_of_reached ⟨stand.rooted, stand.tidy⟩ stand.top reached
    split
    · rename_i here
      obtain ⟨rfl, rfl⟩ := here
      exact (later old).subdirectory?_iff.mpr ⟨by rw [found, if_pos rfl], admitted, rfl⟩
    · rename_i elsewhere
      refine Option.ext fun sub => ?_
      have apart : place ++ others ++ [wanted] ≠ place ++ names ++ [name] := by
        intro same
        obtain ⟨above, last⟩ := List.append_inj' same rfl
        exact elsewhere ⟨List.append_cancel_left above, List.singleton_inj.mp last⟩
      rw [(later old).subdirectory?_iff, old.subdirectory?_iff, found, if_neg apart]

end Create

section Part

theorem below_of_below {there : Location} (below : Below (place ++ names) there) : Below place there := by
  refine ⟨(List.prefix_append _ _).trans below.1, ?_⟩
  rintro rfl
  have upward : there ++ names = there := below.1.eq_of_length_le (by simp)
  exact below.2 upward.symm

theorem not_below_above (place : Location) (names : List String) : ¬ Below (place ++ names) place :=
  fun below => (below_of_below below).2 rfl

theorem around_around (disk : Disk) (place : Location) (names : List String) :
    (disk.around (place ++ names)).around place = disk.around place := by
  rw [around, around, around, mk.injEq, List.filter_filter]
  refine List.filter_congr fun e _ => ?_
  by_cases inner : Below (place ++ names) e.1
  · simp [below_of_below inner]
  · simp [inner]

theorem around_sound (sound : disk.Sound) (place : Location) : (disk.around place).Sound := by
  have kept : ∀ e ∈ (disk.around place).entries, e ∈ disk.entries := fun e listed => List.mem_of_mem_filter listed
  refine ⟨sound.places_nodup.sublist (List.filter_sublist.map _), fun e listed => sound.below_top e (kept e listed),
    fun e listed => ?_, fun e listed => sound.proper e (kept e listed)⟩
  have outside : ¬ Below place e.1 := by simpa using (List.mem_filter.mp listed).2
  have apart : ¬ Below place e.1.dropLast := by
    intro below
    have whole := List.dropLast_append_getLast (sound.below_top e (kept e listed))
    exact outside (whole ▸ below.append _)
  rw [find?_around apart]
  exact sound.held e (kept e listed)

variable (stand : disk.Stand root place names)
include stand

theorem Stand.rooted_below : disk.Rooted (root.path ++ names) (place ++ names) := by
  -- the way to the directory passes nothing inside it, so it is walked on the disk without that
  have outer : (disk.around (place ++ names)).Stand root place names := by
    refine ⟨⟨around_sound stand.rooted.sound _, ?_, ?_⟩, ?_, stand.admitted, ?_⟩
    · rw [around_around]
      exact stand.rooted.leads
    · rw [find?_around (not_below_above place names)]
      exact stand.rooted.directory
    · exact stand.tidy.of_fewer fun _ _ => find?_around_some
    · rw [find?_around fun below => below.2 rfl]
      exact stand.directory
  exact ⟨stand.rooted.sound, outer.resolve, stand.directory⟩

theorem Stand.enclosed_unmoved {s : Disk} (enclosed : Enclosed disk (root.path ++ names) (place ++ names) s) :
    (s.Rooted root place ∧ s.Tidy place) ∧ ∀ others dir, ¬ names <+: others →
      (viewAt root []).descend? disk others = some dir → SameLevel disk s dir := by
  have same : ∀ {there}, ¬ Below (place ++ names) there → s.find? there = disk.find? there := by
    intro there apart
    rw [← find?_around apart, enclosed.around, find?_around apart]
  have rooted : s.Rooted root place := by
    refine ⟨enclosed.rooted.sound, ?_, ?_⟩
    · rw [← around_around s place names, enclosed.around, around_around]
      exact stand.rooted.leads
    · rw [same (not_below_above place names)]
      exact stand.rooted.directory
  have tidy : s.Tidy place := by
    intro more entry found
    by_cases below : Below (place ++ names) (place ++ more)
    · -- inside, names above are as tidy as before, and those below are by the region
      obtain ⟨rest, rfl⟩ := (List.prefix_append_right_inj place).mp below.1
      rw [← List.append_assoc] at found
      obtain ⟨inside, noLink⟩ := enclosed.tidy rest entry found
      have above := (stand.tidy names _ stand.directory).1
      exact ⟨fun name among => (List.mem_append.mp among).elim (above name) (inside name), noLink⟩
    · rw [same below] at found
      exact stand.tidy more entry found
  refine ⟨⟨rooted, tidy⟩, fun others dir apart reached => ?_⟩
  obtain ⟨old, rfl⟩ := stand_of_reached ⟨stand.rooted, stand.tidy⟩ stand.top reached
  have here : ¬ Below (place ++ names) (place ++ others) :=
    fun below => apart ((List.prefix_append_right_inj place).mp below.1)
  refine sameLevel old ⟨rooted, tidy, old.admitted, (same here).trans old.directory⟩ fun name => .inl (same ?_).symm
  intro below
  rw [List.append_assoc] at below
  rcases List.prefix_concat_iff.mp ((List.prefix_append_right_inj place).mp below.1) with whole | short
  · exact below.2 (whole ▸ rfl)
  · exact apart short

end Part

/-- Below a root on a host that stands in a tidy place, directories can be made and worked in. -/
def ground (root : Root) (place : Location) (top : root.admits root = true) : Ground Disk (viewAt root []) where
  holds s := s.Rooted root place ∧ s.Tidy place
  room names := root.admits (root.path ++ names) = true
  room_nil := by rwa [List.append_nil]
  room_of_prefix short room := Root.admits_of_prefix ((List.prefix_append_right_inj _).mpr short) room
  found holds reached := by
    obtain ⟨stand, rfl⟩ := stand_of_reached holds top reached
    exact stand.found
  listed holds reached := by
    obtain ⟨stand, rfl⟩ := stand_of_reached holds top reached
    exact stand.listed
  names_nodup holds reached := by
    obtain ⟨stand, rfl⟩ := stand_of_reached holds top reached
    exact stand.names_nodup
  short {s names dir more sub} holds reached further := by
    have led : (viewAt root []).descend? s (names ++ more) = some sub := by
      rw [DirectoryView.descend?_append, reached]
      exact further
    obtain ⟨stand, rfl⟩ := stand_of_reached holds top reached
    exact stand.lt_reach (stand_of_reached holds top led).1.directory
  create {s names dir name} holds reached usable room files missing _ := by
    obtain ⟨stand, rfl⟩ := stand_of_reached holds top reached
    have free : s.find? (place ++ names ++ [name]) = none := by
      cases found : s.find? (place ++ names ++ [name]) with
      | none => rfl
      | some entry =>
        cases entry with
        | file bytes => exact absurd found (stand.files_eq_nil_iff.mp files name bytes)
        | directory =>
          exact nomatch missing.symm.trans (stand.subdirectory?_iff.mpr ⟨found, by rwa [List.append_assoc], rfl⟩)
        | link text =>
          rw [List.append_assoc] at found
          exact absurd rfl ((stand.tidy _ _ found).2 text)
    have tidies : Tidies place s (s.put (place ++ names ++ [name]) .directory) :=
      put_tidies stand.tidy stand.directory usable free (by simp)
    rw [← List.append_assoc] at room
    refine ⟨_, _, ?_, ⟨stand.rooted.keeps tidies.toKeeps, tidies.tidy⟩, stand.makes usable free room⟩
    rw [viewAt_concat]
    have valid := (usable_iff.mp usable).1
    simp only [DirectoryView.createSubdirectory, viewAt, DirectoryView.direct, Backing.createSubdirectory,
      DirectoryNode.createSubdirectory, DirectoryNode.childPath, valid, stand.create usable free,
      Root.handing_of_admits room, Bool.not_true,
      Bool.false_eq_true, if_false, Option.map_some]
  refuse {s names dir name} holds reached refused := by
    obtain ⟨stand, rfl⟩ := stand_of_reached holds top reached
    rw [stand.isWritable] at refused
    have long : root.admits (root.path ++ names ++ [name]) = false := by simpa using refused
    simp only [DirectoryView.createSubdirectory, viewAt, DirectoryView.direct, Backing.createSubdirectory,
      DirectoryNode.createSubdirectory, DirectoryNode.childPath, Root.handing, long, Bool.false_eq_true, if_false]
    split <;> rfl
  write {s} file offset data holds := by
    rcases write_cases s file offset data with same | ⟨change, changed⟩
    · rw [same]
      exact .refl _ holds
    · exact changeFile_steady holds top changed
  resize {s} file size holds := by
    rcases resize_cases s file size with same | ⟨change, changed⟩
    · rw [same]
      exact .refl _ holds
    · exact changeFile_steady holds top changed
  part {s names dir} holds _ reached := by
    obtain ⟨stand, rfl⟩ := stand_of_reached holds top reached
    refine ⟨s.part (root.path ++ names) (place ++ names), ⟨stand.rooted_below, stand.tidy.below names, rfl⟩,
      ⟨[], by simp, (List.append_nil _).symm⟩, fun s' enclosed => stand.enclosed_unmoved enclosed⟩

section Opened

variable {fileLimit : Nat} {start : Location} {text : String} {dir : DirectoryNode}

/-- A root is known by the path that leads to it, and opens again as long as the path leads there. -/
theorem openRoot_eq_ok (opened : disk.openRoot fileLimit start text = .ok dir) : ∃ (root : Root) (place : Location),
    dir = ⟨root, root⟩ ∧ root.admits root = true ∧ disk.resolve root = .ok place ∧
      disk.find? place = some .directory ∧
      ∀ {later : Disk}, later.Rooted root place → later.openRoot fileLimit start text = .ok dir := by
  rw [openRoot] at opened
  split at opened
  · cases opened
  · rename_i some_
    split at opened
    · cases opened
    · rename_i short
      dsimp only at opened
      split at opened
      · cases opened
      · rename_i place leads
        split at opened
        · rename_i directory
          cases opened
          refine ⟨_, place, rfl, decide_eq_true ?_, leads, directory, fun rooted => ?_⟩
          · simp only [Root.ofText]
            omega
          · simp only [openRoot, if_neg some_, if_neg short, rooted.resolve, rooted.directory]
        · cases opened

variable (sound : disk.Sound) (bare : disk.children place = [])
include sound bare

end Opened

end GuestStorage.Host.Disk

namespace GuestStorage.Host

def dotted (dots : Nat) (text : String) : String :=
  String.ofList ('/' :: ((List.replicate dots ['.', '/']).flatten ++ text.toList))

variable {dots : Nat} {text : String} {names : List String}

theorem utf8ByteSize_dotted (dots : Nat) (text : String) :
    (dotted dots text).utf8ByteSize = 2 * dots + 1 + text.utf8ByteSize := by
  have steps : (String.ofList (List.replicate dots ['.', '/']).flatten).utf8ByteSize = 2 * dots := by
    induction dots with
    | zero => rfl
    | succ dots ih =>
      rw [List.replicate_succ, List.flatten_cons, String.ofList_append, String.utf8ByteSize_append, ih]
      have one : (String.ofList ['.', '/']).utf8ByteSize = 2 := by decide
      omega
  have whole : dotted dots text = "/" ++ (String.ofList (List.replicate dots ['.', '/']).flatten ++ text) := by
    rw [← String.toList_inj]
    simp [dotted]
  have slash : "/".utf8ByteSize = 1 := by decide
  rw [whole, String.utf8ByteSize_append, String.utf8ByteSize_append, steps]
  omega

theorem cut_dotted (dots : Nat) (text : String) : Text.cut (· == '/') (dotted dots text).toList =
    [] :: (List.replicate dots ['.'] ++ Text.cut (· == '/') text.toList) := by
  rw [dotted, String.toList_ofList, Text.cut, if_pos (by rfl), List.cons.injEq, and_iff_right rfl]
  induction dots with
  | zero => rfl
  | succ dots ih =>
    rw [List.replicate_succ, List.flatten_cons, List.append_assoc]
    exact (Text.cut_append_cons (by rfl) ['.'] _).trans (congrArg (['.'] :: ·) ih)

theorem Root.ofText_dotted (parts : (Text.cut (· == '/') text.toList).map String.ofList = names)
    (proper : ∀ name ∈ names, name ≠ "" ∧ name ≠ ".") (fileLimit : Nat) (start : Location) (dots : Nat) :
    Root.ofText fileLimit start (dotted dots text) =
      ⟨names, pathLimit + textLength names - (2 * dots + 1 + text.utf8ByteSize), fileLimit⟩ := by
  have ends : ∃ front last, names = front ++ [last] := by
    rcases List.eq_nil_or_concat' names with rfl | ends
    · exact absurd (List.map_eq_nil_iff.mp parts) (Text.cut_ne_nil _ _)
    · exact ends
  obtain ⟨front, last, whole⟩ := ends
  have read : PathText.ofText (dotted dots text) = ⟨true, (List.replicate dots "." ++ names).reverse⟩ := by
    rw [PathText.ofText, cut_dotted, ← parts]
    simp [dotted]
  have closed : (PathText.ofText (dotted dots text)).wantsDirectory = false := by
    rw [read, PathText.wantsDirectory, whole]
    simpa using (proper last (by simp [whole])).1
  have given : ((PathText.ofText (dotted dots text)).names start).filter (· != ".") = names := by
    rw [PathText.names, PathText.given, closed, read]
    simp only [if_true, List.nil_append, List.reverse_reverse, List.filter_append, Bool.false_eq_true, if_false,
      List.append_nil]
    rw [List.filter_eq_nil_iff.mpr (by simp +contextual [List.mem_replicate]), List.nil_append, List.filter_filter]
    refine List.filter_eq_self.mpr fun name among => ?_
    simpa using And.symm (proper name among)
  rw [Root.ofText, closed, given, utf8ByteSize_dotted]
  simp

theorem Disk.openRoot_dotted {disk : Disk} {place : Location}
    (parts : (Text.cut (· == '/') text.toList).map String.ofList = names)
    (proper : ∀ name ∈ names, name ≠ "" ∧ name ≠ ".") (short : 2 * dots + 1 + text.utf8ByteSize ≤ pathLimit)
    (leads : disk.resolve names = .ok place) (directory : disk.find? place = some .directory) (fileLimit : Nat)
    (start : Location) : disk.openRoot fileLimit start (dotted dots text) =
      .ok ⟨⟨names, pathLimit + textLength names - (2 * dots + 1 + text.utf8ByteSize), fileLimit⟩, names⟩ := by
  have some_ : ¬ (dotted dots text == "") = true := by
    rw [beq_iff_eq, ← String.toList_inj]
    simp [dotted]
  rw [Disk.openRoot, if_neg some_, utf8ByteSize_dotted, if_neg (Nat.not_lt.mpr short),
    Root.ofText_dotted parts proper]
  simp only [leads, directory]

end GuestStorage.Host
