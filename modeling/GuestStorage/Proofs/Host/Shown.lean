import GuestStorage.Proofs.Host.Ground

namespace GuestStorage.Host

abbrev View := List String → Option Entry

namespace View

def set (view : View) (key : List String) (entry : Entry) : View :=
  fun other => if other = key then some entry else view other

def cut (view : View) (key : List String) : View := fun other => if key <+: other then none else view other

def clear (view : View) (key : List String) : View :=
  fun other => if key <+: other ∧ other ≠ key then none else view other

def graft (view : View) (source target : List String) : View :=
  fun other => if target <+: other then view (source ++ other.drop target.length) else view other

def Admitted (view : View) (root : Root) : Prop :=
  ∀ key entry, view key = some entry → root.admits (root.path ++ key) = true

variable {view : View} {key : List String} {entry : Entry} {root : Root}

theorem Admitted.set (admitted : view.Admitted root) (room : root.admits (root.path ++ key) = true) :
    (view.set key entry).Admitted root := by
  intro other found shown
  rw [View.set] at shown
  split at shown
  · rename_i here
    exact here ▸ room
  · exact admitted other found shown

theorem Admitted.of_fewer {next : View} (admitted : view.Admitted root)
    (fewer : ∀ other found, next other = some found → view other = some found) : next.Admitted root :=
  fun other found shown => admitted other found (fewer other found shown)

theorem cut_some {other : List String} (shown : view.cut key other = some entry) : view other = some entry := by
  rw [cut] at shown
  split at shown
  · cases shown
  · exact shown

theorem set_at (view : View) (key : List String) (entry : Entry) : view.set key entry key = some entry := if_pos rfl

theorem set_of_ne (view : View) {other : List String} (entry : Entry) (apart : other ≠ key) :
    view.set key entry other = view other := if_neg apart

theorem set_self (found : view key = some entry) : view.set key entry = view := by
  funext other
  rw [set]
  split
  · rename_i same
    rw [same, found]
  · rfl

theorem set_set (view : View) (key : List String) (first second : Entry) :
    (view.set key first).set key second = view.set key second := by
  funext other
  simp only [set]
  split <;> rfl

end View

namespace Disk

open GuestStorage.Tree Keyed

variable {disk after : Disk} {root : Root} {place : Location} {names key : List String} {name : String} {entry : Entry}
  {view : View}

def fileAt (root : Root) (names : List String) : FileView FileNode := .direct ⟨root, root.path ++ names⟩

theorem fileAt_concat (root : Root) (names : List String) (name : String) :
    fileAt root (names ++ [name]) = ⟨⟨root, root.path ++ names ++ [name]⟩, false⟩ := by
  rw [fileAt, ← List.append_assoc]
  rfl

structure Shown (disk : Disk) (root : Root) (place : Location) (view : View) : Prop where
  rooted : disk.Rooted root place
  tidy : disk.Tidy place
  admitted : view.Admitted root
  find? : ∀ key, disk.find? (place ++ key) = view key

namespace Shown

variable (shown : disk.Shown root place view)
include shown

theorem stand (directory : view names = some .directory) : disk.Stand root place names :=
  ⟨shown.rooted, shown.tidy, shown.admitted names _ directory, (shown.find? names).trans directory⟩

theorem find?_child (names : List String) (name : String) :
    disk.find? (place ++ names ++ [name]) = view (names ++ [name]) := by rw [List.append_assoc, shown.find?]

theorem directory_above {rest : List String} (found : view (names ++ rest) = some entry) (below : rest ≠ []) :
    view names = some .directory := by
  rw [← shown.find?, ← List.append_assoc] at found
  exact (shown.find? names).symm.trans (shown.rooted.sound.stands_below below found)

theorem nothing_below {rest : List String} (other : view names ≠ some .directory) (below : rest ≠ []) :
    view (names ++ rest) = none :=
  Option.eq_none_iff_forall_ne_some.mpr fun _ found => other (shown.directory_above found below)

theorem absent_below (free : view names = none) (rest : List String) : view (names ++ rest) = none := by
  by_cases here : rest = []
  · rw [here, List.append_nil, free]
  · exact shown.nothing_below (by simp [free]) here

theorem usable (found : view key = some entry) : ∀ name ∈ key, Path.Usable name :=
  (shown.tidy key entry ((shown.find? key).trans found)).1

theorem not_link (text : String) : view key ≠ some (.link text) :=
  fun found => (shown.tidy key _ ((shown.find? key).trans found)).2 text rfl

theorem resolve (found : view key = some entry) : disk.resolve (root.path ++ key) = .ok (place ++ key) := by
  have stands := (shown.find? key).trans found
  rw [shown.rooted.resolve_append (shown.tidy.plain (shown.tidy.proper stands))]
  exact shown.tidy.walk shown.rooted.sound stands

theorem of_tidies (tidies : Tidies place disk after) {next : View} (admitted : next.Admitted root)
    (find? : ∀ key, after.find? (place ++ key) = next key) : after.Shown root place next :=
  ⟨shown.rooted.keeps tidies.toKeeps, tidies.tidy, admitted, find?⟩

section Entries

theorem put (directory : view names = some .directory) (usable : Path.Usable name)
    (free : view (names ++ [name]) = none) (room : root.admits (root.path ++ (names ++ [name])) = true)
    (noLink : ∀ text, entry ≠ .link text) :
    (disk.put (place ++ names ++ [name]) entry).Shown root place (view.set (names ++ [name]) entry) := by
  have vacant := (shown.find?_child names name).trans free
  refine shown.of_tidies (put_tidies shown.tidy (shown.stand directory).directory usable vacant noLink)
    (shown.admitted.set room) ?_
  intro key
  rw [find?_put vacant, shown.find?]
  simp only [List.append_assoc, List.append_right_inj, View.set]

theorem erase (bare : ∀ more, more ≠ [] → view (names ++ [name] ++ more) = none) :
    (disk.erase (place ++ names ++ [name])).Shown root place (view.cut (names ++ [name])) := by
  refine shown.of_tidies (erase_tidies shown.tidy (below_concat place names name) fun sound e listed here => ?_) ?_
    fun key => ?_
  · have stands := sound.find?_of_listed listed
    rw [← List.dropLast_append_getLast (sound.below_top e listed), here, List.append_assoc, List.append_assoc,
      shown.find?, ← List.append_assoc, bare _ (by simp)] at stands
    cases stands
  · exact shown.admitted.of_fewer fun _ _ => View.cut_some
  · rw [find?_erase disk (by simp), shown.find?]
    simp only [List.append_assoc, List.append_right_inj, View.cut]
    by_cases here : key = names ++ [name]
    · rw [if_pos here, if_pos (here ▸ List.prefix_refl _)]
    · rw [if_neg here]
      split
      · rename_i below
        obtain ⟨more, rfl⟩ := below
        exact bare more fun none => here (by rw [none, List.append_nil])
      · rfl

theorem filled {old : Bytes} (found : view key = some (.file old)) (bytes : Bytes) :
    (disk.filled (place ++ key) bytes).Shown root place (view.set key (.file bytes)) := by
  have stands := (shown.find? key).trans found
  refine ⟨shown.rooted.filled stands bytes, shown.tidy.filled stands bytes,
    shown.admitted.set (shown.admitted key _ found), fun other => ?_⟩
  rw [find?_filled stands, shown.find?]
  simp only [List.append_right_inj, View.set]

theorem moved {old new : String} (found : view (names ++ [old]) = some entry) (usable : Path.Usable new)
    (free : view (names ++ [new]) = none) (room : View.Admitted (rekey (names ++ [old]) (names ++ [new]) view) root) :
    (disk.moved (place ++ names ++ [old]) (place ++ names ++ [new])).Shown root place
      (rekey (names ++ [old]) (names ++ [new]) view) := by
  have holds := (shown.find? names).trans (shown.directory_above found (by simp))
  have vacant := (shown.find?_child names new).trans free
  have apart : ¬ place ++ names ++ [old] <+: place ++ names ++ [new] := by
    rw [List.prefix_append_right_inj]
    rintro ⟨rest, same⟩
    obtain ⟨rfl, -⟩ := List.cons.inj same
    rw [found] at free
    cases free
  have tidies : Tidies place disk (disk.moved (place ++ names ++ [old]) (place ++ names ++ [new])) :=
    ⟨keeps_moved usable.proper (below_concat _ _ _) (below_concat _ _ _) vacant apart holds,
      shown.tidy.moved shown.rooted.sound usable vacant apart⟩
  refine shown.of_tidies tidies room fun key => ?_
  rw [find?_moved shown.rooted.sound vacant (by simp), List.append_assoc, List.append_assoc, rekey_below]
  exact congrArg (rekey _ _ · key) (funext shown.find?)

end Entries

section Directories

variable (directory : view names = some .directory)
include directory

theorem child?_eq (wanted : Entry → Bool) (name : String) :
    (viewAt root names).node.child? disk wanted name =
      ((view (names ++ [name])).filter wanted).map fun _ => root.path ++ names ++ [name] := by
  ext child
  rw [(shown.stand directory).child?_iff (rfl : (viewAt root names).node = _), shown.find?_child]
  simp only [Option.map_eq_some_iff, Option.filter_eq_some_iff]
  constructor
  · rintro ⟨rfl, -, entry, found⟩
    exact ⟨entry, found, rfl⟩
  · rintro ⟨entry, found, rfl⟩
    refine ⟨rfl, ?_, entry, found⟩
    rw [List.append_assoc]
    exact shown.admitted _ _ found.1

theorem file?_eq (name : String) : (viewAt root names).file? disk name =
    ((view (names ++ [name])).filter DirectoryNode.isFile).map fun _ => fileAt root (names ++ [name]) := by
  simp only [DirectoryView.file?, Backing.file?, shown.child?_eq directory, Option.map_map]
  rw [fileAt_concat]
  rfl

theorem subdirectory?_eq (name : String) : (viewAt root names).subdirectory? disk name =
    ((view (names ++ [name])).filter DirectoryNode.isDirectory).map fun _ => viewAt root (names ++ [name]) := by
  simp only [DirectoryView.subdirectory?, Backing.subdirectory?, shown.child?_eq directory, Option.map_map]
  rw [viewAt_concat]
  rfl

def childNames (disk : Disk) (holder : Location) (wanted : Entry → Bool) : List String :=
  ((disk.children holder).filter (wanted ·.2)).map (·.1)

omit directory in
theorem mem_childNames {wanted : Entry → Bool} : name ∈ childNames disk (place ++ names) wanted ↔
    ∃ entry, view (names ++ [name]) = some entry ∧ wanted entry = true := by
  simp only [childNames, List.mem_map, List.mem_filter, Prod.exists, exists_and_right, exists_eq_right,
    shown.rooted.sound.mem_children, shown.find?_child]

omit directory in
theorem childNames_nodup (names : List String) (wanted : Entry → Bool) :
    (childNames disk (place ++ names) wanted).Nodup :=
  (shown.rooted.sound.children_nodup _).sublist (List.filter_sublist.map _)

theorem childPaths_eq (wanted : Entry → Bool) : (viewAt root names).node.childPaths disk wanted =
    (childNames disk (place ++ names) wanted).map fun name => root.path ++ names ++ [name] := by
  rw [(shown.stand directory).childPaths_eq (rfl : (viewAt root names).node = _), childNames, List.map_map]
  rfl

theorem files_eq : (viewAt root names).files disk =
    (childNames disk (place ++ names) DirectoryNode.isFile).map fun name => fileAt root (names ++ [name]) := by
  simp only [DirectoryView.files, Backing.files, shown.childPaths_eq directory, List.map_map,
    fileAt_concat]
  rfl

theorem subdirectories_eq : (viewAt root names).subdirectories disk =
    (childNames disk (place ++ names) DirectoryNode.isDirectory).map fun name =>
      viewAt root (names ++ [name]) := by
  simp only [DirectoryView.subdirectories, Backing.subdirectories, shown.childPaths_eq directory, List.map_map,
    viewAt_concat]
  rfl

theorem isWritable : (viewAt root names).isWritable disk = true := (shown.stand directory).isWritable

end Directories

section Files

variable {old : Bytes} (found : view key = some (.file old))
include found

theorem targetAt? : root.targetAt? disk (root.path ++ key) = some (.file old) := by
  rw [Root.targetAt?, if_pos (shown.admitted key _ found), Disk.targetAt?, shown.resolve found]
  exact (shown.find? key).trans found

theorem file_size : (fileAt root key).size disk = old.length := by
  simp only [FileView.size, Backing.fileSize, FileNode.size, fileAt, FileView.direct, shown.targetAt? found]

theorem readFile : disk.readFile (root.path ++ key) = .ok old := by
  simp only [Disk.readFile, shown.resolve found, shown.find?, found]

theorem file_read (offset length : Nat) : (fileAt root key).read disk offset length = old.slice offset length := by
  simp only [FileView.read, Backing.read, FileNode.read, fileAt, FileView.direct, shown.readFile found,
    Root.handing_of_admits (shown.admitted key _ found)]

theorem file_readAll : (fileAt root key).readAll disk = old := by
  rw [FileView.readAll, shown.file_size found, shown.file_read found, Bytes.slice]
  simp

theorem file_isReadable : (fileAt root key).isReadable disk = true := by
  simp [FileView.isReadable, Backing.fileReadable, fileAt, FileView.direct, shown.targetAt? found]

theorem file_isWritable : (fileAt root key).isWritable disk = true := by
  simp [FileView.isWritable, Backing.fileWritable, fileAt, FileView.direct, shown.targetAt? found]

theorem changeFile (change : Bytes → Bytes) :
    disk.changeFile (root.path ++ key) change = .ok (disk.filled (place ++ key) (change old)) := by
  simp only [Disk.changeFile, shown.resolve found, shown.find?, found]
  rfl

theorem resize {size : Nat} (fits : size ≤ root.fileLimit) :
    ∃ after, (fileAt root key).resize disk size = (true, after) ∧
      after.Shown root place (view.set key (.file (old.resize size))) := by
  refine ⟨_, ?_, shown.filled found (old.resize size)⟩
  simp only [FileView.resize, fileAt, FileView.direct, Backing.resize, FileNode.resize, Bool.false_eq_true,
    if_false, if_neg (Nat.not_lt.mpr fits), shown.changeFile found, Root.handing_of_admits (shown.admitted key _ found)]

theorem write {data : Bytes} (fits : data.length ≤ root.fileLimit) :
    ∃ after, (fileAt root key).write disk 0 data = (data.length, after) ∧
      after.Shown root place (view.set key (.file (old.overwrite 0 data))) := by
  by_cases empty : data = []
  · subst empty
    refine ⟨disk, rfl, ?_⟩
    have same : old.overwrite 0 [] = old := by simp [Bytes.overwrite, Bytes.resize, Bytes.zeros]
    rwa [same, View.set_self found]
  · refine ⟨_, ?_, shown.filled found (old.overwrite 0 data)⟩
    have some_ : data.isEmpty = false := by simpa using empty
    have limit : ¬ root.fileLimit < 0 + data.length := by omega
    simp only [FileView.write, fileAt, FileView.direct, Backing.write, FileNode.write, Bool.false_eq_true,
      if_false, some_, limit, decide_false, Bool.or_false, shown.changeFile found,
      Root.handing_of_admits (shown.admitted key _ found)]

end Files

section Changes

variable (directory : view names = some .directory)
include directory

section Creating

variable (usable : Path.Usable name) (free : view (names ++ [name]) = none)
  (room : root.admits (root.path ++ (names ++ [name])) = true)
include usable free room

theorem createFile :
    ∃ after, (viewAt root names).createFile disk name = (some (fileAt root (names ++ [name])), after) ∧
      after.Shown root place (view.set (names ++ [name]) (.file [])) := by
  refine ⟨_, ?_, shown.put directory usable free room (by simp)⟩
  have vacant := (shown.find?_child names name).trans free
  have valid := (usable_iff.mp usable).1
  rw [← List.append_assoc] at room
  rw [fileAt_concat]
  simp only [DirectoryView.createFile, viewAt, DirectoryView.direct, Backing.createFile, DirectoryNode.createFile,
    DirectoryNode.childPath, valid, Root.handing_of_admits room, (shown.stand directory).create usable vacant,
    Bool.not_true, Bool.false_eq_true, if_false, Option.map_some, FileView.direct]

theorem createSubdirectory :
    ∃ after, (viewAt root names).createSubdirectory disk name = (some (viewAt root (names ++ [name])), after) ∧
      after.Shown root place (view.set (names ++ [name]) .directory) := by
  refine ⟨_, ?_, shown.put directory usable free room (by simp)⟩
  have vacant := (shown.find?_child names name).trans free
  have valid := (usable_iff.mp usable).1
  rw [← List.append_assoc] at room
  rw [viewAt_concat]
  simp only [DirectoryView.createSubdirectory, viewAt, DirectoryView.direct, Backing.createSubdirectory,
    DirectoryNode.createSubdirectory, DirectoryNode.childPath, valid, Root.handing_of_admits room,
    (shown.stand directory).create usable vacant, Bool.not_true, Bool.false_eq_true, if_false, Option.map_some]

theorem createFilled {data : Bytes} (fits : data.length ≤ root.fileLimit) : ∃ first second third,
      (viewAt root names).createFile disk name = (some (fileAt root (names ++ [name])), first) ∧
      first.Shown root place (view.set (names ++ [name]) (.file [])) ∧
      (fileAt root (names ++ [name])).resize first data.length = (true, second) ∧
      (fileAt root (names ++ [name])).write second 0 data = (data.length, third) ∧
      third.Shown root place (view.set (names ++ [name]) (.file data)) := by
  obtain ⟨first, created, shown₁⟩ := shown.createFile directory usable free room
  obtain ⟨second, resized, shown₂⟩ := shown₁.resize (if_pos rfl) fits
  obtain ⟨third, written, shown₃⟩ := shown₂.write (if_pos rfl) fits
  have whole : (Bytes.resize [] data.length).overwrite 0 data = data := by
    simp [Bytes.overwrite, Bytes.resize, Bytes.zeros]
  rw [whole, View.set_set, View.set_set] at shown₃
  exact ⟨first, second, third, created, shown₁, resized, written, shown₃⟩

theorem placeFile {data : Bytes} (fits : data.length ≤ root.fileLimit) :
    ∃ after, (viewAt root names).placeFile disk name data = (true, after) ∧
      after.Shown root place (view.set (names ++ [name]) (.file data)) := by
  obtain ⟨first, second, third, created, -, resized, written, shown'⟩ :=
    shown.createFilled directory usable free room fits
  refine ⟨third, ?_, shown'⟩
  simp only [DirectoryView.placeFile, created, resized, written, beq_self_eq_true]

end Creating

theorem deleteFile {old : Bytes} (found : view (names ++ [name]) = some (.file old)) :
    ∃ after, (viewAt root names).deleteFile disk name = (true, after) ∧
      after.Shown root place (view.cut (names ++ [name])) := by
  have bare : ∀ more, more ≠ [] → view (names ++ [name] ++ more) = none :=
    fun _ some_ => shown.nothing_below (by simp [found]) some_
  refine ⟨_, ?_, shown.erase bare⟩
  have usable := shown.usable found name (by simp)
  obtain ⟨-, short, clean⟩ := usable_iff.mp usable
  have removed : disk.removeFile (root.path ++ names ++ [name]) = .ok (disk.erase (place ++ names ++ [name])) := by
    simp only [removeFile, (shown.stand directory).resolveParent short clean, shown.find?_child, found]
  have child := shown.child?_eq directory DirectoryNode.isFile name
  simp only [viewAt, DirectoryView.direct, found, Option.filter_some, DirectoryNode.isFile, if_true, Option.map_some]
    at child
  simp only [DirectoryView.deleteFile, viewAt, DirectoryView.direct, Backing.deleteFile, DirectoryNode.deleteFile,
    Bool.false_eq_true, if_false, child, removed]

omit directory in
theorem any_child_iff (key : List String) :
    (disk.entries.any fun e => isChildOf (place ++ key) e.1) = true ↔ ∃ name, (view (key ++ [name])).isSome := by
  rw [List.any_eq_true]
  constructor
  · rintro ⟨e, listed, child⟩
    obtain ⟨name, there⟩ := isChildOf_iff.mp child
    have stands := shown.rooted.sound.find?_of_listed listed
    rw [there, shown.find?_child] at stands
    exact ⟨name, by rw [stands]; rfl⟩
  · rintro ⟨name, inside⟩
    obtain ⟨entry, found⟩ := Option.isSome_iff_exists.mp inside
    rw [← shown.find?_child] at found
    exact ⟨_, mem_of_find? (by simp) found, isChildOf_iff.mpr ⟨name, rfl⟩⟩

omit directory in
theorem bare_below (bare : ∀ name, view (key ++ [name]) = none) (more : List String) (some_ : more ≠ []) :
    view (key ++ more) = none := by
  obtain ⟨first, rest, rfl⟩ := List.exists_cons_of_ne_nil some_
  by_cases last : rest = []
  · rw [last, bare]
  · rw [← List.singleton_append, ← List.append_assoc]
    exact shown.nothing_below (by simp [bare]) last

theorem deleteSubdirectory_eq (found : view (names ++ [name]) = some .directory) :
    (viewAt root names).deleteSubdirectory disk name =
      if disk.entries.any fun e => isChildOf (place ++ names ++ [name]) e.1 then (false, disk)
      else (true, disk.erase (place ++ names ++ [name])) := by
  obtain ⟨-, short, clean⟩ := usable_iff.mp (shown.usable found name (by simp))
  have removed : disk.removeDirectory (root.path ++ names ++ [name]) =
      if disk.entries.any fun e => isChildOf (place ++ names ++ [name]) e.1 then .error .notEmpty
      else .ok (disk.erase (place ++ names ++ [name])) := by
    simp only [removeDirectory, (shown.stand directory).resolveParent short clean, shown.find?_child, found]
  have child := shown.child?_eq directory DirectoryNode.isDirectory name
  simp only [viewAt, DirectoryView.direct, found, Option.filter_some, DirectoryNode.isDirectory, if_true,
    Option.map_some] at child
  simp only [DirectoryView.deleteSubdirectory, viewAt, DirectoryView.direct, Backing.deleteSubdirectory,
    DirectoryNode.deleteSubdirectory, Bool.false_eq_true, if_false, child, removed]
  cases disk.entries.any fun e => isChildOf (place ++ names ++ [name]) e.1 <;> rfl

theorem deleteSubdirectory (found : view (names ++ [name]) = some .directory)
    (bare : ∀ other, view (names ++ [name] ++ [other]) = none) :
    ∃ after, (viewAt root names).deleteSubdirectory disk name = (true, after) ∧
      after.Shown root place (view.cut (names ++ [name])) := by
  refine ⟨_, ?_, shown.erase fun more => shown.bare_below bare more⟩
  have empty := shown.any_child_iff (names ++ [name])
  rw [← List.append_assoc] at empty
  rw [shown.deleteSubdirectory_eq directory found, if_neg]
  rw [empty]
  rintro ⟨other, inside⟩
  rw [bare] at inside
  cases inside

theorem deleteSubdirectory_full (found : view (names ++ [name]) = some .directory) {other : String}
    (inside : view (names ++ [name] ++ [other]) = some entry) :
    (viewAt root names).deleteSubdirectory disk name = (false, disk) := by
  have full := shown.any_child_iff (names ++ [name])
  rw [← List.append_assoc] at full
  rw [shown.deleteSubdirectory_eq directory found, if_pos]
  rw [full]
  exact ⟨other, by rw [inside]; rfl⟩

end Changes

theorem renameAt {old new : String} (found : view (names ++ [old]) = some entry) (usable : Path.Usable new)
    (free : view (names ++ [new]) = none) (room : View.Admitted (rekey (names ++ [old]) (names ++ [new]) view) root) :
    ∃ after, renameAt disk root (root.path ++ names ++ [old]) new = (some (root.path ++ names ++ [new]), after) ∧
      after.Shown root place (rekey (names ++ [old]) (names ++ [new]) view) := by
  refine ⟨_, ?_, shown.moved found usable free room⟩
  have stand := shown.stand (shown.directory_above found (by simp))
  obtain ⟨valid, short, clean⟩ := usable_iff.mp usable
  obtain ⟨-, oldShort, oldClean⟩ := usable_iff.mp (shown.usable found old (by simp))
  have vacant := (shown.find?_child names new).trans free
  have absent : root.entryAt? disk (root.path ++ names ++ [new]) = none := by
    rw [Root.entryAt?, entryAt?, stand.resolveParent short clean]
    exact ite_eq_right_iff.mpr fun _ => vacant
  have apart : (place ++ names ++ [old]).isPrefixOf (place ++ names ++ [new]) = false := by
    rw [Bool.eq_false_iff, ne_eq, List.isPrefixOf_iff_prefix, List.prefix_append_right_inj]
    rintro ⟨rest, same⟩
    obtain ⟨rfl, -⟩ := List.cons.inj same
    rw [found] at free
    cases free
  -- the new path is taken, since what was at the old one is shown at it
  have taken : root.admits (root.path ++ names ++ [new]) = true := by
    rw [List.append_assoc]
    refine room _ entry ?_
    rw [rekey, if_pos (List.prefix_refl _), List.drop_length, List.append_nil]
    exact found
  have given : root.admits (root.path ++ names ++ [old]) = true := by
    rw [List.append_assoc]
    exact shown.admitted _ _ found
  simp only [Host.renameAt, valid, Root.handing_of_admits taken, Root.handing_of_admits given, Bool.not_true,
    Bool.false_eq_true, if_false, List.dropLast_concat, absent, Option.isSome_none, move,
    stand.resolveParent short clean, stand.resolveParent oldShort oldClean, vacant, shown.find?_child, found, apart]
  rfl

theorem renameFile {old new : String} (found : view (names ++ [old]) = some entry) (usable : Path.Usable new)
    (free : view (names ++ [new]) = none) (room : View.Admitted (rekey (names ++ [old]) (names ++ [new]) view) root) :
    ∃ after, (fileAt root (names ++ [old])).rename disk new = (some (fileAt root (names ++ [new])), after) ∧
      after.Shown root place (rekey (names ++ [old]) (names ++ [new]) view) := by
  obtain ⟨after, renamed, shown'⟩ := shown.renameAt found usable free room
  refine ⟨after, ?_, shown'⟩
  rw [fileAt_concat, fileAt_concat]
  simp only [FileView.rename, Backing.renameFile, renamed, Bool.false_eq_true, if_false, Option.map_some,
    FileView.direct]

theorem renameDirectory {old new : String} (found : view (names ++ [old]) = some entry)
    (usable : Path.Usable new) (free : view (names ++ [new]) = none)
    (room : View.Admitted (rekey (names ++ [old]) (names ++ [new]) view) root) :
    ∃ after, (viewAt root (names ++ [old])).rename disk new = (some (viewAt root (names ++ [new])), after) ∧
      after.Shown root place (rekey (names ++ [old]) (names ++ [new]) view) := by
  obtain ⟨after, renamed, shown'⟩ := shown.renameAt found usable free room
  refine ⟨after, ?_, shown'⟩
  have below : (root.path ++ names ++ [old] == root.path) = false := by
    rw [beq_eq_false_iff_ne]
    intro same
    have lengths := congrArg List.length same
    simp at lengths
  rw [viewAt_concat, viewAt_concat]
  simp only [DirectoryView.rename, Backing.renameDirectory, DirectoryNode.rename, DirectoryNode.isRoot, below,
    renamed, Bool.false_eq_true, if_false, Option.map_some, DirectoryView.direct]

end Shown

end Disk

end GuestStorage.Host
