import GuestStorage.Proofs.Host.Mapped

namespace GuestStorage.Host.Disk

open GuestStorage.Tree
open PathMap (Faithful)

variable {disk after : Disk} {root : Root} {place : Location} {map : PathMap} {key front back : List String}
  {name new : String} {bytes : Bytes}

namespace Mapped

variable (mapped : disk.Mapped root place map)
include mapped

theorem isName (there : map.find? key = some .directory) : ∀ name ∈ key, Path.IsName name :=
  fun name among => (mapped.usable there name among).isName

theorem fits_of_find? (there : map.find? key = some (.file bytes)) : bytes.length ≤ root.fileLimit := by
  have below : key ≠ [] := by
    rintro rfl
    cases there
  exact mapped.fits _ (mapped.proper.mem_entries.mpr ⟨below, there⟩)

section Move

variable (free : map.find? (back ++ [new]) = none)
include free

theorem not_below {content : Memory.Content} (held : map.find? key = some content) : ¬ back ++ [new] <+: key := by
  rintro ⟨rest, rfl⟩
  have none := mapped.shown.absent_below (View.ofMap_eq_none.mpr free) rest
  rw [View.ofMap_eq_none, held] at none
  cases none

variable (there : map.find? back = some .directory)
include there

theorem not_above (held : map.find? key = some (.file bytes)) : ¬ key <+: back ++ [new] := by
  intro within
  rcases List.prefix_concat_iff.mp within with whole | ⟨rest, rfl⟩
  · rw [whole, free] at held
    cases held
  · by_cases here : rest = []
    · rw [here, List.append_nil, held] at there
      cases there
    · have above := PathMap.directory_above mapped.held here there
      rw [held] at above
      cases above

variable (usable : Path.Usable new)
include usable

theorem moveFile (front_ : map.find? front = some .directory)
    (held : map.find? (front ++ [name]) = some (.file bytes))
    (roomy : (map.move (front ++ [name]) (back ++ [new])).Roomy fun key => root.admits (root.path ++ key) = true) :
    ∃ after, Mount.moveFile disk (fileAt root (front ++ [name])) (viewAt root front) name (viewAt root back) new =
        (.ok (), after) ∧ after.Mapped root place (map.move (front ++ [name]) (back ++ [new])) := by
  have apart := mapped.not_above free there held
  have apart' := mapped.not_below free held
  have found := View.ofMap_eq_file.mpr held
  have differ : front ++ [name] ≠ back ++ [new] := fun same => apart (same ▸ List.prefix_refl _)
  have still : ∀ entry, (View.ofMap map).set (back ++ [new]) entry (front ++ [name]) = some (.file bytes) :=
    fun entry => (View.set_of_ne _ entry differ).trans found
  have vacant := mapped.shown.absent_below (View.ofMap_eq_none.mpr free)
  have room := mapped.admitted_moved (by simp) there usable free roomy (back ++ [new]) (.file bytes) (by
    rw [Keyed.rekey, if_pos (List.prefix_refl _), List.drop_length, List.append_nil, found])
  obtain ⟨first, second, third, created, shown₁, resized, written, shown₃⟩ := mapped.shown.createFilled
    (View.ofMap_eq_directory.mpr there) usable (View.ofMap_eq_none.mpr free) room (mapped.fits_of_find? held)
  have read := shown₁.file_readAll (still _)
  obtain ⟨after, deleted, shown'⟩ := shown₃.deleteFile (shown₃.directory_above (still _) (by simp)) (still _)
  rw [← View.graft_file found (fun rest => mapped.shown.nothing_below (by simp [found])) vacant,
    View.cut_graft apart apart'] at shown'
  refine ⟨after, ?_, mapped.moved (by simp) there usable free shown'⟩
  have writable := mapped.shown.isWritable (View.ofMap_eq_directory.mpr front_)
  simp only [Mount.moveFile, writable, created, read, resized, written, deleted, Bool.not_true,
    Bool.false_eq_true, if_false, bne_self_eq_false]

theorem moveDirectory (front_ : map.find? front = some .directory)
    (held : map.find? (front ++ [name]) = some .directory) (apart : ¬ front ++ [name] <+: back ++ [new])
    (roomy : (map.move (front ++ [name]) (back ++ [new])).Roomy fun key => root.admits (root.path ++ key) = true) :
    ∃ after, Mount.moveDirectory disk (viewAt root (front ++ [name])) (viewAt root front) name (viewAt root back)
        new = (.ok (), after) ∧ after.Mapped root place (map.move (front ++ [name]) (back ++ [new])) := by
  have apart' := mapped.not_below free held
  have differ : ∀ rest, front ++ [name] ++ rest ≠ back ++ [new] := fun rest same => apart ⟨rest, same⟩
  have still : ∀ rest, (View.ofMap map).set (back ++ [new]) .directory (front ++ [name] ++ rest) =
      View.ofMap map (front ++ [name] ++ rest) := fun rest => View.set_of_ne _ _ (differ rest)
  have found : (View.ofMap map).set (back ++ [new]) .directory (front ++ [name]) = some .directory := by
    have same := still []
    rwa [List.append_nil, View.ofMap_eq_directory.mpr held] at same
  have room : ∀ rest entry, View.ofMap map (front ++ [name] ++ rest) = some entry →
      root.admits (root.path ++ (back ++ [new] ++ rest)) = true := fun rest entry shown =>
    mapped.admitted_moved (by simp) there usable free roomy _ entry (by rw [Keyed.rekey_target]; exact shown)
  have above := room [] .directory (by rw [List.append_nil]; exact View.ofMap_eq_directory.mpr held)
  rw [List.append_nil] at above
  obtain ⟨first, created, shown₁⟩ := mapped.shown.createSubdirectory (View.ofMap_eq_directory.mpr there) usable
    (View.ofMap_eq_none.mpr free) above
  obtain ⟨second, copied, shown₂⟩ := shown₁.copyTree found (View.set_at ..) apart apart'
    (fun other rest => by
      rw [View.set_of_ne _ _ (by simp), List.append_assoc]
      exact mapped.shown.absent_below (View.ofMap_eq_none.mpr free) _)
    (fun rest entry inside => room rest entry ((still rest).symm.trans inside))
    fun rest bytes inside => mapped.fits_of_find? (View.ofMap_eq_file.mp ((still rest).symm.trans inside))
  rw [View.graft_set _ apart] at shown₂
  have found₂ : (View.ofMap map).graft (front ++ [name]) (back ++ [new]) (front ++ [name]) = some .directory :=
    (if_neg apart').trans (View.ofMap_eq_directory.mpr held)
  obtain ⟨after, deleted, shown'⟩ := shown₂.deleteTree found₂
  rw [View.cut_graft apart apart'] at shown'
  refine ⟨after, ?_, mapped.moved (by simp) there usable free shown'⟩
  have writable := mapped.shown.isWritable (View.ofMap_eq_directory.mpr front_)
  simp only [Mount.moveDirectory, writable, created, copied, deleted, Bool.not_true, Bool.false_eq_true, if_false]

end Move

theorem createFile (there : map.find? front = some .directory) (usable : Path.Usable name)
    (free : map.find? (front ++ [name]) = none) (room : root.admits (root.path ++ (front ++ [name])) = true)
    {size : Nat} (fits : size ≤ root.fileLimit) (short : size < Memory.Store.endLimit) : ∃ file first second,
    (viewAt root front).createFile disk name = (some file, first) ∧ file.resize first size = (true, second) ∧
      second.Mapped root place (map.insert (front ++ [name]) (.file (.zeros size))) := by
  obtain ⟨first, created, shown₁⟩ := mapped.shown.createFile (View.ofMap_eq_directory.mpr there) usable
    (View.ofMap_eq_none.mpr free) room
  obtain ⟨second, resized, shown₂⟩ := shown₁.resize (View.set_at ..) fits
  rw [View.set_set, Bytes.resize_nil] at shown₂
  exact ⟨_, first, second, created, resized,
    mapped.inserted there usable free (by simpa [Memory.Content.size] using fits)
      (by simpa [Memory.Content.size] using short) shown₂⟩

section Directories

variable (held : map.find? (front ++ [name]) = some .directory)
include held

theorem front_of_held : View.ofMap map front = some .directory :=
  View.ofMap_eq_directory.mpr (mapped.held front name _ held)

theorem deleteDirectory (bare : map.below (front ++ [name]) = []) :
    ∃ after, (viewAt root front).deleteSubdirectory disk name = (true, after) ∧
      after.Mapped root place (map.remove (front ++ [name])) := by
  obtain ⟨after, deleted, shown⟩ := mapped.shown.deleteSubdirectory (mapped.front_of_held held)
    (View.ofMap_eq_directory.mpr held) fun other => View.ofMap_eq_none.mpr <|
      Option.eq_none_iff_forall_ne_some.mpr fun content inside =>
        List.filter_eq_nil_iff.mp bare _ (mapped.proper.mem_entries.mpr ⟨by simp, inside⟩)
          (decide_eq_true ⟨List.prefix_append _ _, by simp⟩)
  exact ⟨after, deleted, mapped.removed (by simp) shown⟩

theorem deleteDirectory_full (full : map.below (front ++ [name]) ≠ []) :
    (viewAt root front).deleteSubdirectory disk name = (false, disk) := by
  obtain ⟨e, inside⟩ := List.exists_mem_of_ne_nil _ full
  obtain ⟨listed, within⟩ := List.mem_filter.mp inside
  obtain ⟨other, rest, whole⟩ := View.exists_child_of_below (of_decide_eq_true within)
  have there := (View.ofMap_eq_some _).mpr (mapped.proper.mem_entries.mp listed).2
  rw [whole] at there
  have stands : ∃ entry, View.ofMap map (front ++ [name] ++ [other]) = some entry := by
    by_cases last : rest = []
    · rw [last, List.append_nil] at there
      exact ⟨_, there⟩
    · exact ⟨_, mapped.shown.directory_above there last⟩
  obtain ⟨entry, stands⟩ := stands
  exact mapped.shown.deleteSubdirectory_full (mapped.front_of_held held) (View.ofMap_eq_directory.mpr held) stands

end Directories

end Mapped

theorem faithful (root : Root) (place : Location) :
    Faithful (viewAt root []) (fun disk : Disk => disk.Mapped root place) Path.Usable
      (fun key => root.admits (root.path ++ key) = true) (min (root.fileLimit + 1) Memory.Store.endLimit) where
  proper mapped := mapped.proper
  reached_iff {disk map} mapped key := by simp only [mapped.descend?_iff, exists_and_left, exists_eq, and_true]
  held mapped := mapped.held _ _ _
  file_iff {disk map front dir} mapped reached name := by
    obtain ⟨there, rfl⟩ := mapped.descend?_iff.mp reached
    simp only [mapped.file?_iff there, exists_and_left, exists_eq, and_true]
  isWritable mapped reached := by
    obtain ⟨there, rfl⟩ := mapped.descend?_iff.mp reached
    exact mapped.shown.isWritable (View.ofMap_eq_directory.mpr there)
  samePlace_iff mapped reached reached' := by
    obtain ⟨there, rfl⟩ := mapped.descend?_iff.mp reached
    obtain ⟨there', rfl⟩ := mapped.descend?_iff.mp reached'
    exact Mirrors.samePlace_iff rfl rfl (mapped.isName there) (mapped.isName there')
  contents mapped reached found held := by
    obtain ⟨there, rfl⟩ := mapped.descend?_iff.mp reached
    obtain ⟨-, rfl⟩ := (mapped.file?_iff there).mp found
    have stands := View.ofMap_eq_file.mpr held
    exact ⟨mapped.shown.file_isReadable stands, mapped.shown.file_isWritable stands, mapped.shown.file_read stands⟩
  records mapped reached := by
    obtain ⟨there, rfl⟩ := mapped.descend?_iff.mp reached
    exact mapped.records_perm there
  adds_file mapped reached usable free fits roomy := by
    obtain ⟨there, rfl⟩ := mapped.descend?_iff.mp reached
    exact mapped.createFile there usable free (roomy _ List.mem_concat_self)
      (Nat.le_of_lt_succ (lt_min_iff.mp fits).1) (lt_min_iff.mp fits).2
  adds_directory mapped reached usable free roomy := by
    obtain ⟨there, rfl⟩ := mapped.descend?_iff.mp reached
    obtain ⟨after, created, shown⟩ := mapped.shown.createSubdirectory (View.ofMap_eq_directory.mpr there) usable
      (View.ofMap_eq_none.mpr free) (roomy _ List.mem_concat_self)
    exact ⟨_, after, created, mapped.inserted there usable free (Nat.zero_le _) (by decide) shown⟩
  removes_file mapped reached held := by
    obtain ⟨there, rfl⟩ := mapped.descend?_iff.mp reached
    obtain ⟨after, deleted, shown⟩ := mapped.shown.deleteFile (View.ofMap_eq_directory.mpr there)
      (View.ofMap_eq_file.mpr held)
    exact ⟨after, deleted, mapped.removed (by simp) shown⟩
  removes_directory mapped reached held bare := by
    obtain ⟨-, rfl⟩ := mapped.descend?_iff.mp reached
    exact mapped.deleteDirectory held bare
  keeps_full_directory mapped reached held full := by
    obtain ⟨-, rfl⟩ := mapped.descend?_iff.mp reached
    exact mapped.deleteDirectory_full held full
  removes_tree mapped reached held := by
    obtain ⟨-, rfl⟩ := mapped.descend?_iff.mp reached
    obtain ⟨after, deleted, shown⟩ := mapped.shown.deleteTree (View.ofMap_eq_directory.mpr held)
    exact ⟨after, deleted, mapped.removed (by simp) shown⟩
  clears_tree mapped reached held := by
    obtain ⟨-, rfl⟩ := mapped.descend?_iff.mp reached
    obtain ⟨after, cleaned, shown⟩ := mapped.shown.cleanSubdirectory (View.ofMap_eq_directory.mpr held)
    exact ⟨after, cleaned, mapped.cleared shown⟩
  renames_file mapped reached found usable free roomy := by
    obtain ⟨there, rfl⟩ := mapped.descend?_iff.mp reached
    obtain ⟨⟨bytes, held⟩, rfl⟩ := (mapped.file?_iff there).mp found
    obtain ⟨after, renamed, shown⟩ := mapped.shown.renameFile (View.ofMap_eq_file.mpr held) usable
      (View.ofMap_eq_none.mpr free) (mapped.admitted_moved (by simp) there usable free roomy)
    exact ⟨_, after, renamed, mapped.moved (by simp) there usable free shown⟩
  renames_directory mapped reached found usable free roomy := by
    obtain ⟨there, rfl⟩ := mapped.descend?_iff.mp reached
    obtain ⟨held, rfl⟩ := (mapped.subdirectory?_iff there).mp found
    obtain ⟨after, renamed, shown⟩ := mapped.shown.renameDirectory (View.ofMap_eq_directory.mpr held) usable
      (View.ofMap_eq_none.mpr free) (mapped.admitted_moved (by simp) there usable free roomy)
    exact ⟨_, after, renamed, mapped.moved (by simp) there usable free shown⟩
  moves_file mapped reached found reached' usable free _ roomy := by
    obtain ⟨there, rfl⟩ := mapped.descend?_iff.mp reached
    obtain ⟨there', rfl⟩ := mapped.descend?_iff.mp reached'
    obtain ⟨⟨bytes, held⟩, rfl⟩ := (mapped.file?_iff there).mp found
    exact mapped.moveFile free there' usable there held roomy
  moves_directory mapped reached found reached' usable free _ apart roomy := by
    obtain ⟨there, rfl⟩ := mapped.descend?_iff.mp reached
    obtain ⟨there', rfl⟩ := mapped.descend?_iff.mp reached'
    obtain ⟨held, rfl⟩ := (mapped.subdirectory?_iff there).mp found
    exact mapped.moveDirectory free there' usable there held apart roomy

end GuestStorage.Host.Disk
