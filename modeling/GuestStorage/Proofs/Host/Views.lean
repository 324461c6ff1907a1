import GuestStorage.Proofs.Host.Twins
import GuestStorage.Tree.View

namespace GuestStorage.Host

open GuestStorage.Tree Disk

variable {root : Root} {place spot : Location} {disk other after : Disk}

theorem DirectoryPlaced.calm {dir : DirectoryView DirectoryNode}
    (placed : DirectoryPlaced disk root place dir) (calm : Calm place disk after) :
    DirectoryPlaced after root place dir := by
  obtain ⟨names, node, plain⟩ := placed
  exact ⟨names, node, plain.calm calm⟩

theorem FilePlaced.calm {file : FileView FileNode} (placed : FilePlaced disk root place file)
    (calm : Calm place disk after) : FilePlaced after root place file := by
  obtain ⟨names, name, node, plain⟩ := placed
  exact ⟨names, name, node, plain.calm calm⟩

structure Agree {α : Type} (kept : Location → Disk → Disk → Prop) (place spot : Location) (disk other : Disk)
    (left right : α × Disk) : Prop where
  answer : right.1 = left.1
  alike : Alike kept place spot disk other left.2 right.2

namespace Agree

variable {α β : Type} {kept : Location → Disk → Disk → Prop} {left right : α × Disk}

theorem split (agree : Agree kept place spot disk other left right) :
    ∃ answer after after', left = (answer, after) ∧ right = (answer, after') ∧
      Alike kept place spot disk other after after' := by
  obtain ⟨answer, alike⟩ := agree
  exact ⟨left.1, left.2, right.2, rfl, by rw [← answer], alike⟩

theorem keeps (agree : Agree Calm place spot disk other left right) :
    Agree Keeps place spot disk other left right :=
  ⟨agree.answer, agree.alike.keeps⟩

theorem onward {middle middle' : Disk}
    (first : Alike Calm place spot disk other middle middle')
    (next : Agree Calm place spot middle middle' left right) :
    Agree Calm place spot disk other left right :=
  ⟨next.answer, first.trans next.alike Calm.trans⟩

theorem map (agree : Agree kept place spot disk other left right) (f : α → β) :
    Agree kept place spot disk other (f left.1, left.2) (f right.1, right.2) :=
  ⟨congrArg f agree.answer, agree.alike⟩

end Agree

theorem Disk.Both.handing {kept : Location → Disk → Disk → Prop} {left right : Except Refusal Disk}
    (both : Both kept place spot disk other left right) (root : Root) (path : Location) :
    Both kept place spot disk other (root.handing path left) (root.handing path right) := by
  rw [Root.handing, Root.handing]
  split
  · exact both
  · exact .inl ⟨_, rfl, rfl⟩

namespace Disk.Twins

variable (twins : Twins root place spot disk other)
include twins

theorem still {α : Type} (answer : α) :
    Agree Calm place spot disk other (answer, disk) (answer, other) :=
  ⟨rfl, twins.same, Calm.refl place disk, Calm.refl spot other⟩

theorem onward {middle middle' : Disk} (alike : Alike Calm place spot disk other middle middle') :
    Twins root place spot middle middle' := twins.keeps alike.keeps

section File

variable {file : FileView FileNode} (tame : Tame place spot disk other file.node.path)
include tame

/-- A change of a file's bytes that is answered alike, and after which the path leads where it led. -/
def FileAgree {α : Type} (place spot : Location) (disk other : Disk) (file : Location)
    (left right : α × Disk) : Prop :=
  Agree Calm place spot disk other left right ∧ Tame place spot left.2 right.2 file

theorem file_write_agree (offset : Nat) (data : Bytes) :
    FileAgree place spot disk other file.node.path (file.write disk offset data)
      (file.write other offset data) := by
  rw [FileView.write, FileView.write]
  split
  · exact ⟨twins.still 0, tame⟩
  · simp only [Backing.write, FileNode.write]
    split
    · exact ⟨twins.still 0, tame⟩
    · rcases (twins.changeFile_both tame (·.overwrite offset data)).handing file.node.root file.node.path with
        ⟨why, left, right⟩ | ⟨after, after', left, right, alike⟩
      · rw [left, right]
        exact ⟨twins.still 0, tame⟩
      · rw [left, right]
        exact ⟨⟨rfl, alike⟩, tame.changed (Root.handing_eq_ok.mp left).2 (Root.handing_eq_ok.mp right).2⟩

theorem file_resize_agree (size : Nat) :
    FileAgree place spot disk other file.node.path (file.resize disk size) (file.resize other size) := by
  rw [FileView.resize, FileView.resize]
  split
  · exact ⟨twins.still false, tame⟩
  · simp only [Backing.resize, FileNode.resize]
    split
    · exact ⟨twins.still false, tame⟩
    · rcases (twins.changeFile_both tame (·.resize size)).handing file.node.root file.node.path with
        ⟨why, left, right⟩ | ⟨after, after', left, right, alike⟩
      · rw [left, right]
        exact ⟨twins.still false, tame⟩
      · rw [left, right]
        exact ⟨⟨rfl, alike⟩, tame.changed (Root.handing_eq_ok.mp left).2 (Root.handing_eq_ok.mp right).2⟩

end File

section Changes

variable {dir : DirectoryView DirectoryNode} (placed : DirectoryPlaced disk root place dir)
include placed

theorem createChild_agree {α : Type} (name : String) (node : Root → Location → α) (entry : Entry)
    (noLink : ∀ text, entry ≠ .link text) :
    Agree Calm place spot disk other (dir.node.createChild node entry disk name)
        (dir.node.createChild node entry other name) ∧
      ∀ new, (dir.node.createChild node entry disk name).1 = some new →
        ∃ names, new = node root (root.path ++ (names ++ [name])) ∧
          (dir.node.createChild node entry disk name).2.Plain place (names ++ [name]) := by
  obtain ⟨names, here, plain⟩ := placed
  have child : dir.node.childPath name = root.path ++ (names ++ [name]) := by
    rw [DirectoryNode.childPath, here, List.append_assoc]
  have top : dir.node.root = root := by rw [here]
  rw [DirectoryNode.createChild, DirectoryNode.createChild, child, top]
  split
  · exact ⟨twins.still none, by simp⟩
  · rename_i invalid
    have proper := proper_of_validName (by simpa using invalid : validName name = true)
    rcases (twins.create_both plain proper noLink).handing root (root.path ++ (names ++ [name])) with
      ⟨why, left, right⟩ | ⟨after, after', left, right, alike⟩
    · simp only [left, right]
      exact ⟨twins.still none, by simp⟩
    · simp only [left, right]
      refine ⟨⟨rfl, alike⟩, ?_⟩
      rintro _ ⟨⟩
      refine ⟨names, rfl, (plain.calm alike.left).concat proper fun text linked => ?_⟩
      have stood := alike.left.noLink _ text linked
      have left := (Root.handing_eq_ok.mp left).2
      rw [create] at left
      split at left
      · cases left
      · rename_i there reached
        rw [(twins.left.resolveParent_append plain reached).1, stood] at left
        cases left

theorem createFile_agree (name : String) :
    Agree Calm place spot disk other (dir.createFile disk name) (dir.createFile other name) ∧
      ∀ file, (dir.createFile disk name).1 = some file →
        FilePlaced (dir.createFile disk name).2 root place file := by
  rw [DirectoryView.createFile, DirectoryView.createFile]
  split
  · exact ⟨twins.still none, by simp⟩
  · simp only [Backing.createFile, DirectoryNode.createFile_eq]
    obtain ⟨agree, stands⟩ := twins.createChild_agree placed name FileNode.mk (.file []) (by simp)
    refine ⟨agree.map _, fun file made => ?_⟩
    obtain ⟨node, new, rfl⟩ := Option.map_eq_some_iff.mp made
    obtain ⟨names, rfl, plain⟩ := stands node new
    exact ⟨names, name, rfl, plain⟩

theorem createSubdirectory_agree (name : String) :
    Agree Calm place spot disk other (dir.createSubdirectory disk name)
        (dir.createSubdirectory other name) ∧
      ∀ sub, (dir.createSubdirectory disk name).1 = some sub →
        DirectoryPlaced (dir.createSubdirectory disk name).2 root place sub := by
  rw [DirectoryView.createSubdirectory, DirectoryView.createSubdirectory]
  split
  · exact ⟨twins.still none, by simp⟩
  · simp only [Backing.createSubdirectory, DirectoryNode.createSubdirectory_eq]
    obtain ⟨agree, stands⟩ := twins.createChild_agree placed name DirectoryNode.mk .directory (by simp)
    refine ⟨agree.map _, fun sub made => ?_⟩
    obtain ⟨node, new, rfl⟩ := Option.map_eq_some_iff.mp made
    obtain ⟨names, rfl, plain⟩ := stands node new
    exact ⟨names ++ [name], rfl, plain⟩

theorem removeChild_agree {wanted : Entry → Bool} {remove : Disk → Location → Except Refusal Disk}
    (noLink : NoLink wanted) (name : String)
    (both : ∀ {names}, disk.Plain place names → Both Calm place spot disk other
      (remove disk (root.path ++ (names ++ [name]))) (remove other (root.path ++ (names ++ [name])))) :
    Agree Calm place spot disk other (dir.node.removeChild wanted remove disk name)
      (dir.node.removeChild wanted remove other name) := by
  simp only [DirectoryNode.removeChild, twins.child?_eq placed noLink]
  cases found : dir.node.child? disk wanted name with
  | none => exact twins.still false
  | some child =>
    obtain ⟨names, node, plain⟩ := placed
    obtain ⟨rfl, -⟩ := plain_of_child? twins.left node plain noLink found
    rcases both plain with ⟨why, left, right⟩ | ⟨after, after', left, right, alike⟩
    · simp only [left, right]
      exact twins.still false
    · simp only [left, right]
      exact ⟨rfl, alike⟩

theorem deleteFile_agree (name : String) :
    Agree Calm place spot disk other (dir.deleteFile disk name) (dir.deleteFile other name) := by
  rw [DirectoryView.deleteFile, DirectoryView.deleteFile]
  split
  · exact twins.still false
  · exact twins.removeChild_agree placed noLink_isFile name fun plain => twins.removeFile_both plain name

theorem deleteSubdirectory_agree (name : String) :
    Agree Calm place spot disk other (dir.deleteSubdirectory disk name)
      (dir.deleteSubdirectory other name) := by
  rw [DirectoryView.deleteSubdirectory, DirectoryView.deleteSubdirectory]
  split
  · exact twins.still false
  · exact twins.removeChild_agree placed noLink_isDirectory name fun plain => twins.removeDirectory_both plain name

end Changes

omit twins in
theorem rename_of_none {dir : DirectoryView DirectoryNode} {new : String}
    (refused : (dir.rename disk new).1 = none) : (dir.rename disk new).2 = disk := by
  rw [DirectoryView.rename] at refused ⊢
  split at refused
  · rename_i only
    rw [if_pos only]
  · rename_i direct
    rw [if_neg direct]
    simp only [Backing.renameDirectory, DirectoryNode.rename, renameAt] at refused ⊢
    split
    · rfl
    · split
      · rfl
      · split
        · rfl
        · rename_i inside invalid free
          rw [if_neg inside, if_neg invalid, if_neg free] at refused
          split
          · rfl
          · rename_i moved
            simp only [moved] at refused
            cases refused

theorem renameAt_agree {names : List String} (plain : disk.Plain place names) (old new : String)
    {kept : Location → Disk → Disk → Prop} (refl : ∀ place disk, kept place disk disk)
    (moves : validName new = true → Both kept place spot disk other
      (disk.move (root.path ++ (names ++ [old])) (root.path ++ (names ++ [new])))
      (other.move (root.path ++ (names ++ [old])) (root.path ++ (names ++ [new])))) :
    Agree kept place spot disk other (renameAt disk root (root.path ++ (names ++ [old])) new)
      (renameAt other root (root.path ++ (names ++ [old])) new) := by
  have still : Agree kept place spot disk other ((none : Option Location), disk) (none, other) :=
    ⟨rfl, twins.same, refl place disk, refl spot other⟩
  have target : (root.path ++ (names ++ [old])).dropLast ++ [new] = root.path ++ (names ++ [new]) := by
    rw [← List.append_assoc, List.dropLast_concat, List.append_assoc]
  simp only [renameAt, target, Root.entryAt?_congr (twins.entryAt?_eq plain new)]
  split
  · exact still
  · rename_i invalid
    split
    · exact still
    · have both := ((moves (by simpa using invalid)).handing root (root.path ++ (names ++ [new]))).handing root
        (root.path ++ (names ++ [old]))
      rcases both with ⟨why, left, right⟩ | ⟨after, after', left, right, alike⟩
      · simp only [left, right]
        exact still
      · simp only [left, right]
        exact ⟨rfl, alike⟩

theorem file_rename_agree {dir : DirectoryView DirectoryNode}
    (placed : DirectoryPlaced disk root place dir) {old : String} {file : FileView FileNode}
    (found : dir.file? disk old = some file) (new : String) :
    Agree Calm place spot disk other (file.rename disk new) (file.rename other new) := by
  obtain ⟨names, node, plain⟩ := placed
  obtain ⟨child, held, rfl⟩ := Option.map_eq_some_iff.mp found
  obtain ⟨there, seen, rfl⟩ := Option.map_eq_some_iff.mp held
  obtain ⟨rfl, -, entry, stands, isFile⟩ := plain_of_child? twins.left node plain noLink_isFile seen
  rw [FileView.rename, FileView.rename, node]
  split
  · exact twins.still none
  · cases entry with
    | directory => cases isFile
    | link => cases isFile
    | file bytes =>
      rw [← List.append_assoc] at stands
      have renamed := twins.renameAt_agree plain old new Calm.refl
        fun valid => twins.move_file_both plain (proper_of_validName valid) stands
      exact renamed.map fun spot => (spot.map (FileNode.mk root)).map FileView.direct

theorem directory_rename_agree {dir : DirectoryView DirectoryNode}
    (placed : DirectoryPlaced disk root place dir) (new : String) :
    Agree Keeps place spot disk other (dir.rename disk new) (dir.rename other new) := by
  obtain ⟨names, node, plain⟩ := placed
  rw [DirectoryView.rename, DirectoryView.rename]
  split
  · exact (twins.still none).keeps
  · simp only [Backing.renameDirectory, DirectoryNode.rename]
    split
    · exact (twins.still none).keeps
    · rename_i inside
      rcases List.eq_nil_or_concat' names with top | ⟨front, last, rfl⟩
      · rw [top, List.append_nil] at node
        rw [DirectoryNode.isRoot, node] at inside
        exact absurd (beq_self_eq_true root.path) inside
      · have shorter := plain.shorter (List.prefix_append front [last])
        have renamed := twins.renameAt_agree shorter last new Keeps.refl
          fun valid => twins.move_both shorter last (proper_of_validName valid)
        rw [node]
        exact renamed.map fun spot => (spot.map (DirectoryNode.mk root)).map DirectoryView.direct

end Disk.Twins

end GuestStorage.Host
