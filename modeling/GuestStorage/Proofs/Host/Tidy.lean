import GuestStorage.Proofs.Host.Twins
import GuestStorage.Proofs.Path

namespace GuestStorage.Host

theorem usable_iff {name : String} :
    Path.Usable name ↔
      validName name = true ∧ name.utf8ByteSize ≤ Disk.nameLimit ∧ Disk.nameAllowed name = true := by
  have valid : validName name = true ↔ Path.IsName name ∧ name ≠ "." ∧ name ≠ ".." := by
    simp only [validName, Path.IsName, Bool.and_eq_true, bne_iff_ne, Bool.not_eq_true', List.any_eq_false,
      Bool.not_eq_true]
    tauto
  have clean : Disk.nameAllowed name = true ↔ '\x00' ∉ name.toList := by simp [Disk.nameAllowed]
  rw [valid, clean]
  constructor
  · intro usable
    exact ⟨⟨usable.isName, usable.proper⟩, usable.short, usable.clean⟩
  · rintro ⟨⟨isName, proper⟩, short, clean⟩
    exact ⟨isName, proper, clean, short⟩

namespace Disk

variable {disk after : Disk} {root : Root} {path place : Location} {names : List String} {name : String} {entry : Entry}

/-- No links stand at or below a place, and all names there are names that every storage takes. -/
def Tidy (disk : Disk) (place : Location) : Prop :=
  ∀ names entry, disk.find? (place ++ names) = some entry →
    (∀ name ∈ names, Path.Usable name) ∧ ∀ text, entry ≠ .link text

theorem Tidy.plain (tidy : disk.Tidy place) (proper : ∀ name ∈ names, Proper name) :
    disk.Plain place names :=
  ⟨proper, fun way _ _ text found => (tidy way _ found).2 text rfl⟩

theorem Tidy.below (tidy : disk.Tidy place) (names : List String) : disk.Tidy (place ++ names) := by
  intro more entry found
  rw [List.append_assoc] at found
  obtain ⟨usable, noLink⟩ := tidy _ _ found
  exact ⟨fun name among => usable name (List.mem_append_right _ among), noLink⟩

theorem Tidy.proper (tidy : disk.Tidy place) (found : disk.find? (place ++ names) = some entry) :
    ∀ name ∈ names, Proper name :=
  fun name among => ((tidy _ _ found).1 name among).proper

theorem Tidy.walk (tidy : disk.Tidy place) (sound : disk.Sound)
    (found : disk.find? (place ++ names) = some entry) : disk.walk place names = .ok (place ++ names) := by
  suffices arrived : disk.advance place names = .arrived (place ++ names) by rw [Disk.walk, arrived]
  induction names using List.reverseRecOn generalizing entry with
  | nil => rw [advance, List.append_nil]
  | append_singleton front last ih =>
    obtain ⟨usable, noLink⟩ := tidy _ _ found
    have own := usable last (by simp)
    rw [← List.append_assoc] at found ⊢
    have holds := sound.stands found
    have staying : ¬ (last == ".") = true := by simpa using own.proper.1
    have upward : ¬ (last == "..") = true := by simpa using own.proper.2
    have short : ¬ nameLimit < last.utf8ByteSize := Nat.not_lt.mpr (usable_iff.mp own).2.1
    rw [advance_append_of_arrived (ih holds), advance, holds]
    simp only [if_neg staying, if_neg upward, if_neg short, found]
    cases entry with
    | link text => exact absurd rfl (noLink text)
    | file | directory => rfl

/-- A place below a root that is tidy, at which a directory stands, and to which the path is not too long. -/
structure Stand (disk : Disk) (root : Root) (place : Location) (names : List String) : Prop where
  rooted : disk.Rooted root place
  tidy : disk.Tidy place
  admitted : root.admits (root.path ++ names) = true
  directory : disk.find? (place ++ names) = some .directory

namespace Stand

variable (stand : disk.Stand root place names)
include stand

theorem top : root.admits root = true := Root.admits_of_prefix (List.prefix_append _ _) stand.admitted

theorem resolve : disk.resolve (root.path ++ names) = .ok (place ++ names) := by
  rw [stand.rooted.resolve_append (stand.tidy.plain (stand.tidy.proper stand.directory))]
  exact stand.tidy.walk stand.rooted.sound stand.directory

theorem resolveParent (short : name.utf8ByteSize ≤ nameLimit) (clean : nameAllowed name = true) :
    disk.resolveParent (root.path ++ names ++ [name]) = .ok (place ++ names ++ [name]) := by
  rw [Disk.resolveParent, List.getLast?_concat, List.dropLast_concat, stand.resolve]
  simp only [stand.directory, clean, if_neg (Nat.not_lt.mpr short), if_true]

theorem entryAt?_iff : disk.entryAt? (root.path ++ names ++ [name]) = some entry ↔
    disk.find? (place ++ names ++ [name]) = some entry := by
  constructor
  · intro found
    rw [entryAt?, Disk.resolveParent, List.getLast?_concat, List.dropLast_concat, stand.resolve] at found
    simp only [stand.directory] at found
    split at found
    · rename_i there reached
      split at reached
      · cases reached
      · split at reached
        · cases reached
          exact found
        · cases reached
    · cases found
  · intro found
    have own := (stand.tidy.below names [name] entry found).1 name List.mem_cons_self
    obtain ⟨-, short, clean⟩ := usable_iff.mp own
    rw [entryAt?, stand.resolveParent short clean]
    exact found

variable {dir : DirectoryNode} (here : dir = ⟨root, root.path ++ names⟩) {wanted : Entry → Bool} {child : Location}
include here

theorem child?_iff : dir.child? disk wanted name = some child ↔
    child = root.path ++ names ++ [name] ∧ root.admits child = true ∧
      ∃ entry, disk.find? (place ++ names ++ [name]) = some entry ∧ wanted entry = true := by
  rw [DirectoryNode.child?_eq_some, DirectoryNode.childPath, here]
  simp only [stand.entryAt?_iff]
  constructor
  · rintro ⟨-, admitted, found, rfl⟩
    exact ⟨rfl, admitted, found⟩
  · rintro ⟨rfl, admitted, entry, found, fits⟩
    have own := (stand.tidy.below names [name] entry found).1 name List.mem_cons_self
    exact ⟨(usable_iff.mp own).1, admitted, ⟨entry, found, fits⟩, rfl⟩

theorem list_eq : disk.list dir.path = .ok (disk.children (place ++ names)) := by
  rw [here]
  exact list_eq_ok.mpr ⟨_, stand.resolve, stand.directory, rfl⟩

theorem childPaths_eq : dir.childPaths disk wanted =
    ((disk.children (place ++ names)).filter (wanted ·.2)).map fun e => root.path ++ names ++ [e.1] := by
  rw [DirectoryNode.childPaths, stand.list_eq here, here, Root.handing_of_admits stand.admitted]
  rfl

theorem mem_childPaths : child ∈ dir.childPaths disk wanted ↔ ∃ name entry,
    child = root.path ++ names ++ [name] ∧ disk.find? (place ++ names ++ [name]) = some entry ∧
      wanted entry = true := by
  rw [DirectoryNode.mem_childPaths, stand.list_eq here]
  simp only [Except.ok.injEq, exists_eq_left', Prod.exists, stand.rooted.sound.mem_children, DirectoryNode.childPath,
    here]
  constructor
  · rintro ⟨-, name, entry, found, fits, rfl⟩
    exact ⟨name, entry, rfl, found, fits⟩
  · rintro ⟨name, entry, rfl, found, fits⟩
    exact ⟨stand.admitted, name, entry, found, fits, rfl⟩

end Stand

section Changes

variable (tidy : disk.Tidy place)
include tidy

theorem Tidy.put (usable : ∀ name ∈ names, Path.Usable name) (free : disk.find? (place ++ names) = none)
    (noLink : ∀ text, entry ≠ .link text) : (disk.put (place ++ names) entry).Tidy place := by
  intro more other found
  rw [find?_put free] at found
  split at found
  · rename_i here
    cases found
    rw [List.append_cancel_left here]
    exact ⟨usable, noLink⟩
  · exact tidy more other found

theorem Tidy.of_fewer (fewer : ∀ there entry, after.find? there = some entry → disk.find? there = some entry) :
    after.Tidy place := fun names entry found => tidy names entry (fewer _ entry found)

theorem Tidy.filled {there : Location} {old : Bytes} (stood : disk.find? there = some (.file old))
    (bytes : Bytes) : (disk.filled there bytes).Tidy place := by
  intro names entry found
  rw [find?_filled stood] at found
  split at found
  · rename_i here
    cases found
    exact ⟨(tidy names _ (here ▸ stood)).1, by simp⟩
  · exact tidy names entry found

theorem Tidy.moved (sound : disk.Sound) {old new : String} (usable : Path.Usable new)
    (free : disk.find? (place ++ names ++ [new]) = none)
    (apart : ¬ place ++ names ++ [old] <+: place ++ names ++ [new]) :
    (disk.moved (place ++ names ++ [old]) (place ++ names ++ [new])).Tidy place := by
  intro more entry found
  by_cases toTarget : place ++ names ++ [new] <+: place ++ more
  · -- what stands below the new name stood below the old one, under the same names
    obtain ⟨rest, whole⟩ := toTarget
    rw [← whole, find?_moved_target sound free apart] at found
    rw [List.append_assoc, List.append_assoc] at whole
    obtain rfl := List.append_cancel_left whole
    rw [List.append_assoc, List.append_assoc] at found
    obtain ⟨all, noLink⟩ := tidy _ _ found
    refine ⟨fun name among => ?_, noLink⟩
    rcases List.mem_append.mp among with above | among
    · exact all name (List.mem_append_left _ above)
    · rcases List.mem_append.mp among with last | below
      · rw [List.mem_singleton.mp last]
        exact usable
      · exact all name (List.mem_append_right _ (List.mem_append_right _ below))
  · by_cases fromSource : place ++ names ++ [old] <+: place ++ more
    · rw [find?_moved_source sound free apart fromSource toTarget] at found
      cases found
    · rw [find?_moved_apart sound free apart fromSource toTarget] at found
      exact tidy more entry found

end Changes

/-- Nothing changes but what stands inside a place, and the place stays tidy. -/
structure Tidies (place : Location) (before after : Disk) : Prop extends Keeps place before after where
  tidy : after.Tidy place

section Steps

variable (rooted : disk.Rooted path place) (tidy : disk.Tidy place) (proper : ∀ name ∈ names, Proper name)
include rooted tidy proper

theorem resolveParent_eq_ok {there : Location}
    (reached : disk.resolveParent (path ++ names ++ [name]) = .ok there) :
    there = place ++ names ++ [name] ∧ disk.find? (place ++ names) = some .directory ∧
      (validName name = true → Path.Usable name) := by
  have plain := tidy.plain proper
  rw [resolveParent, List.getLast?_concat, List.dropLast_concat, rooted.resolve_append plain] at reached
  dsimp only at reached
  split at reached
  · cases reached
  · rename_i holder walked
    rw [walk_eq_ok plain walked] at reached
    split at reached
    · rename_i directory
      split at reached
      · cases reached
      · rename_i short
        split at reached
        · rename_i clean
          cases reached
          exact ⟨rfl, directory, fun valid => usable_iff.mpr ⟨valid, Nat.not_lt.mp short, clean⟩⟩
        · cases reached
    · cases reached

omit rooted proper in
theorem put_tidies (holds : disk.find? (place ++ names) = some .directory) (usable : Path.Usable name)
    (free : disk.find? (place ++ names ++ [name]) = none) (noLink : ∀ text, entry ≠ .link text) :
    Tidies place disk (disk.put (place ++ names ++ [name]) entry) := by
  refine ⟨(calm_put usable.proper (below_concat _ _ _) holds free noLink).toKeeps, ?_⟩
  rw [List.append_assoc] at free ⊢
  refine tidy.put (fun other among => ?_) free noLink
  rcases List.mem_append.mp among with above | last
  · exact (tidy _ _ holds).1 other above
  · rw [List.mem_singleton.mp last]
    exact usable

theorem create_tidies (valid : validName name = true) (noLink : ∀ text, entry ≠ .link text)
    (created : disk.create (path ++ names ++ [name]) entry = .ok after) : Tidies place disk after := by
  rw [create] at created
  split at created
  · cases created
  · rename_i there reached
    obtain ⟨rfl, holds, usable⟩ := resolveParent_eq_ok rooted tidy proper reached
    split at created
    · cases created
    · rename_i free
      cases created
      exact put_tidies tidy holds (usable valid) free noLink

omit rooted proper in
theorem erase_tidies {there : Location} (below : Below place there)
    (bare : disk.Sound → ∀ e ∈ disk.entries, e.1.dropLast ≠ there) : Tidies place disk (disk.erase there) := by
  have some_ : there ≠ [] := fun top => below.2 (List.prefix_nil.mp (top ▸ below.1) ▸ top)
  refine ⟨(calm_erase below bare).toKeeps, tidy.of_fewer fun other entry found => ?_⟩
  rw [find?_erase disk some_] at found
  split at found
  · cases found
  · exact found

theorem removeFile_tidies (removed : disk.removeFile (path ++ names ++ [name]) = .ok after) :
    Tidies place disk after := by
  rw [removeFile] at removed
  split at removed
  · cases removed
  · rename_i there reached
    obtain ⟨rfl, -⟩ := resolveParent_eq_ok rooted tidy proper reached
    split at removed
    · cases removed
    · cases removed
    · rename_i stood notDirectory found
      cases removed
      refine erase_tidies tidy (below_concat _ _ _) fun sound e listed here => ?_
      have held := sound.held e listed
      rw [here, found] at held
      cases held
      exact notDirectory rfl

theorem removeDirectory_tidies (removed : disk.removeDirectory (path ++ names ++ [name]) = .ok after) :
    Tidies place disk after := by
  rw [removeDirectory] at removed
  split at removed
  · cases removed
  · rename_i there reached
    obtain ⟨rfl, -⟩ := resolveParent_eq_ok rooted tidy proper reached
    split at removed
    · cases removed
    · split at removed
      · cases removed
      · rename_i bare
        cases removed
        exact erase_tidies tidy (below_concat _ _ _) (bare_of_no_child (by simpa using bare))
    · cases removed

theorem changeFile_tidies {change : Bytes → Bytes} (changed : disk.changeFile (path ++ names) change = .ok after) :
    Tidies place disk after := by
  have plain := tidy.plain proper
  obtain ⟨there, bytes, reached, found, rfl⟩ := changeFile_eq_ok changed
  rw [rooted.resolve_append plain] at reached
  obtain rfl := walk_eq_ok plain reached
  have some_ : names ≠ [] := by
    rintro rfl
    rw [List.append_nil, rooted.directory] at found
    cases found
  exact ⟨(calm_filled (below_append some_ place) found _).toKeeps, tidy.filled found _⟩

theorem renameAt_tidies (root : Root) (old new : String) :
    Tidies place disk (renameAt disk root (path ++ names ++ [old]) new).2 := by
  have same : Tidies place disk disk := ⟨.refl place disk, tidy⟩
  rw [renameAt]
  split
  · exact same
  · rename_i valid
    rw [List.dropLast_concat]
    dsimp only
    split
    · exact same
    · split
      · exact same
      · rename_i middle moved
        replace moved := (Root.handing_eq_ok.mp (Root.handing_eq_ok.mp moved).2).2
        rw [move] at moved
        split at moved
        · cases moved
        · cases moved
        · rename_i source target fromReached toReached
          obtain ⟨rfl, holds, -⟩ := resolveParent_eq_ok rooted tidy proper fromReached
          obtain ⟨rfl, -, usable⟩ := resolveParent_eq_ok rooted tidy proper toReached
          split at moved
          · cases moved
          · cases moved
          · rename_i free
            split at moved
            · cases moved
            · rename_i apart
              cases moved
              have own := usable (by simpa using valid)
              have apart' : ¬ place ++ names ++ [old] <+: place ++ names ++ [new] := by simpa using apart
              exact ⟨keeps_moved own.proper (below_concat _ _ _) (below_concat _ _ _) free apart' holds,
                tidy.moved rooted.sound own free apart'⟩

end Steps

end Disk

end GuestStorage.Host
