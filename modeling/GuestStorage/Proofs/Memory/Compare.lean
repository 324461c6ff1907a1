import GuestStorage.Proofs.Memory.Clear
import GuestStorage.Proofs.Memory.Depth
import Mathlib.Data.List.Perm.Subperm

namespace GuestStorage.Memory

open GuestStorage.Tree Node
open Stored (store)

/-- What names and sizes tell of an entry: the length of a file, and nothing of a directory. -/
def Content.outline : Content → Option Nat
  | .file bytes => some bytes.length
  | .directory => none

def Node.outline? (s : Store) (x : Node) (path : List String) : Option (Option Nat) :=
  (x.content? s path).map Content.outline

/-- The same names lead to directories and to files of the same length. -/
def Node.Alike (s : Store) (x y : Node) : Prop := ∀ path, x.outline? s path = y.outline? s path

theorem Node.outline?_cons (s : Store) (x : Node) (name : String) (rest : List String) :
    x.outline? s (name :: rest) = (x.child? s name).bind (·.outline? s rest) := by
  rw [outline?, content?_cons]
  cases x.child? s name <;> rfl

namespace Store

variable {s : Store} {dir : DirectoryId} {name : String} {length : Nat}

def fileSizes (s : Store) (dir : DirectoryId) : List (String × Nat) :=
  (s.files dir).map fun file => (s.fileName file, (s.fileBytes file).length)

theorem Sound.mem_fileSizes (sound : s.Sound) :
    (name, length) ∈ s.fileSizes dir ↔ (Node.directory dir).outline? s [name] = some (some length) := by
  rw [outline?_cons, fileSizes, List.mem_map]
  constructor
  · rintro ⟨file, listed, same⟩
    obtain ⟨rfl, rfl⟩ := Prod.mk.inj same
    have found : (Node.directory dir).child? s (s.fileName file) = some (.file file) :=
      sound.child?_file_eq_some.mpr (sound.file?_eq_some.mpr ⟨listed, rfl⟩)
    rw [found]
    rfl
  · intro shown
    obtain ⟨y, found, shows⟩ := Option.bind_eq_some_iff.mp shown
    cases y with
    | directory sub => cases shows
    | file file =>
      obtain ⟨listed, rfl⟩ := sound.file?_eq_some.mp (sound.child?_file_eq_some.mp found)
      exact ⟨file, listed, congrArg _ (Option.some.inj (Option.some.inj shows))⟩

theorem Sound.mem_directoryNames (sound : s.Sound) :
    name ∈ (s.subdirectories dir).map s.directoryName ↔
      (Node.directory dir).outline? s [name] = some none := by
  rw [outline?_cons, List.mem_map]
  constructor
  · rintro ⟨sub, listed, rfl⟩
    have found : (Node.directory dir).child? s (s.directoryName sub) = some (.directory sub) :=
      child?_directory_eq_some.mpr (sound.subdirectory?_eq_some.mpr ⟨listed, rfl⟩)
    rw [found]
    rfl
  · intro shown
    obtain ⟨y, found, shows⟩ := Option.bind_eq_some_iff.mp shown
    cases y with
    | file file => cases shows
    | directory sub =>
      exact ⟨sub, sound.subdirectory?_eq_some.mp (child?_directory_eq_some.mp found)⟩

theorem Sound.fileNames_nodup (sound : s.Sound) (dir : DirectoryId) : ((s.files dir).map s.fileName).Nodup :=
  (List.nodup_append.mp (sound.names_nodup dir)).1

theorem Sound.directoryNames_nodup (sound : s.Sound) (dir : DirectoryId) :
    ((s.subdirectories dir).map s.directoryName).Nodup :=
  (List.nodup_append.mp (sound.names_nodup dir)).2.1

theorem Sound.fileSizes_nodup (sound : s.Sound) (dir : DirectoryId) : (s.fileSizes dir).Nodup := by
  have names : (s.fileSizes dir).map Prod.fst = (s.files dir).map s.fileName := by
    rw [fileSizes, List.map_map]
    rfl
  exact (names ▸ sound.fileNames_nodup dir).of_map _

end Store

variable {s : Store} {dir other : DirectoryId} {lost : List Node}

section Levels

variable (sound : s.Sound) (files : (s.fileSizes dir).Perm (s.fileSizes other))
  (subdirectories : ((s.subdirectories dir).map s.directoryName).Perm ((s.subdirectories other).map s.directoryName))
include sound files subdirectories

theorem outline?_eq_of_listed {name : String} (rest : List String)
    (below : ∀ sub sub', s.subdirectory? dir name = some sub → s.subdirectory? other name = some sub' →
      (Node.directory sub).outline? s rest = (Node.directory sub').outline? s rest) :
    (Node.directory dir).outline? s (name :: rest) = (Node.directory other).outline? s (name :: rest) := by
  have same : (Node.directory dir).outline? s [name] = (Node.directory other).outline? s [name] := by
    ext shown
    cases shown with
    | none => rw [← sound.mem_directoryNames, ← sound.mem_directoryNames, subdirectories.mem_iff]
    | some length => rw [← sound.mem_fileSizes, ← sound.mem_fileSizes, files.mem_iff]
  rw [outline?_cons, outline?_cons] at same ⊢
  cases found : (Node.directory dir).child? s name with
  | none =>
    rw [found, Option.bind_none, eq_comm] at same
    cases found' : (Node.directory other).child? s name with
    | none => rfl
    | some y => rw [found'] at same; cases same
  | some x =>
    rw [found] at same
    cases found' : (Node.directory other).child? s name with
    | none => rw [found'] at same; cases same
    | some y =>
      rw [found'] at same
      cases x with
      | file file =>
        cases y with
        | file file' =>
          cases rest with
          | nil => exact same
          | cons next rest => rfl
        | directory sub' => cases same
      | directory sub =>
        cases y with
        | file file' => cases same
        | directory sub' =>
          exact below sub sub' (child?_directory_eq_some.mp found) (child?_directory_eq_some.mp found')

end Levels

theorem Node.Alike.listed (sound : s.Sound) (alike : (Node.directory dir).Alike s (.directory other)) :
    (s.fileSizes dir).Perm (s.fileSizes other) ∧
      ((s.subdirectories dir).map s.directoryName).Perm ((s.subdirectories other).map s.directoryName) := by
  constructor
  · rw [List.perm_ext_iff_of_nodup (sound.fileSizes_nodup dir) (sound.fileSizes_nodup other)]
    rintro ⟨name, length⟩
    rw [sound.mem_fileSizes, sound.mem_fileSizes, alike]
  · rw [List.perm_ext_iff_of_nodup (sound.directoryNames_nodup dir) (sound.directoryNames_nodup other)]
    intro name
    rw [sound.mem_directoryNames, sound.mem_directoryNames, alike]

theorem Node.Alike.child (alike : (Node.directory dir).Alike s (.directory other)) {name : String}
    {sub sub' : DirectoryId} (found : s.subdirectory? dir name = some sub)
    (found' : s.subdirectory? other name = some sub') : (Node.directory sub).Alike s (.directory sub') := by
  intro rest
  have below := alike (name :: rest)
  rwa [outline?_cons, outline?_cons, child?_directory_eq_some.mpr found, child?_directory_eq_some.mpr found'] at below

section Comparing

variable {σ : Type} [Backing σ FileId DirectoryId] [Stored σ] {t : σ} {a b : DirectoryView DirectoryId}

theorem view_fileSizes (t : σ) (a : DirectoryView DirectoryId) : a.fileSizes t = (store t).fileSizes a.node := by
  rw [DirectoryView.fileSizes, DirectoryView.files, Stored.files, List.map_map, Store.fileSizes]
  refine List.map_congr_left fun file _ => ?_
  rw [Function.comp_apply, FileView.name, FileView.size, Stored.fileName, Stored.fileSize]

theorem sameShapeWithin_succ_iff (depth : Nat) :
    DirectoryView.sameShapeWithin t (depth + 1) a b = true ↔
      ((store t).fileSizes a.node).Perm ((store t).fileSizes b.node) ∧
      ((store t).subdirectories a.node).length = ((store t).subdirectories b.node).length ∧
      ∀ sub ∈ (store t).subdirectories a.node, ∃ sub',
        (store t).subdirectory? b.node ((store t).directoryName sub) = some sub' ∧
        DirectoryView.sameShapeWithin t depth ⟨sub, a.readOnly⟩ ⟨sub', b.readOnly⟩ = true := by
  simp only [DirectoryView.sameShapeWithin, Bool.and_eq_true, beq_iff_eq, List.all_eq_true, and_assoc,
    view_fileSizes, List.isPerm_iff, DirectoryView.subdirectories, Stored.subdirectories, List.length_map,
    List.mem_map, forall_exists_index, and_imp, forall_apply_eq_imp_iff₂, DirectoryView.name, Stored.directoryName,
    DirectoryView.subdirectory?, Stored.subdirectory?]
  refine and_congr_right fun _ => and_congr_right fun _ => forall₂_congr fun sub _ => ?_
  cases (store t).subdirectory? b.node ((store t).directoryName sub) <;> simp

theorem alike_of_sameShapeWithin (depth : Nat) (sound : (store t).Sound)
    (same : DirectoryView.sameShapeWithin t depth a b = true) :
    (Node.directory a.node).Alike (store t) (.directory b.node) := by
  induction depth generalizing a b with
  | zero => cases same
  | succ depth ih =>
    obtain ⟨files, counts, each⟩ := (sameShapeWithin_succ_iff depth).mp same
    have inside : ((store t).subdirectories a.node).map (store t).directoryName ⊆
        ((store t).subdirectories b.node).map (store t).directoryName := by
      intro name listed
      obtain ⟨sub, among, rfl⟩ := List.mem_map.mp listed
      obtain ⟨sub', found, -⟩ := each sub among
      obtain ⟨listed', named⟩ := sound.subdirectory?_eq_some.mp found
      exact List.mem_map.mpr ⟨sub', listed', named⟩
    have subdirectories := (List.subperm_of_subset (sound.directoryNames_nodup a.node) inside).perm_of_length_le
      (by simpa only [List.length_map] using counts.ge)
    intro path
    cases path with
    | nil => rfl
    | cons name rest =>
      refine outline?_eq_of_listed sound files subdirectories rest fun sub sub' found found' => ?_
      obtain ⟨among, rfl⟩ := sound.subdirectory?_eq_some.mp found
      obtain ⟨again, there, deeper⟩ := each sub among
      obtain rfl := Option.some.inj (there.symm.trans found')
      exact ih deeper rest

theorem sameShapeWithin_of_alike (depth : Nat) (sound : (store t).Sound)
    (short : ∀ path sub, (Node.directory a.node).descend? (store t) path = some (.directory sub) →
      path.length < depth)
    (alike : (Node.directory a.node).Alike (store t) (.directory b.node)) :
    DirectoryView.sameShapeWithin t depth a b = true := by
  induction depth generalizing a b with
  | zero => exact absurd (short [] a.node rfl) (Nat.not_lt_zero _)
  | succ depth ih =>
    obtain ⟨files, subdirectories⟩ := alike.listed sound
    refine (sameShapeWithin_succ_iff depth).mpr ⟨files, by simpa using subdirectories.length_eq, fun sub among => ?_⟩
    have found := sound.subdirectory?_eq_some.mpr ⟨among, rfl⟩
    obtain ⟨sub', among', named⟩ := List.mem_map.mp (subdirectories.subset (List.mem_map_of_mem among))
    have found' := sound.subdirectory?_eq_some.mpr ⟨among', named⟩
    refine ⟨sub', found', ih (fun path inner further => ?_) (alike.child found found')⟩
    have longer : (Node.directory a.node).descend? (store t) ((store t).directoryName sub :: path) =
        some (.directory inner) := by
      rw [descend?_cons, child?_directory_eq_some.mpr found]
      exact further
    exact Nat.lt_of_succ_lt_succ (short _ _ longer)

theorem sameShape_iff_alike (sound : (store t).Sound) :
    a.sameShape t b = true ↔ (Node.directory a.node).Alike (store t) (.directory b.node) := by
  refine ⟨alike_of_sameShapeWithin _ sound, sameShapeWithin_of_alike _ sound fun path sub reached => ?_⟩
  rw [Stored.reach]
  exact sound.length_lt_reach reached

theorem sameShapeWithin_complete (depth : Nat) (sound : s.Sound) (sound' : (store t).Sound)
    (cuts : Cuts s (store t) lost) {copy : DirectoryId}
    (same : ∀ rest, (Node.directory copy).content? (store t) rest = (Node.directory dir).content? s rest)
    (equal : DirectoryView.sameShapeWithin t depth (.direct dir) (.direct copy) = true) :
    ∀ z ∈ lost, ¬ Below s (.directory dir) z := by
  rintro z gone ⟨⟨path, reached⟩, apart⟩
  have proper : path ≠ [] := by
    rintro rfl
    exact apart (Option.some.inj reached).symm
  have absent := cuts.lookup_lost sound sound' reached proper (List.prefix_refl _) gone
  have alike := alike_of_sameShapeWithin depth sound' equal path
  simp only [node_direct_directory, outline?, same] at alike
  rw [content?, content?, absent, lookup, reached] at alike
  cases alike

end Comparing

end GuestStorage.Memory
