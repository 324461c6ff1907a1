import GuestStorage.Proofs.Memory.Depth
import GuestStorage.Proofs.Memory.Stored
import GuestStorage.Proofs.Tree.Loops
import Mathlib.Data.List.Perm.Basic

namespace GuestStorage.Memory

open GuestStorage.Tree Node

def Content.size : Content → Nat
  | .file bytes => bytes.length
  | .directory => 0

namespace Store

/-- What stands below a directory down to a depth, each entry behind its directory. -/
def entriesWithin (s : Store) : Nat → DirectoryId → List (List String × Content)
  | 0, _ => []
  | depth + 1, dir =>
    (s.files dir).map (fun file => ([s.fileName file], .file (s.fileBytes file)))
      ++ (s.subdirectories dir).flatMap fun sub =>
        ([s.directoryName sub], .directory)
          :: (entriesWithin s depth sub).map fun e => (s.directoryName sub :: e.1, e.2)

def entries (s : Store) (dir : DirectoryId) : List (List String × Content) := s.entriesWithin s.reach dir

variable {s : Store} {dir sub : DirectoryId} {depth : Nat} {path rest : List String} {content : Content}

theorem ne_nil_of_mem_entriesWithin (listed : (path, content) ∈ s.entriesWithin depth dir) : path ≠ [] := by
  rintro rfl
  cases depth with
  | zero => cases listed
  | succ depth => simp [entriesWithin] at listed

theorem content?_file (s : Store) (file : FileId) (name : String) (rest : List String) :
    (Node.file file).content? s (name :: rest) = none := by
  rw [content?_cons]
  rfl

theorem Sound.mem_entriesWithin (sound : s.Sound) :
    (path, content) ∈ s.entriesWithin depth dir ↔
      path ≠ [] ∧ path.length ≤ depth ∧ (Node.directory dir).content? s path = some content := by
  induction depth generalizing dir path with
  | zero =>
    simp only [entriesWithin, List.not_mem_nil, Nat.le_zero, List.length_eq_zero_iff, false_iff]
    rintro ⟨proper, empty, -⟩
    exact proper empty
  | succ depth ih =>
    cases path with
    | nil => exact ⟨fun listed => absurd rfl (ne_nil_of_mem_entriesWithin listed), fun both => absurd rfl both.1⟩
    | cons name rest =>
      rw [entriesWithin, List.mem_append, List.mem_map, List.mem_flatMap, content?_cons,
        Option.bind_eq_some_iff, List.length_cons, Nat.add_le_add_iff_right]
      constructor
      · rintro (⟨file, listed, same⟩ | ⟨sub, listed, inside⟩)
        · cases same
          refine ⟨by simp, Nat.zero_le _, .file file, ?_, rfl⟩
          exact sound.child?_file_eq_some.mpr (sound.file?_eq_some.mpr ⟨listed, rfl⟩)
        · have found : (Node.directory dir).child? s (s.directoryName sub) = some (.directory sub) :=
            child?_directory_eq_some.mpr (sound.subdirectory?_eq_some.mpr ⟨listed, rfl⟩)
          rcases List.mem_cons.mp inside with same | below
          · cases same
            exact ⟨by simp, Nat.zero_le _, .directory sub, found, rfl⟩
          · obtain ⟨⟨inner, shown⟩, among, same⟩ := List.mem_map.mp below
            cases same
            obtain ⟨-, short, there⟩ := ih.mp among
            exact ⟨by simp, short, .directory sub, found, there⟩
      · rintro ⟨-, short, y, found, there⟩
        cases y with
        | file file =>
          obtain ⟨listed, rfl⟩ := sound.file?_eq_some.mp (sound.child?_file_eq_some.mp found)
          cases rest with
          | nil => exact .inl ⟨file, listed, congrArg _ (Option.some.inj there)⟩
          | cons next rest => rw [content?_file] at there; cases there
        | directory sub =>
          obtain ⟨listed, rfl⟩ := sound.subdirectory?_eq_some.mp (child?_directory_eq_some.mp found)
          refine .inr ⟨sub, listed, ?_⟩
          cases rest with
          | nil => exact List.mem_cons.mpr (.inl (congrArg _ (Option.some.inj there).symm))
          | cons next rest =>
            refine List.mem_cons_of_mem _ (List.mem_map.mpr ⟨(next :: rest, content), ?_, rfl⟩)
            exact ih.mpr ⟨by simp, short, there⟩

theorem Sound.mem_entries (sound : s.Sound) :
    (path, content) ∈ s.entries dir ↔
      path ≠ [] ∧ (Node.directory dir).content? s path = some content := by
  rw [entries, sound.mem_entriesWithin]
  refine and_congr_right fun _ => and_iff_right_of_imp fun shown => ?_
  obtain ⟨entry, shown, -⟩ := Option.map_eq_some_iff.mp shown
  obtain ⟨y, reached, -⟩ := Option.map_eq_some_iff.mp shown
  exact Nat.le_of_lt (sound.length_lt_reach reached)

theorem Sound.entriesWithin_keys_nodup (sound : s.Sound) (depth : Nat) (dir : DirectoryId) :
    ((s.entriesWithin depth dir).map (·.1)).Nodup := by
  induction depth generalizing dir with
  | zero => exact List.nodup_nil
  | succ depth ih =>
    let group (sub : DirectoryId) : List (List String) :=
      [s.directoryName sub] :: ((s.entriesWithin depth sub).map (·.1)).map (s.directoryName sub :: ·)
    have keys : ((s.entriesWithin (depth + 1) dir).map (·.1)) =
        ((s.files dir).map s.fileName).map (fun name => [name]) ++ (s.subdirectories dir).flatMap group := by
      simp [entriesWithin, group, List.map_flatMap, Function.comp_def]
    have headed : ∀ {sub key}, key ∈ group sub → key.head? = some (s.directoryName sub) := by
      intro sub key among
      rcases List.mem_cons.mp among with rfl | below
      · rfl
      · obtain ⟨rest, -, rfl⟩ := List.mem_map.mp below
        rfl
    have distinct := List.nodup_append'.mp (sound.names_nodup dir)
    rw [keys]
    refine List.nodup_append'.mpr ⟨distinct.1.map fun one other same => (List.cons.inj same).1, ?_, ?_⟩
    · refine List.nodup_flatMap.mpr ⟨fun sub _ => List.nodup_cons.mpr ⟨?_, ?_⟩, ?_⟩
      · intro below
        obtain ⟨rest, among, same⟩ := List.mem_map.mp below
        obtain ⟨e, listed, rfl⟩ := List.mem_map.mp among
        exact ne_nil_of_mem_entriesWithin listed (List.cons.inj same).2
      · exact (ih sub).map fun one other same => (List.cons.inj same).2
      · refine (sound.subdirectories_nodup dir).pairwise_of_forall_ne fun sub listed other also apart => ?_
        intro key first second
        have same := Option.some.inj ((headed first).symm.trans (headed second))
        exact apart (sound.directory_name_injective listed also same)
    · intro key first second
      obtain ⟨name, taken, rfl⟩ := List.mem_map.mp first
      obtain ⟨sub, listed, inside⟩ := List.mem_flatMap.mp second
      obtain rfl := Option.some.inj (headed inside)
      exact distinct.2.2 taken (List.mem_map_of_mem listed)

theorem Sound.entries_keys_nodup (sound : s.Sound) (dir : DirectoryId) :
    ((s.entries dir).map (·.1)).Nodup := sound.entriesWithin_keys_nodup s.reach dir

theorem sum_map_flatMap {α β : Type} (items : List α) (group : α → List β) (weight : β → Nat) :
    ((items.flatMap group).map weight).sum = (items.map fun x => ((group x).map weight).sum).sum := by
  induction items with
  | nil => rfl
  | cons x rest ih => rw [List.flatMap_cons, List.map_append, List.sum_append, ih, List.map_cons, List.sum_cons]

theorem sizeWithin_eq_sum (s : Store) (depth : Nat) (dir : DirectoryId) :
    (DirectoryView.direct dir).sizeWithin s depth =
      ((s.entriesWithin depth dir).map fun e => e.2.size).sum := by
  induction depth generalizing dir with
  | zero => rfl
  | succ depth ih =>
    rw [DirectoryView.sizeWithin_succ, direct_files, direct_subdirectories, entriesWithin, List.map_append,
      List.sum_append, sum_map_flatMap]
    simp [Function.comp_def, ih, Content.size, store_self]

theorem size_eq_sum_entries (s : Store) (dir : DirectoryId) :
    (DirectoryView.direct dir).size s = ((s.entries dir).map fun e => e.2.size).sum :=
  s.sizeWithin_eq_sum s.reach dir

end Store

end GuestStorage.Memory
