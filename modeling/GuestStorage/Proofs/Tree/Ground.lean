import GuestStorage.Proofs.Path
import GuestStorage.Proofs.Tree.Region

namespace GuestStorage.Tree

variable {σ F D : Type} [Backing σ F D]

namespace DirectoryView

variable {s : σ} {dir : DirectoryView D}

theorem descend?_append (names rest : List String) :
    dir.descend? s (names ++ rest) = (dir.descend? s names).bind (·.descend? s rest) :=
  List.foldlM_append

theorem descend?_concat (names : List String) (name : String) :
    dir.descend? s (names ++ [name]) = (dir.descend? s names).bind (·.subdirectory? s name) := by
  rw [descend?_append]
  cases dir.descend? s names with
  | none => rfl
  | some holder => cases found : holder.subdirectory? s name <;> simp [descend?, found]

end DirectoryView

theorem not_prefix_of_concat (names : List String) (name : String) : ¬ names ++ [name] <+: names := by
  intro short
  have lengths := short.length_le
  rw [List.length_append, List.length_singleton] at lengths
  omega

def DirectoryView.Finds (s : σ) (dir : DirectoryView D) : Prop :=
  ∀ sub ∈ dir.subdirectories s, dir.subdirectory? s (sub.name s) = some sub

/-- A directory without files got none, finds the same directories and takes changes as before. -/
structure SameLevel (s s' : σ) (dir : DirectoryView D) : Prop where
  files : dir.files s = [] → dir.files s' = []
  subdirectory? : ∀ name, dir.subdirectory? s' name = dir.subdirectory? s name
  finds : dir.Finds s → dir.Finds s'
  isWritable : dir.isWritable s' = dir.isWritable s

theorem SameLevel.refl (s : σ) (dir : DirectoryView D) : SameLevel s s dir := ⟨id, fun _ => rfl, id, rfl⟩

/-- A good state in which all directories are as they were but for what their files hold. -/
def Steady (holds : σ → Prop) (root : DirectoryView D) (s s' : σ) : Prop :=
  holds s' ∧ ∀ names dir, root.descend? s names = some dir → SameLevel s s' dir

theorem Steady.refl {holds : σ → Prop} {s : σ} (root : DirectoryView D) (here : holds s) : Steady holds root s s :=
  ⟨here, fun _ dir _ => .refl s dir⟩

/-- A new empty directory stands in another under a name, and all directories are else as they were. -/
structure Makes (root : DirectoryView D) (s s' : σ) (names : List String) (name : String)
    (new : DirectoryView D) : Prop where
  newFiles : new.files s' = []
  newSubdirectory? : ∀ name, new.subdirectory? s' name = none
  newFinds : new.Finds s'
  newWritable : new.isWritable s' = true
  files : ∀ {others dir}, root.descend? s others = some dir → dir.files s = [] → dir.files s' = []
  finds : ∀ {others dir}, root.descend? s others = some dir → dir.Finds s → dir.Finds s'
  isWritable : ∀ {others dir}, root.descend? s others = some dir → dir.isWritable s' = dir.isWritable s
  subdirectory? : ∀ {others dir}, root.descend? s others = some dir → ∀ wanted,
    dir.subdirectory? s' wanted = if others = names ∧ wanted = name then some new else dir.subdirectory? s wanted

/-- States of a storage in which all below a root is as it should be. What a directory finds it lists, and
    what it lists and does not find shows nothing. Where there is room for the names to it, a writable
    directory without files takes a new one, and below every other directory than the root lies a part
    that nothing leads out of. -/
structure Ground (σ : Type) {F D : Type} [Backing σ F D] (root : DirectoryView D) where
  holds : σ → Prop
  room : List String → Prop
  room_nil : room []
  room_of_prefix : ∀ {front names}, front <+: names → room names → room front
  found : ∀ {s names dir}, holds s → root.descend? s names = some dir → ∀ {name sub},
    dir.subdirectory? s name = some sub → sub ∈ dir.subdirectories s ∧ sub.name s = name
  listed : ∀ {s names dir}, holds s → root.descend? s names = some dir → ∀ {sub}, sub ∈ dir.subdirectories s →
    dir.subdirectory? s (sub.name s) = some sub ∨ sub.files s = [] ∧ sub.subdirectories s = []
  names_nodup : ∀ {s names dir}, holds s → root.descend? s names = some dir →
    ((dir.subdirectories s).map (·.name s)).Nodup
  short : ∀ {s names dir more sub}, holds s → root.descend? s names = some dir →
    dir.descend? s more = some sub → more.length < Backing.reach s dir.node
  create : ∀ {s names dir name}, holds s → root.descend? s names = some dir → Path.Usable name →
    room (names ++ [name]) → dir.files s = [] → dir.subdirectory? s name = none → dir.isWritable s = true →
    ∃ new s', dir.createSubdirectory s name = (some new, s') ∧ holds s' ∧ Makes root s s' names name new
  refuse : ∀ {s names dir name}, holds s → root.descend? s names = some dir →
    ¬ room (names ++ [name]) ∨ dir.isWritable s = false →
    dir.createSubdirectory s name = (none, s)
  write : ∀ {s} (file : F) (offset : Nat) (data : Bytes), holds s →
    Steady holds root s (Backing.write s file offset data).2
  resize : ∀ {s} (file : F) (size : Nat), holds s → Steady holds root s (Backing.resize s file size).2
  part : ∀ {s names dir}, holds s → names ≠ [] → root.descend? s names = some dir →
    ∃ region : Region σ, region.holds s ∧ region.directory dir.node ∧ ∀ s', region.holds s' →
      holds s' ∧ ∀ others found, ¬ names <+: others → root.descend? s others = some found → SameLevel s s' found

theorem Ground.descend?_concat_eq_some {root : DirectoryView D} {s : σ} (ground : Ground σ root)
    (front : List String) {name : String} {sub : DirectoryView D} (holds : ground.holds s)
    (led : root.descend? s (front ++ [name]) = some sub) :
    ∃ dir, root.descend? s front = some dir ∧ sub ∈ dir.subdirectories s ∧ sub.name s = name := by
  rw [DirectoryView.descend?_concat] at led
  obtain ⟨dir, reached, found⟩ := Option.bind_eq_some_iff.mp led
  exact ⟨dir, reached, ground.found holds reached found⟩

section Files

variable {root : DirectoryView D} (ground : Ground σ root) {s : σ} (holds : ground.holds s) (file : FileView F)
include holds

theorem Ground.steady_write (offset : Nat) (data : Bytes) :
    Steady ground.holds root s (file.write s offset data).2 := by
  rw [FileView.write]
  split
  · exact .refl root holds
  · exact ground.write file.node offset data holds

theorem Ground.steady_resize (size : Nat) : Steady ground.holds root s (file.resize s size).2 := by
  rw [FileView.resize]
  split
  · exact .refl root holds
  · exact ground.resize file.node size holds

end Files

namespace SameLevel

variable {s s' s'' : σ} {dir : DirectoryView D}

theorem trans (first : SameLevel s s' dir) (second : SameLevel s' s'' dir) : SameLevel s s'' dir :=
  ⟨second.files ∘ first.files, fun name => (second.subdirectory? name).trans (first.subdirectory? name),
    second.finds ∘ first.finds, second.isWritable.trans first.isWritable⟩

theorem descend? {root : DirectoryView D} {names : List String}
    (same : ∀ front dir, front <+: names → front ≠ names → root.descend? s front = some dir →
      SameLevel s s' dir) : root.descend? s' names = root.descend? s names := by
  induction names using List.reverseRecOn with
  | nil => rfl
  | append_singleton names name ih =>
    have before : root.descend? s' names = root.descend? s names := by
      refine ih fun front dir short proper reached => same front dir (short.trans (List.prefix_append _ _)) ?_ reached
      rintro rfl
      exact not_prefix_of_concat _ _ short
    rw [DirectoryView.descend?_concat, DirectoryView.descend?_concat, before]
    cases reached : root.descend? s names with
    | none => rfl
    | some holder => exact (same names holder (List.prefix_append _ _) (by simp) reached).subdirectory? name

end SameLevel

namespace Makes

variable {root new : DirectoryView D} {s s' : σ} {names : List String} {name : String}

theorem sameLevel (made : Makes root s s' names name new) {others : List String} {dir : DirectoryView D}
    (elsewhere : others ≠ names) (reached : root.descend? s others = some dir) : SameLevel s s' dir :=
  ⟨made.files reached, fun wanted => by rw [made.subdirectory? reached, if_neg fun both => elsewhere both.1],
    made.finds reached, made.isWritable reached⟩

theorem descend?_of_apart (made : Makes root s s' names name new) {others : List String}
    (apart : ¬ names ++ [name] <+: others) : root.descend? s' others = root.descend? s others := by
  induction others using List.reverseRecOn with
  | nil => rfl
  | append_singleton front last ih =>
    have before := ih fun short => apart (short.trans (List.prefix_append _ _))
    rw [DirectoryView.descend?_concat, DirectoryView.descend?_concat, before]
    cases reached : root.descend? s front with
    | none => rfl
    | some holder =>
      refine (made.subdirectory? reached last).trans (if_neg ?_)
      rintro ⟨rfl, rfl⟩
      exact apart (List.prefix_refl _)

theorem descend?_new (made : Makes root s s' names name new) {dir : DirectoryView D}
    (reached : root.descend? s names = some dir) : root.descend? s' (names ++ [name]) = some new := by
  have before : root.descend? s' names = some dir := by
    rw [made.descend?_of_apart (not_prefix_of_concat _ _), reached]
  rw [DirectoryView.descend?_concat, before, Option.bind_some, made.subdirectory? reached, if_pos ⟨rfl, rfl⟩]

end Makes

end GuestStorage.Tree
