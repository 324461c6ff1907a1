import GuestStorage.Proofs.Memory.Build
import Mathlib.Logic.Relation

namespace GuestStorage.Memory

open Node

def Node.Under (s : Store) (x y : Node) : Prop := x.parent? s = some y

/-- A change of a node's children, name or bytes. -/
inductive Call where
  | createFile (dir : DirectoryId) (name : String)
  | createSubdirectory (dir : DirectoryId) (name : String)
  | deleteFile (dir : DirectoryId) (name : String)
  | deleteSubdirectory (dir : DirectoryId) (name : String)
  | renameFile (file : FileId) (name : String)
  | renameDirectory (dir : DirectoryId) (name : String)
  | write (file : FileId) (offset : Nat) (data : Bytes)
  | resize (file : FileId) (size : Nat)

/-- The node made, whether the change was made, or how many bytes were written. -/
inductive Outcome where
  | made (new : Option Node)
  | done (changed : Bool)
  | wrote (count : Nat)
  deriving DecidableEq

def Outcome.refused : Outcome → Bool
  | made new => new.isNone
  | done changed => !changed
  | wrote _ => false

namespace Store

/-- Stores of trees that were put together from new nodes. Each node is put into a directory once at
    most, and no directory into itself or below itself. -/
inductive Assembled : Store → Prop
  | empty : Assembled .empty
  | newFile {s : Store} (before : Assembled s) (name : String) (bytes : Bytes) (writable : Bool) :
      Assembled (s.newFile name bytes writable).2
  | newDirectory {s : Store} (before : Assembled s) (name : String) (writable : Bool) :
      Assembled (s.newDirectory name writable).2
  | attachFile {s : Store} (before : Assembled s) {dir : DirectoryId} {file : FileId}
      (present : (Node.directory dir).held s = true) (held : (Node.file file).held s = true)
      (loose : s.fileParent? file = none) : Assembled (s.attachFile dir file).2
  | attachDirectory {s : Store} (before : Assembled s) {dir sub : DirectoryId}
      (present : (Node.directory dir).held s = true) (held : (Node.directory sub).held s = true)
      (loose : s.directoryParent? sub = none)
      (outside : ¬ Relation.ReflTransGen (Under s) (.directory dir) (.directory sub)) :
      Assembled (s.attachDirectory dir sub).2

def call (s : Store) : Call → Outcome × Store
  | .createFile dir name =>
    let (new, after) := s.createFile dir name
    (.made (new.map .file), after)
  | .createSubdirectory dir name =>
    let (new, after) := s.createSubdirectory dir name
    (.made (new.map .directory), after)
  | .deleteFile dir name =>
    let (changed, after) := s.deleteFile dir name
    (.done changed, after)
  | .deleteSubdirectory dir name =>
    let (changed, after) := s.deleteSubdirectory dir name
    (.done changed, after)
  | .renameFile id name =>
    let (changed, after) := s.renameFile id name
    (.done changed, after)
  | .renameDirectory dir name =>
    let (changed, after) := s.renameDirectory dir name
    (.done changed, after)
  | .write id offset data =>
    let (count, after) := s.write id offset data
    (.wrote count, after)
  | .resize id size =>
    let (changed, after) := s.resize id size
    (.done changed, after)

def doomed? (s : Store) : Call → Option Node
  | .deleteFile dir name => (s.file? dir name).map .file
  | .deleteSubdirectory dir name => (s.subdirectory? dir name).map .directory
  | _ => none

def run (s : Store) : List Call → Store
  | [] => s
  | call :: rest => (s.call call).2.run rest

def deletedBy (s : Store) : List Call → List Node
  | [] => []
  | call :: rest =>
    (if (s.call call).1.refused then [] else (s.doomed? call).toList) ++ (s.call call).2.deletedBy rest

/-- Names differ in a directory, over files and subdirectories alike. Nodes are listed where they belong,
    at most once, and no node lies below itself. -/
structure Orderly (s : Store) : Prop where
  names_apart : ∀ dir, (s.childNames dir).Nodup
  listed_iff : ∀ x dir, x ∈ Node.children s (.directory dir) ↔ x.parent? s = some (.directory dir)
  listed_once : ∀ (x : Node) (dirs : List DirectoryId), dirs.Nodup →
    (dirs.flatMap fun dir => Node.children s (.directory dir)).count x ≤ 1
  acyclic : ∀ x, ¬ Relation.TransGen (Under s) x x

variable {s s' : Store} {x y z : Node}

section Ancestry

theorem Sound.under_of_within (sound : s.Sound) (within : Within s x y) :
    Relation.ReflTransGen (Under s) y x := by
  obtain ⟨path, reached⟩ := within
  induction path using List.reverseRecOn generalizing y with
  | nil =>
    obtain rfl := Option.some.inj reached
    exact .refl
  | append_singleton path name ih =>
    obtain ⟨holder, before, owned, -⟩ := sound.descend?_concat_eq_some.mp reached
    exact .head owned (ih before)

theorem Sound.acyclic (sound : s.Sound) (x : Node) : ¬ Relation.TransGen (Under s) x x := by
  obtain ⟨rank, grows⟩ := sound.node_ranked
  have falls : ∀ {y z : Node}, Relation.TransGen (Under s) y z → rank z < rank y := by
    intro y z above
    induction above with
    | single owned => exact grows _ _ owned
    | tail _ owned ih => exact Nat.lt_trans (grows _ _ owned) ih
  exact fun back => Nat.lt_irrefl _ (falls back)

theorem Sound.children_nodup (sound : s.Sound) (x : Node) : (x.children s).Nodup :=
  (sound.children_names_nodup x).of_map _

theorem Sound.listed_once (sound : s.Sound) (x : Node) {dirs : List DirectoryId} (apart : dirs.Nodup) :
    (dirs.flatMap fun dir => Node.children s (.directory dir)).count x ≤ 1 := by
  refine List.nodup_iff_count_le_one.mp (List.nodup_flatMap.mpr ⟨fun dir _ => ?_, ?_⟩) x
  · exact sound.children_nodup (.directory dir)
  · refine apart.imp fun {one other} different => ?_
    intro y here there
    have owned := sound.mem_children.mp here
    have owned' := sound.mem_children.mp there
    exact different (Node.directory.inj (Option.some.inj (owned.symm.trans owned')))

theorem Sound.orderly (sound : s.Sound) : s.Orderly :=
  ⟨sound.names_nodup, fun _ _ => sound.mem_children, fun x _ => sound.listed_once x, sound.acyclic⟩

end Ancestry

section Assembling

variable {dir sub : DirectoryId} {file : FileId}

theorem Sound.attachFile (sound : s.Sound) (present : (Node.directory dir).held s = true)
    (held : (Node.file file).held s = true) (loose : s.fileParent? file = none) :
    (s.attachFile dir file).2.Sound := by
  rw [Store.attachFile]
  split
  · exact sound
  · rename_i untaken
    rw [hasChild_iff] at untaken
    exact sound.linkFile held present (by simp [Node.parent?, loose]) untaken

theorem Sound.attachDirectory (sound : s.Sound) (present : (Node.directory dir).held s = true)
    (held : (Node.directory sub).held s = true) (loose : s.directoryParent? sub = none)
    (outside : ¬ Relation.ReflTransGen (Under s) (.directory dir) (.directory sub)) :
    (s.attachDirectory dir sub).2.Sound := by
  rw [Store.attachDirectory]
  split
  · exact sound
  · rename_i untaken
    rw [hasChild_iff] at untaken
    refine sound.linkDirectory held present (by simp [Node.parent?, loose]) ?_ untaken
    exact fun within => outside (sound.under_of_within within)

theorem Assembled.sound (assembled : Assembled s) : s.Sound := by
  induction assembled with
  | empty => exact empty_sound
  | newFile _ name bytes writable before => exact before.newFile name bytes writable
  | newDirectory _ name writable before => exact before.newDirectory name writable
  | attachFile _ present held loose before => exact before.attachFile present held loose
  | attachDirectory _ present held loose outside before =>
    exact before.attachDirectory present held loose outside

end Assembling

/-- What every call keeps: a sound store is sound after it, and what belongs to no directory before it
    belongs to none after it. -/
structure Upheld (s s' : Store) : Prop where
  sound : s'.Sound
  held : ∀ x : Node, x.held s = true → x.held s' = true
  loose : ∀ x : Node, x.held s = true → x.parent? s = none → x.parent? s' = none

theorem Upheld.refl (sound : s.Sound) : Upheld s s :=
  ⟨sound, fun _ held => held, fun _ _ loose => loose⟩

theorem Upheld.trans {s'' : Store} (first : Upheld s s') (second : Upheld s' s'') : Upheld s s'' :=
  ⟨second.sound, fun x held => second.held x (first.held x held),
    fun x held loose => second.loose x (first.held x held) (first.loose x held loose)⟩

theorem upheld_of_adds {dir new : Node} {called : String} {shown : Entry}
    (effect : Adds s s' dir new called shown) (sound' : s'.Sound) : Upheld s s' := by
  refine ⟨sound', fun x held => (effect.held x).mpr (.inr held), ?_⟩
  intro x held loose
  have old : x ≠ new := by
    rintro rfl
    simp [effect.fresh] at held
  rw [effect.parent?, if_neg old, loose]

theorem upheld_of_cuts {lost : List Node} (effect : Cuts s s' lost) (sound' : s'.Sound) : Upheld s s' := by
  refine ⟨sound', fun x held => (effect.held x).trans held, ?_⟩
  intro x _ loose
  rw [effect.parent?, loose, ite_self]

theorem upheld_of_kept (held : ∀ x : Node, x.held s' = x.held s)
    (parent? : ∀ x : Node, x.parent? s' = x.parent? s) (sound' : s'.Sound) : Upheld s s' :=
  ⟨sound', fun x => (held x).trans, fun x _ => (parent? x).trans⟩

section Calls

variable {dir : DirectoryId} {file : FileId} {name : String}

theorem RenamesFile.upheld (effect : RenamesFile s s' file name) (sound' : s'.Sound) : Upheld s s' := by
  refine upheld_of_kept ?_ ?_ sound' <;> intro x <;> cases x
  · simp [Node.held, effect.fileNode]
  · simp [Node.held, effect.directoryNode]
  · simp [Node.parent?, effect.fileParent?]
  · simp [Node.parent?, directoryParent?_of_node (effect.directoryNode _)]

theorem RenamesDirectory.upheld (effect : RenamesDirectory s s' dir name) (sound' : s'.Sound) :
    Upheld s s' := by
  refine upheld_of_kept ?_ ?_ sound' <;> intro x <;> cases x
  · simp [Node.held, effect.fileNode]
  · simp [Node.held, effect.directoryNode]
  · simp [Node.parent?, fileParent?_of_node (effect.fileNode _)]
  · simp [Node.parent?, effect.directoryParent?]

theorem FillsFile.upheld {change : Bytes → Bytes} (effect : FillsFile s s' file change) (sound' : s'.Sound) :
    Upheld s s' := by
  refine upheld_of_kept ?_ ?_ sound' <;> intro x <;> cases x
  · simp [Node.held, effect.fileNode]
  · simp [Node.held, effect.directoryNode]
  · simp [Node.parent?, effect.fileParent?]
  · simp [Node.parent?, directoryParent?_of_node (effect.directoryNode _)]

/-- A call is refused and leaves the store as it is, or it is made: what it deletes belongs nowhere then. -/
theorem call_cases (sound : s.Sound) (call : Call) :
    ((s.call call).1.refused = true ∧ (s.call call).2 = s) ∨
      ((s.call call).1.refused = false ∧ Upheld s (s.call call).2 ∧
        ∀ x, s.doomed? call = some x → x.held s = true ∧ x.parent? (s.call call).2 = none) := by
  cases call with
  | createFile dir name =>
    by_cases accepts : s.acceptsChild dir name = true
    · obtain ⟨file, after, made, effect⟩ := createFile_adds accepts
      simp only [Store.call, made]
      refine .inr ⟨rfl, ?_, by simp [doomed?]⟩
      exact upheld_of_adds (adds_file effect) (effect.sound sound (free_of_accepts accepts))
    · simp [Store.call, createFile_refused (by simpa using accepts), Outcome.refused]
  | createSubdirectory dir name =>
    by_cases accepts : s.acceptsChild dir name = true
    · obtain ⟨sub, after, made, effect⟩ := createSubdirectory_adds accepts
      simp only [Store.call, made]
      refine .inr ⟨rfl, ?_, by simp [doomed?]⟩
      exact upheld_of_adds (adds_directory effect) (effect.sound sound (free_of_accepts accepts))
    · simp [Store.call, createSubdirectory_refused (by simpa using accepts), Outcome.refused]
  | deleteFile dir name =>
    rcases sound.deleteFile_drops dir name with refused | ⟨file, after, made, found, effect⟩
    · simp [Store.call, refused, Outcome.refused]
    · simp only [Store.call, made]
      refine .inr ⟨rfl, upheld_of_cuts (cuts_of_drops effect) (effect.sound sound), ?_⟩
      intro x doomed
      obtain rfl : Node.file file = x := by simpa [doomed?, found] using doomed
      exact ⟨sound.listed_file_held (file?_some found).1, by simp [Node.parent?, effect.fileParent?]⟩
  | deleteSubdirectory dir name =>
    rcases sound.deleteSubdirectory_drops dir name with refused | ⟨sub, after, made, found, -, effect⟩
    · simp [Store.call, refused, Outcome.refused]
    · simp only [Store.call, made]
      refine .inr ⟨rfl, upheld_of_cuts (cuts_of_drops effect) (effect.sound sound), ?_⟩
      intro x doomed
      obtain rfl : Node.directory sub = x := by simpa [doomed?, found] using doomed
      exact ⟨sound.listed_directory_held (subdirectory?_some found).1,
        by simp [Node.parent?, effect.directoryParent?]⟩
  | renameFile file name =>
    rcases s.renameFile_renames file name with refused | ⟨after, made, -, free, effect⟩
    · simp [Store.call, refused, Outcome.refused]
    · simp only [Store.call, made]
      exact .inr ⟨rfl, effect.upheld (effect.sound sound free), by simp [doomed?]⟩
  | renameDirectory dir name =>
    rcases s.renameDirectory_renames dir name with refused | ⟨after, made, -, free, effect⟩
    · simp [Store.call, refused, Outcome.refused]
    · simp only [Store.call, made]
      exact .inr ⟨rfl, effect.upheld (effect.sound sound free), by simp [doomed?]⟩
  | write file offset data =>
    rcases s.write_fills file offset data with refused | ⟨after, made, effect⟩
    · simp only [Store.call, refused]
      exact .inr ⟨rfl, .refl sound, by simp [doomed?]⟩
    · simp only [Store.call, made]
      exact .inr ⟨rfl, effect.upheld (effect.sound sound), by simp [doomed?]⟩
  | resize file size =>
    rcases s.resize_fills file size with refused | ⟨after, made, effect⟩
    · simp [Store.call, refused, Outcome.refused]
    · simp only [Store.call, made]
      exact .inr ⟨rfl, effect.upheld (effect.sound sound), by simp [doomed?]⟩

theorem call_upheld (sound : s.Sound) (call : Call) : Upheld s (s.call call).2 := by
  rcases call_cases sound call with ⟨-, same⟩ | ⟨-, upheld, -⟩
  · rw [same]
    exact .refl sound
  · exact upheld

theorem call_refused (sound : s.Sound) {call : Call} (refused : (s.call call).1.refused = true) :
    (s.call call).2 = s := by
  rcases call_cases sound call with ⟨-, same⟩ | ⟨made, -, -⟩
  · exact same
  · rw [made] at refused
    cases refused

end Calls

section Runs

theorem run_upheld (sound : s.Sound) (calls : List Call) : Upheld s (s.run calls) := by
  induction calls generalizing s with
  | nil => exact .refl sound
  | cons call rest ih =>
    have first := call_upheld sound call
    exact first.trans (ih first.sound)

theorem deletedBy_loose (sound : s.Sound) {calls : List Call} (deleted : x ∈ s.deletedBy calls) :
    x.parent? (s.run calls) = none := by
  induction calls generalizing s with
  | nil => cases deleted
  | cons call rest ih =>
    have first := call_upheld sound call
    rcases List.mem_append.mp deleted with now | later
    · split at now
      · cases now
      · rename_i made
        have doomed : s.doomed? call = some x := by simpa using now
        rcases call_cases sound call with ⟨refused, -⟩ | ⟨-, -, cut⟩
        · exact absurd refused made
        · obtain ⟨held, loose⟩ := cut x doomed
          exact (run_upheld first.sound rest).loose x (first.held x held) loose
    · exact ih first.sound later

/-- Listings and parent links are in step after any calls, what was deleted on the way belongs to no
    directory and is not listed, and a call that is refused leaves the store as it is. -/
theorem orderly_run (assembled : Assembled s) (calls : List Call) :
    (s.run calls).Orderly ∧
      (∀ x ∈ s.deletedBy calls, x.parent? (s.run calls) = none ∧
        ∀ dir, x ∉ Node.children (s.run calls) (.directory dir)) ∧
      ∀ call, ((s.run calls).call call).1.refused = true → ((s.run calls).call call).2 = s.run calls := by
  have sound := (run_upheld assembled.sound calls).sound
  refine ⟨sound.orderly, ?_, fun _ => call_refused sound⟩
  intro x deleted
  have loose := deletedBy_loose assembled.sound deleted
  refine ⟨loose, fun dir listed => ?_⟩
  rw [sound.mem_children, loose] at listed
  cases listed

def hut : Store :=
  let built := (((empty.newDirectory "" true).2.newDirectory "room" true).2.newFile "note" [1] true).2
  ((built.attachDirectory ⟨0⟩ ⟨1⟩).2.attachFile ⟨1⟩ ⟨0⟩).2

theorem hut_assembled : Assembled hut := by
  refine .attachFile (.attachDirectory (.newFile (.newDirectory (.newDirectory .empty _ _) _ _) _ _ _)
    (by decide) (by decide) (by decide) ?_) (by decide) (by decide) (by decide)
  intro above
  rcases above.cases_head with same | ⟨next, owned, -⟩
  · cases same
  · cases owned

/-- A file and its directory are deleted and changed further on, and another takes the directory's name. -/
def upheaval : List Call :=
  [.deleteFile ⟨1⟩ "note", .renameFile ⟨0⟩ "page", .deleteSubdirectory ⟨0⟩ "room", .createFile ⟨1⟩ "note",
    .createSubdirectory ⟨0⟩ "hall", .renameDirectory ⟨2⟩ "room", .renameDirectory ⟨1⟩ "hall"]

theorem hut_orderly :
    hut.deletedBy upheaval = [.file ⟨0⟩, .directory ⟨1⟩] ∧ (hut.run upheaval).Orderly ∧
      (∀ x ∈ hut.deletedBy upheaval, x.parent? (hut.run upheaval) = none ∧
        ∀ dir, x ∉ Node.children (hut.run upheaval) (.directory dir)) ∧
      ((hut.run upheaval).call (.createFile ⟨0⟩ "room")).2 = hut.run upheaval := by
  obtain ⟨orderly, deleted, refused⟩ := orderly_run hut_assembled upheaval
  exact ⟨by decide, orderly, deleted, refused (.createFile ⟨0⟩ "room") (by decide)⟩

end Runs

end Store

end GuestStorage.Memory
