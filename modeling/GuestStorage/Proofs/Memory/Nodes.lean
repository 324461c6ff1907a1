import GuestStorage.Proofs.Memory.Sound
import Mathlib.Data.List.Induction

namespace GuestStorage.Memory

inductive Content where
  | file (bytes : Bytes)
  | directory
  deriving DecidableEq

/-- What a node shows apart from its name and what it holds. -/
structure Entry where
  content : Content
  writable : Bool
  deriving DecidableEq

def Entry.opened (entry : Entry) : Entry := { entry with writable := true }

inductive Node where
  | file (file : FileId)
  | directory (dir : DirectoryId)
  deriving DecidableEq

namespace Node

def index : Node → Nat
  | file id => id.index
  | directory id => id.index

def held (s : Store) : Node → Bool
  | file id => (s.fileNode? id).isSome
  | directory id => (s.directoryNode? id).isSome

def name (s : Store) : Node → String
  | file id => s.fileName id
  | directory id => s.directoryName id

def parent? (s : Store) : Node → Option Node
  | file id => (s.fileParent? id).map directory
  | directory id => (s.directoryParent? id).map directory

def entry (s : Store) : Node → Entry
  | file id => ⟨.file (s.fileBytes id), s.fileWritable id⟩
  | directory id => ⟨.directory, s.directoryWritable id⟩

def children (s : Store) : Node → List Node
  | file _ => []
  | directory id => (s.files id).map file ++ (s.subdirectories id).map directory

def child? (s : Store) : Node → String → Option Node
  | file _, _ => none
  | directory id, name => ((s.subdirectory? id name).map directory).or ((s.file? id name).map file)

def descend? (s : Store) (x : Node) (path : List String) : Option Node :=
  path.foldlM (fun y name => y.child? s name) x

def lookup (s : Store) (x : Node) (path : List String) : Option Entry :=
  (x.descend? s path).map (entry s)

/-- What is shown at the end of a chain of names, without access flags. -/
def content? (s : Store) (x : Node) (path : List String) : Option Content :=
  (x.lookup s path).map (·.content)

/-- One node lies below another, or is the same. -/
def Within (s : Store) (x y : Node) : Prop := ∃ path, x.descend? s path = some y

variable {s : Store} {x y : Node}

@[simp] theorem descend?_nil : x.descend? s [] = some x := rfl

theorem descend?_cons (name : String) (rest : List String) :
    x.descend? s (name :: rest) = (x.child? s name).bind (·.descend? s rest) := by
  rw [descend?, List.foldlM_cons]
  rfl

theorem descend?_append (path rest : List String) :
    x.descend? s (path ++ rest) = (x.descend? s path).bind (·.descend? s rest) := by
  rw [descend?, List.foldlM_append]
  rfl

theorem descend?_append_of_reached {path : List String} (reached : x.descend? s path = some y) (rest : List String) :
    x.descend? s (path ++ rest) = y.descend? s rest := by
  rw [descend?_append, reached, Option.bind_some]

theorem descend?_concat (path : List String) (name : String) :
    x.descend? s (path ++ [name]) = (x.descend? s path).bind (·.child? s name) := by
  rw [descend?_append]
  cases x.descend? s path with
  | none => rfl
  | some y => cases next : y.child? s name <;> simp [descend?_cons, next]

theorem descend?_concat_of_reached {path : List String} (reached : x.descend? s path = some y) (name : String) :
    x.descend? s (path ++ [name]) = y.child? s name := by
  rw [descend?_concat, reached, Option.bind_some]

theorem lookup_append {path : List String} (reached : x.descend? s path = some y) (rest : List String) :
    x.lookup s (path ++ rest) = y.lookup s rest := by
  rw [lookup, descend?_append_of_reached reached, lookup]

theorem content?_append {path : List String} (reached : x.descend? s path = some y)
    (rest : List String) : x.content? s (path ++ rest) = y.content? s rest := by
  rw [content?, lookup_append reached, content?]

theorem lookup_cons (name : String) (rest : List String) :
    x.lookup s (name :: rest) = (x.child? s name).bind (·.lookup s rest) := by
  rw [lookup, descend?_cons]
  cases x.child? s name <;> rfl

theorem content?_cons (name : String) (rest : List String) :
    x.content? s (name :: rest) = (x.child? s name).bind (·.content? s rest) := by
  rw [content?, lookup_cons]
  cases x.child? s name <;> rfl

theorem Within.refl (x : Node) : Within s x x := ⟨[], rfl⟩

theorem Within.trans {z : Node} (first : Within s x y) (second : Within s y z) : Within s x z := by
  obtain ⟨path, reached⟩ := first
  obtain ⟨rest, further⟩ := second
  exact ⟨path ++ rest, (descend?_append_of_reached reached rest).trans further⟩

theorem Within.child {z : Node} {name : String} (first : Within s x y)
    (found : y.child? s name = some z) : Within s x z :=
  first.trans ⟨[name], by simp [descend?_cons, found]⟩

theorem child?_directory_eq_some {dir sub : DirectoryId} {name : String} :
    (directory dir).child? s name = some (directory sub) ↔ s.subdirectory? dir name = some sub := by
  rw [child?]
  cases s.subdirectory? dir name <;> cases s.file? dir name <;> simp

theorem name_mem_childNames {dir : DirectoryId} {name : String} :
    ((directory dir).child? s name).isSome ↔ name ∈ s.childNames dir := by
  rw [← Store.hasChild_iff, child?, Store.hasChild]
  cases s.subdirectory? dir name <;> cases s.file? dir name <;> simp

theorem child?_eq_none_iff {dir : DirectoryId} {name : String} :
    (directory dir).child? s name = none ↔ name ∉ s.childNames dir := by
  rw [← name_mem_childNames, Bool.not_eq_true, Option.isSome_eq_false_iff, Option.isNone_iff_eq_none]

end Node

namespace Store

variable {s : Store} {x y z : Node} {name : String} {path rest : List String}

theorem Sound.mem_children (sound : s.Sound) : y ∈ x.children s ↔ y.parent? s = some x := by
  cases x <;> cases y <;>
    simp [Node.children, Node.parent?, sound.file_listed, sound.directory_listed]

theorem Sound.child?_file_eq_some (sound : s.Sound) {dir : DirectoryId} {file : FileId} :
    (Node.directory dir).child? s name = some (.file file) ↔ s.file? dir name = some file := by
  have apart : s.file? dir name = some file → s.subdirectory? dir name = none := by
    intro found
    obtain ⟨listed, named⟩ := file?_some found
    rw [Option.eq_none_iff_forall_not_mem]
    intro sub also
    obtain ⟨there, same⟩ := subdirectory?_some also
    exact sound.names_apart listed there (named.trans same.symm)
  rw [Node.child?]
  cases found : s.subdirectory? dir name with
  | none => simp
  | some sub =>
    simp only [Option.map_some, Option.some_or, Option.some.injEq, reduceCtorEq, false_iff]
    intro also
    simp [apart also] at found

theorem Sound.child?_eq_some (sound : s.Sound) :
    x.child? s name = some y ↔ y.parent? s = some x ∧ y.name s = name := by
  cases x with
  | file id => cases y <;> simp [Node.child?, Node.parent?]
  | directory dir =>
    cases y with
    | directory sub =>
      rw [Node.child?_directory_eq_some, sound.subdirectory?_eq_some, sound.directory_listed]
      simp [Node.parent?, Node.name]
    | file id =>
      rw [sound.child?_file_eq_some, sound.file?_eq_some, sound.file_listed]
      simp [Node.parent?, Node.name]

theorem childNames_eq_map_children (s : Store) (dir : DirectoryId) :
    s.childNames dir = ((Node.directory dir).children s).map (Node.name s) := by
  simp [childNames, Node.children, Node.name, Function.comp_def]

theorem sound_of_nodes (listed : ∀ x y : Node, y ∈ x.children s ↔ y.parent? s = some x)
    (apart : ∀ x : Node, ((x.children s).map (Node.name s)).Nodup)
    (ranked : ∃ rank : Node → Nat, ∀ x y : Node, y.parent? s = some x → rank x < rank y) : s.Sound := by
  refine ⟨?_, ?_, ?_, ?_⟩
  · intro file dir
    simpa [Node.children, Node.parent?] using listed (.directory dir) (.file file)
  · intro sub dir
    simpa [Node.children, Node.parent?] using listed (.directory dir) (.directory sub)
  · intro dir
    rw [childNames_eq_map_children]
    exact apart (.directory dir)
  · obtain ⟨rank, grows⟩ := ranked
    refine ⟨fun dir => rank (.directory dir), fun sub dir owned => grows _ _ ?_⟩
    rw [Node.parent?, owned]
    rfl

theorem Sound.children_names_nodup (sound : s.Sound) (x : Node) :
    ((x.children s).map (Node.name s)).Nodup := by
  cases x with
  | file file => exact List.nodup_nil
  | directory dir =>
    rw [← childNames_eq_map_children]
    exact sound.names_nodup dir

theorem Sound.node_ranked (sound : s.Sound) :
    ∃ rank : Node → Nat, ∀ x y, y.parent? s = some x → rank x < rank y := by
  obtain ⟨rank, grows⟩ := sound.ranked
  let rankOf : Node → Nat
    | .file id => ((s.fileParent? id).map fun dir => rank dir + 1).getD 0
    | .directory dir => rank dir
  refine ⟨rankOf, ?_⟩
  intro x y owned
  cases y with
  | file id =>
    obtain ⟨dir, parent, rfl⟩ := Option.map_eq_some_iff.mp owned
    simp [rankOf, parent]
  | directory sub =>
    obtain ⟨dir, parent, rfl⟩ := Option.map_eq_some_iff.mp owned
    exact grows sub dir parent

theorem Sound.parent_held (sound : s.Sound) (owned : y.parent? s = some x) :
    x.held s = true ∧ y.held s = true := by
  cases y with
  | file id =>
    obtain ⟨dir, parent, rfl⟩ := Option.map_eq_some_iff.mp owned
    have listed := (sound.file_listed id dir).mpr parent
    exact ⟨held_of_file listed, sound.listed_file_held listed⟩
  | directory sub =>
    obtain ⟨dir, parent, rfl⟩ := Option.map_eq_some_iff.mp owned
    have listed := (sound.directory_listed sub dir).mpr parent
    exact ⟨held_of_subdirectory listed, sound.listed_directory_held listed⟩

theorem Sound.descend?_concat_eq_some (sound : s.Sound) :
    x.descend? s (path ++ [name]) = some z ↔
      ∃ y, x.descend? s path = some y ∧ z.parent? s = some y ∧ z.name s = name := by
  rw [Node.descend?_concat, Option.bind_eq_some_iff]
  simp only [sound.child?_eq_some]

/-- What a chain of names leads to stands in the directory that the names before the last lead to. -/
theorem Sound.holder_of_descend?_concat (sound : s.Sound) (reached : x.descend? s (path ++ [name]) = some z) :
    ∃ dir, x.descend? s path = some (.directory dir) ∧ z.parent? s = some (.directory dir) ∧ z.name s = name := by
  obtain ⟨holder, above, owned, named⟩ := sound.descend?_concat_eq_some.mp reached
  cases holder with
  | file file => cases z <;> simp [Node.parent?] at owned
  | directory dir => exact ⟨dir, above, owned, named⟩

theorem Sound.rank_descend? (sound : s.Sound) {rank : Node → Nat}
    (grows : ∀ x y, y.parent? s = some x → rank x < rank y) (reached : x.descend? s path = some y) :
    rank x + path.length ≤ rank y := by
  induction path using List.reverseRecOn generalizing y with
  | nil =>
    obtain rfl := Option.some.inj reached
    simp
  | append_singleton path name ih =>
    obtain ⟨holder, before, owned, -⟩ := sound.descend?_concat_eq_some.mp reached
    have step := grows holder y owned
    have rest := ih before
    simp only [List.length_append, List.length_singleton]
    omega

theorem Sound.no_cycle (sound : s.Sound) (back : x.descend? s path = some x) : path = [] := by
  obtain ⟨rank, grows⟩ := sound.node_ranked
  have bound := sound.rank_descend? grows back
  exact List.length_eq_zero_iff.mp (by omega)

theorem Sound.path_unique (sound : s.Sound) (one : x.descend? s path = some y)
    (other : x.descend? s rest = some y) : path = rest := by
  induction path using List.reverseRecOn generalizing rest y with
  | nil =>
    obtain rfl := Option.some.inj one
    exact (sound.no_cycle other).symm
  | append_singleton path name ih =>
    obtain ⟨holder, before, owned, rfl⟩ := sound.descend?_concat_eq_some.mp one
    rcases List.eq_nil_or_concat' rest with rfl | ⟨front, last, rfl⟩
    · obtain rfl := Option.some.inj other
      exact sound.no_cycle one
    · obtain ⟨again, before', owned', rfl⟩ := sound.descend?_concat_eq_some.mp other
      obtain rfl := Option.some.inj (owned.symm.trans owned')
      rw [ih before before']

theorem Sound.prefix_of_within {top : Node} (sound : s.Sound) (reached : top.descend? s path = some x)
    (within : x.Within s y) (there : top.descend? s rest = some y) : path <+: rest := by
  obtain ⟨more, further⟩ := within
  have long := (Node.descend?_append_of_reached reached more).trans further
  exact sound.path_unique long there ▸ List.prefix_append path more

theorem Sound.held_of_descend? (sound : s.Sound) (reached : x.descend? s path = some y)
    (held : y.held s = true) : x.held s = true := by
  cases path with
  | nil =>
    obtain rfl := Option.some.inj reached
    exact held
  | cons name rest =>
    rw [Node.descend?_cons, Option.bind_eq_some_iff] at reached
    obtain ⟨next, found, -⟩ := reached
    exact (sound.parent_held (sound.child?_eq_some.mp found).1).1

theorem Sound.descend?_held (sound : s.Sound) (held : x.held s = true)
    (reached : x.descend? s path = some y) : y.held s = true := by
  rcases List.eq_nil_or_concat' path with rfl | ⟨front, last, rfl⟩
  · obtain rfl := Option.some.inj reached
    exact held
  · obtain ⟨holder, -, owned, -⟩ := sound.descend?_concat_eq_some.mp reached
    exact (sound.parent_held owned).2

end Store

theorem Node.descend?_congr {s s' : Store} {x : Node} {path : List String}
    (agree : ∀ front name y, front ++ [name] <+: path → x.descend? s front = some y →
      y.child? s' name = y.child? s name) : x.descend? s' path = x.descend? s path := by
  induction path using List.reverseRecOn with
  | nil => rfl
  | append_singleton path name ih =>
    have before := ih fun front last y shorter =>
      agree front last y (shorter.trans (List.prefix_append path [name]))
    rw [descend?_concat, descend?_concat, before]
    cases reached : x.descend? s path with
    | none => rfl
    | some y => exact agree path name y (List.prefix_refl _) reached

end GuestStorage.Memory
