import GuestStorage.Memory.Store
import GuestStorage.Proofs.Memory.Nodes
import GuestStorage.Proofs.Path
import GuestStorage.Tree.Walk
import Mathlib.Data.Finset.Card

namespace GuestStorage.Tree

variable {σ F D : Type} [Backing σ F D]

/-- A directory alone shows the same: its name, its access, what it lists, and each file that it lists. -/
structure SameView (s s' : σ) (dir : D) : Prop where
  name : Backing.directoryName s' dir = Backing.directoryName s dir
  writable : Backing.directoryWritable s' dir = Backing.directoryWritable s dir
  files : Backing.files s' dir = Backing.files s dir
  subdirectories : Backing.subdirectories s' dir = Backing.subdirectories s dir
  file : ∀ file ∈ Backing.files s dir, ∀ readOnly,
    (⟨file, readOnly⟩ : FileView F).snapshot s' = (⟨file, readOnly⟩ : FileView F).snapshot s

theorem DirectoryView.snapshotWithin_congr {s s' : σ} {inside : D → Prop}
    (closed : ∀ dir, inside dir → ∀ sub ∈ Backing.subdirectories s dir, inside sub)
    (same : ∀ dir, inside dir → SameView s s' dir) {view : DirectoryView D} (here : inside view.node)
    (depth : Nat) : view.snapshotWithin s' depth = view.snapshotWithin s depth := by
  induction depth generalizing view with
  | zero =>
    have own := same view.node here
    simp only [snapshotWithin, DirectoryView.name, isWritable, own.name, own.writable]
  | succ depth ih =>
    have own := same view.node here
    simp only [snapshotWithin, DirectoryView.name, isWritable, DirectoryView.files,
      DirectoryView.subdirectories, own.name, own.writable, own.files, own.subdirectories, List.map_map]
    congr 1
    · exact List.map_congr_left fun file listed => own.file file listed view.readOnly
    · exact List.map_congr_left fun sub listed => ih (closed view.node here sub listed)

end GuestStorage.Tree

namespace GuestStorage.Memory.Store

open Node

variable {s : Store} {x y : Node} {path : List String}

theorem Sound.directory_of_prefix (sound : s.Sound) {dir : DirectoryId} {front : List String}
    (held : (Node.directory dir).held s = true) (reached : x.descend? s path = some (.directory dir))
    (within : front <+: path) :
    ∃ inner, x.descend? s front = some (.directory inner) ∧ (Node.directory inner).held s = true := by
  obtain ⟨rest, rfl⟩ := within
  rw [descend?_append, Option.bind_eq_some_iff] at reached
  obtain ⟨y, before, further⟩ := reached
  have inside := sound.held_of_descend? further held
  cases y with
  | directory inner => exact ⟨inner, before, inside⟩
  | file id =>
    cases rest with
    | nil => cases further
    | cons name rest => cases further

theorem Sound.length_lt_size (sound : s.Sound) {dir : DirectoryId}
    (held : (Node.directory dir).held s = true) (reached : x.descend? s path = some (.directory dir)) :
    path.length < s.directoryNodes.size := by
  let place (i : Nat) : Nat := (x.descend? s (path.take i)).elim 0 Node.index
  have each : ∀ i, ∃ inner, x.descend? s (path.take i) = some (.directory inner) ∧
      place i = inner.index ∧ inner.index < s.directoryNodes.size := by
    intro i
    obtain ⟨inner, there, inside⟩ := sound.directory_of_prefix held reached (List.take_prefix i path)
    refine ⟨inner, there, by simp [place, there, Node.index], ?_⟩
    simpa [Node.held, directoryNode?] using inside
  have bound := Finset.card_le_card_of_injOn (s := Finset.range (path.length + 1))
    (t := Finset.range s.directoryNodes.size) place ?_ ?_
  · rw [Finset.card_range, Finset.card_range] at bound
    exact bound
  · intro i _
    obtain ⟨inner, -, same, small⟩ := each i
    simpa [same] using small
  · intro i here j there same
    obtain ⟨one, first, index, -⟩ := each i
    obtain ⟨other, second, index', -⟩ := each j
    have equal : one = other := by
      cases one
      cases other
      simp_all
    subst equal
    have lengths := congrArg List.length (sound.path_unique first second)
    simp only [Finset.coe_range, Set.mem_Iio] at here there
    simp only [List.length_take] at lengths
    omega

theorem Sound.length_lt_reach (sound : s.Sound) {dir : DirectoryId}
    (reached : (Node.directory dir).descend? s path = some y) : path.length < s.reach := by
  rcases List.eq_nil_or_concat' path with rfl | ⟨front, name, rfl⟩
  · exact Nat.succ_pos _
  · obtain ⟨holder, before, owned, -⟩ := sound.descend?_concat_eq_some.mp reached
    have inside := (sound.parent_held owned).1
    cases holder with
    | file file => cases y <;> simp [Node.parent?] at owned
    | directory inner =>
      have bound := sound.length_lt_size inside before
      rw [List.length_append, List.length_singleton, reach]
      omega

theorem Sound.snapshotWithin_eq (sound : s.Sound) {view : Tree.DirectoryView DirectoryId} {depth more : Nat}
    (enough : ∀ path sub, (Node.directory view.node).descend? s path = some (.directory sub) →
      path.length < depth ∧ path.length < more) :
    view.snapshotWithin s depth = view.snapshotWithin s more := by
  induction depth generalizing view more with
  | zero => exact absurd (enough [] view.node rfl).1 (Nat.lt_irrefl _)
  | succ depth ih =>
    cases more with
    | zero => exact absurd (enough [] view.node rfl).2 (Nat.lt_irrefl _)
    | succ more =>
      simp only [Tree.DirectoryView.snapshotWithin]
      congr 1
      refine List.map_congr_left fun sub listed => ih fun path inner reached => ?_
      obtain ⟨id, among, rfl⟩ := List.mem_map.mp listed
      have child : (Node.directory view.node).child? s (s.directoryName id) = some (.directory id) :=
        child?_directory_eq_some.mpr (sound.subdirectory?_eq_some.mpr ⟨among, rfl⟩)
      have longer : (Node.directory view.node).descend? s (s.directoryName id :: path) =
          some (.directory inner) := by
        rw [descend?_cons, child]
        exact reached
      have bound := enough _ _ longer
      rw [List.length_cons] at bound
      omega

theorem Sound.snapshotWithin_reach (sound : s.Sound) (view : Tree.DirectoryView DirectoryId) {depth : Nat}
    (deep : s.reach ≤ depth) : view.snapshotWithin s depth = view.snapshot s := by
  refine sound.snapshotWithin_eq fun path sub reached => ?_
  have short := sound.length_lt_reach reached
  exact ⟨by omega, short⟩

theorem Sound.exists_top (sound : s.Sound) (x : Node) :
    ∃ (top : Node) (path : List String), top.parent? s = none ∧ top.descend? s path = some x := by
  obtain ⟨rank, grows⟩ := sound.node_ranked
  induction size : rank x using Nat.strong_induction_on generalizing x with
  | _ n ih =>
    cases owned : x.parent? s with
    | none => exact ⟨x, [], owned, rfl⟩
    | some y =>
      subst size
      obtain ⟨top, path, root, reached⟩ := ih (rank y) (grows y x owned) y rfl
      refine ⟨top, path ++ [x.name s], root, ?_⟩
      exact sound.descend?_concat_eq_some.mpr ⟨y, reached, owned, rfl⟩

theorem directoryPathWithin_descend? (sound : s.Sound) {top dir : DirectoryId} {steps : Nat}
    (root : (Node.directory top).parent? s = none)
    (reached : (Node.directory top).descend? s path = some (.directory dir))
    (enough : path.length ≤ steps) :
    s.directoryPathWithin steps dir = path.foldl Path.child (s.directoryName top) := by
  induction path using List.reverseRecOn generalizing dir steps with
  | nil =>
    obtain rfl := Node.directory.inj (Option.some.inj reached)
    cases steps with
    | zero => rfl
    | succ steps =>
      have none : s.directoryParent? top = none := by simpa [Node.parent?] using root
      rw [directoryPathWithin, none]
      rfl
  | append_singleton path name ih =>
    obtain ⟨holder, before, owned, rfl⟩ := sound.descend?_concat_eq_some.mp reached
    obtain ⟨inner, parent, rfl⟩ := Option.map_eq_some_iff.mp owned
    rw [List.length_append, List.length_singleton] at enough
    obtain ⟨less, rfl⟩ : ∃ less, steps = less + 1 := ⟨steps - 1, by omega⟩
    rw [directoryPathWithin, parent]
    dsimp only
    rw [ih before (by omega), List.foldl_append]
    rfl

theorem Sound.directoryPath_descend? (sound : s.Sound) {root dir : DirectoryId}
    (held : (Node.directory dir).held s = true)
    (reached : (Node.directory root).descend? s path = some (.directory dir)) :
    s.directoryPath dir = path.foldl Path.child (s.directoryPath root) := by
  obtain ⟨top, above, rootless, there⟩ := sound.exists_top (.directory root)
  have rootHeld := sound.held_of_descend? reached held
  obtain ⟨first, begin, -⟩ := sound.directory_of_prefix rootHeld there (List.nil_prefix)
  obtain rfl := Option.some.inj begin
  have further := (descend?_append_of_reached there path).trans reached
  have short := sound.length_lt_size held further
  rw [List.length_append] at short
  rw [directoryPath, directoryPath, reach,
    directoryPathWithin_descend? sound rootless further (by rw [List.length_append]; omega),
    directoryPathWithin_descend? sound rootless there (by omega), List.foldl_append]

theorem Sound.directoryPath_inj (sound : s.Sound) {root dir other : DirectoryId} {names others : List String}
    (held : (Node.directory dir).held s = true) (alsoHeld : (Node.directory other).held s = true)
    (reached : (Node.directory root).descend? s names = some (.directory dir))
    (alsoReached : (Node.directory root).descend? s others = some (.directory other))
    (clean : ∀ name ∈ names, Path.IsName name) (alsoClean : ∀ name ∈ others, Path.IsName name) :
    s.directoryPath dir = s.directoryPath other ↔ names = others := by
  rw [sound.directoryPath_descend? held reached, sound.directoryPath_descend? alsoHeld alsoReached]
  exact ⟨Path.foldl_child_injective clean alsoClean, fun same => same ▸ rfl⟩

end GuestStorage.Memory.Store
