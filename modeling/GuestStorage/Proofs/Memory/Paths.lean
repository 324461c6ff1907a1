import GuestStorage.Proofs.Memory.Creation
import GuestStorage.Proofs.Memory.Upkeep
import GuestStorage.Proofs.Text.Spelling

namespace GuestStorage

def Path.below (directory : String) (names : List String) : String :=
  if names = [] then directory else directory ++ separatorAfter directory ++ join names

theorem Path.foldl_child_eq_below (directory : String) {names : List String} (clean : ∀ name ∈ names, IsName name) :
    names.foldl child directory = below directory names := by
  by_cases empty : names = []
  · rw [below, if_pos empty, empty]
    rfl
  · rw [below, if_neg empty, foldl_child directory empty clean, child_eq_append]

namespace Memory

open GuestStorage.Tree

namespace Node

/-- A node stands at the end of a chain of names: from each directory on the way the next name is that of a child. -/
inductive Attached (s : Store) (root : DirectoryId) : List String → Node → Prop
  | root : Attached s root [] (.directory root)
  | child {names : List String} {dir : DirectoryId} {x : Node} (above : Attached s root names (.directory dir))
      (listed : x ∈ children s (.directory dir)) : Attached s root (names ++ [x.name s]) x

def path (s : Store) : Node → String
  | .file id => (FileView.direct id).path s
  | .directory id => (DirectoryView.direct id).path s

def holder? (s : Store) : Node → Option (DirectoryView DirectoryId)
  | .file id => (FileView.direct id).parent? s
  | .directory id => (DirectoryView.direct id).parent? s

/-- Whether a directory finds a node at a path. -/
def FoundAt (s : Store) (dir : DirectoryId) (text : String) : Node → Prop
  | .file id => (DirectoryView.direct dir).fileAt? s text = some (.direct id)
  | .directory id => (DirectoryView.direct dir).directoryAt? s text = some (.direct id)

def FoundFromTop (s : Store) (dir : DirectoryId) (text : String) : Node → Prop
  | .file id => (DirectoryView.direct dir).fileFromTop? s text = some (.direct id)
  | .directory id => (DirectoryView.direct dir).directoryFromTop? s text = some (.direct id)

/-- The path of a node is its chain of names, every spelling of these leads to it from all of its tree, and the chain
    without its last name leads to the directory it is in. -/
structure Located (s : Store) (root : DirectoryId) (names : List String) (x : Node) : Prop where
  path : x.path s = Path.below ((DirectoryView.direct root).name s) names
  found : ∀ text, Path.Spells names text → x.FoundAt s root text
  fromTop : ∀ text, Path.Spells names text → ∀ others dir, Attached s root others (.directory dir) →
    x.FoundFromTop s dir text
  inside : names ≠ [] → ∃ holder, x.holder? s = some holder ∧
    ∀ text, Path.Spells names.dropLast text → (DirectoryView.direct root).directoryAt? s text = some holder

end Node

namespace Store

open Node

/-- Stores of trees that nodes are made for, put into directories, changed and deleted, in any order. A node is put
    into a directory only while it is in none, and no directory into itself or below itself. -/
inductive Worked : Store → Prop
  | empty : Worked .empty
  | newFile {s : Store} (before : Worked s) (name : String) (bytes : Bytes) (writable : Bool) :
      Worked (s.newFile name bytes writable).2
  | newDirectory {s : Store} (before : Worked s) (name : String) (writable : Bool) :
      Worked (s.newDirectory name writable).2
  | attachFile {s : Store} (before : Worked s) {dir : DirectoryId} {file : FileId}
      (present : (Node.directory dir).held s = true) (held : (Node.file file).held s = true)
      (loose : s.fileParent? file = none) : Worked (s.attachFile dir file).2
  | attachDirectory {s : Store} (before : Worked s) {dir sub : DirectoryId}
      (present : (Node.directory dir).held s = true) (held : (Node.directory sub).held s = true)
      (loose : s.directoryParent? sub = none)
      (outside : ¬ Relation.ReflTransGen (Under s) (.directory dir) (.directory sub)) :
      Worked (s.attachDirectory dir sub).2
  | call {s : Store} (before : Worked s) (call : Call) : Worked (s.call call).2

def Legible (s : Store) (root : DirectoryId) : Prop :=
  ∀ names dir, Attached s root names (.directory dir) →
    ∀ x ∈ Node.children s (.directory dir), Path.IsName (x.name s)

variable {s : Store} {root dir sub : DirectoryId} {names others : List String} {x y : Node} {text : String}

theorem Worked.sound (worked : Worked s) : s.Sound := by
  induction worked with
  | empty => exact empty_sound
  | newFile _ name bytes writable before => exact before.newFile name bytes writable
  | newDirectory _ name writable before => exact before.newDirectory name writable
  | attachFile _ present held loose before => exact before.attachFile present held loose
  | attachDirectory _ present held loose outside before => exact before.attachDirectory present held loose outside
  | call _ call before => exact (call_upheld before call).sound

theorem Assembled.worked (assembled : Assembled s) : Worked s := by
  induction assembled with
  | empty => exact .empty
  | newFile _ name bytes writable before => exact .newFile before name bytes writable
  | newDirectory _ name writable before => exact .newDirectory before name writable
  | attachFile _ present held loose before => exact .attachFile before present held loose
  | attachDirectory _ present held loose outside before => exact .attachDirectory before present held loose outside

theorem Worked.run (worked : Worked s) (calls : List Call) : Worked (s.run calls) := by
  induction calls generalizing s with
  | nil => exact worked
  | cons call rest ih => exact ih (.call worked call)

section Attachment

theorem Sound.attached_iff (sound : s.Sound) :
    Attached s root names x ↔ (Node.directory root).descend? s names = some x := by
  constructor
  · intro attached
    induction attached with
    | root => rfl
    | child _ listed above =>
      exact sound.descend?_concat_eq_some.mpr ⟨_, above, sound.mem_children.mp listed, rfl⟩
  · intro reached
    induction names using List.reverseRecOn generalizing x with
    | nil =>
      obtain rfl := Option.some.inj reached
      exact .root
    | append_singleton front name ih =>
      obtain ⟨dir, before, owned, rfl⟩ := sound.holder_of_descend?_concat reached
      exact .child (ih before) (sound.mem_children.mpr owned)

theorem Legible.isName (legible : s.Legible root) (attached : Attached s root names x) :
    ∀ name ∈ names, Path.IsName name := by
  induction attached with
  | root => exact fun name listed => absurd listed List.not_mem_nil
  | child above listed others =>
    intro name among
    rcases List.mem_append.mp among with before | last
    · exact others name before
    · rw [List.mem_singleton.mp last]
      exact legible _ _ above _ listed

theorem Sound.attached_concat (sound : s.Sound) {name : String} (attached : Attached s root (names ++ [name]) x) :
    ∃ dir, Attached s root names (.directory dir) ∧ x.parent? s = some (.directory dir) ∧ x.name s = name := by
  obtain ⟨dir, before, owned, named⟩ := sound.holder_of_descend?_concat (sound.attached_iff.mp attached)
  exact ⟨dir, sound.attached_iff.mpr before, owned, named⟩

theorem Sound.legible (sound : s.Sound) (files : ∀ file ∈ s.fileNodes.toList, Path.IsName file.name)
    (directories : ∀ dir ∈ s.directoryNodes.toList, dir.parent ≠ none → Path.IsName dir.name) (root : DirectoryId) :
    s.Legible root := by
  intro names dir _ x listed
  have owned := sound.mem_children.mp listed
  cases x with
  | file file =>
    have held := (sound.parent_held owned).2
    obtain ⟨node, stored⟩ := Option.isSome_iff_exists.mp held
    have named : (Node.file file).name s = node.name := by simp [Node.name, fileName, stored]
    rw [named]
    exact files node (Array.mem_toList_iff.mpr (Array.mem_of_getElem? stored))
  | directory sub =>
    have held := (sound.parent_held owned).2
    obtain ⟨node, stored⟩ := Option.isSome_iff_exists.mp held
    have named : (Node.directory sub).name s = node.name := by simp [Node.name, directoryName, stored]
    rw [named]
    refine directories node (Array.mem_toList_iff.mpr (Array.mem_of_getElem? stored)) fun loose => ?_
    simp [Node.parent?, directoryParent?, stored, loose] at owned

end Attachment

section Finding

theorem descend?_direct (attached : (Node.directory dir).descend? s names = some (.directory sub)) :
    (DirectoryView.direct dir).descend? s names = some (.direct sub) :=
  (direct_descend?_eq_some s).mpr ⟨sub, rfl, attached⟩

theorem Sound.foundAt (sound : s.Sound) (attached : Attached s root names x) (cut : Path.components text = names) :
    x.FoundAt s root text := by
  cases x with
  | directory dir =>
    rw [FoundAt, DirectoryView.directoryAt?, cut]
    exact descend?_direct (sound.attached_iff.mp attached)
  | file file =>
    rcases List.eq_nil_or_concat' names with rfl | ⟨front, last, rfl⟩
    · cases sound.attached_iff.mp attached
    · obtain ⟨dir, above, owned, named⟩ := sound.attached_concat attached
      have child : s.file? dir last = some file := sound.child?_file_eq_some.mp (sound.child?_eq_some.mpr ⟨owned, named⟩)
      rw [FoundAt, DirectoryView.fileAt?, cut, List.getLast?_concat, Option.bind_some, List.dropLast_concat,
        descend?_direct (sound.attached_iff.mp above), Option.bind_some, direct_file?, store_self, child]
      rfl

theorem Sound.top_of_attached (sound : s.Sound) (top : s.directoryParent? root = none)
    (attached : Attached s root names (.directory dir)) : (DirectoryView.direct dir).top s = .direct root :=
  have reached := sound.attached_iff.mp attached
  climb_of_reached sound top reached (sound.length_lt_reach reached).le

theorem Sound.foundFromTop (sound : s.Sound) (top : s.directoryParent? root = none)
    (attached : Attached s root others (.directory dir)) (found : x.FoundAt s root text) :
    x.FoundFromTop s dir text := by
  cases x with
  | file file => rwa [FoundFromTop, DirectoryView.fileFromTop?, sound.top_of_attached top attached]
  | directory sub => rwa [FoundFromTop, DirectoryView.directoryFromTop?, sound.top_of_attached top attached]

end Finding

section Paths

theorem directoryPath_of_top (top : s.directoryParent? root = none) : s.directoryPath root = s.directoryName root := by
  rw [directoryPath, reach, directoryPathWithin, top]

theorem Sound.held_of_attached (sound : s.Sound) (attached : Attached s root names x) (below : names ≠ []) :
    x.held s = true := by
  obtain ⟨front, last, rfl⟩ := (List.eq_nil_or_concat' names).resolve_left below
  obtain ⟨dir, -, owned, -⟩ := sound.attached_concat attached
  exact (sound.parent_held owned).2

theorem fileParent?_of_parent? {file : FileId} (owned : (Node.file file).parent? s = some (.directory dir)) :
    s.fileParent? file = some dir := by
  obtain ⟨holder, parent, same⟩ := Option.map_eq_some_iff.mp owned
  rwa [← Node.directory.inj same]

theorem directoryParent?_of_parent? (owned : (Node.directory sub).parent? s = some (.directory dir)) :
    s.directoryParent? sub = some dir := by
  obtain ⟨holder, parent, same⟩ := Option.map_eq_some_iff.mp owned
  rwa [← Node.directory.inj same]

theorem Sound.directoryPath_of_attached (sound : s.Sound) (top : s.directoryParent? root = none)
    (attached : Attached s root names (.directory dir)) :
    s.directoryPath dir = names.foldl Path.child (s.directoryName root) := by
  by_cases here : names = []
  · subst here
    cases sound.attached_iff.mp attached
    exact directoryPath_of_top top
  · rw [sound.directoryPath_descend? (sound.held_of_attached attached here) (sound.attached_iff.mp attached),
      directoryPath_of_top top]

theorem Sound.path_of_attached (sound : s.Sound) (top : s.directoryParent? root = none)
    (attached : Attached s root names x) : x.path s = names.foldl Path.child (s.directoryName root) := by
  cases x with
  | directory dir => exact sound.directoryPath_of_attached top attached
  | file file =>
    rcases List.eq_nil_or_concat' names with rfl | ⟨front, last, rfl⟩
    · cases sound.attached_iff.mp attached
    · obtain ⟨dir, above, owned, named⟩ := sound.attached_concat attached
      rw [List.foldl_append, ← sound.directoryPath_of_attached top above, ← named]
      show s.filePath file = _
      rw [filePath, fileParent?_of_parent? owned]
      rfl

theorem Sound.path_injective (sound : s.Sound) (top : s.directoryParent? root = none) (legible : s.Legible root)
    (attached : Attached s root names x) (also : Attached s root others y) (same : x.path s = y.path s) : x = y := by
  rw [sound.path_of_attached top attached, sound.path_of_attached top also] at same
  obtain rfl := Path.foldl_child_injective (legible.isName attached) (legible.isName also) same
  exact Option.some.inj ((sound.attached_iff.mp attached).symm.trans (sound.attached_iff.mp also))

theorem holder?_of_parent? (owned : x.parent? s = some (.directory dir)) : x.holder? s = some (.direct dir) := by
  cases x with
  | file file => exact congrArg (Option.map DirectoryView.direct) (fileParent?_of_parent? owned)
  | directory sub => exact congrArg (Option.map DirectoryView.direct) (directoryParent?_of_parent? owned)

theorem Sound.located (sound : s.Sound) (top : s.directoryParent? root = none) (legible : s.Legible root)
    (attached : Attached s root names x) : Located s root names x where
  path := by
    rw [sound.path_of_attached top attached, Path.foldl_child_eq_below _ (legible.isName attached)]
    rfl
  found text spells := sound.foundAt attached (Path.components_of_spells spells (legible.isName attached))
  fromTop text spells others dir there :=
    sound.foundFromTop top there
      (sound.foundAt attached (Path.components_of_spells spells (legible.isName attached)))
  inside below := by
    obtain ⟨front, last, rfl⟩ := (List.eq_nil_or_concat' names).resolve_left below
    obtain ⟨dir, above, owned, -⟩ := sound.attached_concat attached
    refine ⟨.direct dir, holder?_of_parent? owned, fun text spells => ?_⟩
    rw [List.dropLast_concat] at spells
    exact sound.foundAt above (Path.components_of_spells spells (legible.isName above))

/-- In a tree whose names can all stand in paths, every node is where its path says, and no two nodes have one path. -/
theorem paths_lead_back (worked : Worked s) (top : (DirectoryView.direct root).isRoot s = true)
    (legible : s.Legible root) :
    (∀ names x, Attached s root names x → Located s root names x) ∧
      ∀ names others x y, Attached s root names x → Attached s root others y → x.path s = y.path s → x = y := by
  have loose : s.directoryParent? root = none := by
    simpa [DirectoryView.isRoot, DirectoryView.parent?, DirectoryView.direct, Backing.parent?] using top
  exact ⟨fun names x => worked.sound.located loose legible,
    fun names others x y => worked.sound.path_injective loose legible⟩

def refurbished : Store := hut.run [.renameDirectory ⟨1⟩ "hall", .createSubdirectory ⟨1⟩ "nook"]

theorem refurbished_leads_back :
    (∀ names x, Attached refurbished ⟨0⟩ names x → Located refurbished ⟨0⟩ names x) ∧
      Attached refurbished ⟨0⟩ ["hall", "note"] (.file ⟨0⟩) ∧
      (DirectoryView.direct ⟨2⟩).fileFromTop? refurbished "\\hall//note/" = some (.direct ⟨0⟩) := by
  have worked : Worked refurbished := hut_assembled.worked.run _
  have top : (DirectoryView.direct (⟨0⟩ : DirectoryId)).isRoot refurbished = true := by decide
  obtain ⟨located, -⟩ := paths_lead_back worked top (worked.sound.legible (by decide) (by decide) ⟨0⟩)
  have note : Attached refurbished ⟨0⟩ ["hall", "note"] (.file ⟨0⟩) := worked.sound.attached_iff.mpr (by decide)
  have nook : Attached refurbished ⟨0⟩ ["hall", "nook"] (.directory ⟨2⟩) := worked.sound.attached_iff.mpr (by decide)
  have spelled : Path.Spells ["hall", "note"] "\\hall//note/" := (Path.components_eq_iff.mp (by decide)).1
  exact ⟨located, note, (located _ _ note).fromTop _ spelled _ _ nook⟩

end Paths

end Store

end Memory

end GuestStorage
