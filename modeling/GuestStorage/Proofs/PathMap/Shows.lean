import GuestStorage.Proofs.Memory.Accepting
import GuestStorage.Proofs.Memory.Move
import GuestStorage.Proofs.PathMap.Keys

namespace GuestStorage

namespace Memory

open GuestStorage.Tree

namespace Node

def asFile? : Node → Option FileId
  | file id => some id
  | directory _ => none

def asDirectory? : Node → Option DirectoryId
  | file _ => none
  | directory id => some id

end Node

section Children

variable {s : Store} (dir : DirectoryId) (name : String)

theorem direct_file?_eq (sound : s.Sound) :
    (DirectoryView.direct dir).file? s name =
      (((Node.directory dir).child? s name).bind Node.asFile?).map FileView.direct := by
  have same : s.file? dir name = ((Node.directory dir).child? s name).bind Node.asFile? := by
    ext file
    rw [← sound.child?_file_eq_some, Option.bind_eq_some_iff]
    constructor
    · exact fun found => ⟨_, found, rfl⟩
    · rintro ⟨y, found, same⟩
      cases y with
      | file id => exact Option.some.inj same ▸ found
      | directory id => cases same
  exact (direct_file? s dir name).trans (congrArg (Option.map FileView.direct) same)

theorem direct_subdirectory?_eq (s : Store) :
    (DirectoryView.direct dir).subdirectory? s name =
      (((Node.directory dir).child? s name).bind Node.asDirectory?).map DirectoryView.direct := by
  have same : s.subdirectory? dir name = ((Node.directory dir).child? s name).bind Node.asDirectory? := by
    ext sub
    rw [← Node.child?_directory_eq_some, Option.bind_eq_some_iff]
    constructor
    · exact fun found => ⟨_, found, rfl⟩
    · rintro ⟨y, found, same⟩
      cases y with
      | file id => cases same
      | directory id => exact Option.some.inj same ▸ found
  exact (direct_subdirectory? s dir name).trans (congrArg (Option.map DirectoryView.direct) same)

theorem file_of_view (sound : s.Sound) {dir : DirectoryId} {name : String} {file : FileView FileId}
    (found : (DirectoryView.direct dir).file? s name = some file) :
    ∃ id, file = .direct id ∧ (Node.directory dir).child? s name = some (.file id) := by
  rw [direct_file?_eq dir name sound] at found
  obtain ⟨id, there, rfl⟩ := Option.map_eq_some_iff.mp found
  obtain ⟨y, child, same⟩ := Option.bind_eq_some_iff.mp there
  cases y with
  | file other => exact ⟨id, rfl, Option.some.inj same ▸ child⟩
  | directory sub => cases same

theorem directory_of_view {dir : DirectoryId} {name : String} {sub : DirectoryView DirectoryId}
    (found : (DirectoryView.direct dir).subdirectory? s name = some sub) :
    ∃ id, sub = .direct id ∧ (Node.directory dir).child? s name = some (.directory id) := by
  rw [direct_subdirectory?_eq] at found
  obtain ⟨id, there, rfl⟩ := Option.map_eq_some_iff.mp found
  obtain ⟨y, child, same⟩ := Option.bind_eq_some_iff.mp there
  cases y with
  | file other => cases same
  | directory sub => exact ⟨id, rfl, Option.some.inj same ▸ child⟩

end Children

end Memory

namespace PathMap

open Keyed Memory Node GuestStorage.Tree
open GuestStorage.Path (IsPlain)

variable {s s' : Store} {root dir sub : DirectoryId} {file : FileId} {map next : PathMap} {x y : Node}
  {path front : List String} {name : String} {bytes : Bytes}

/-- At every path below a mounted directory stands what a map says, and everything there accepts changes. -/
structure Shows (s : Store) (root : DirectoryId) (map : PathMap) : Prop where
  sound : s.Sound
  proper : map.Proper
  lookup : ∀ path, (Node.directory root).lookup s path = (map.find? path).map (⟨·, true⟩)

namespace Shows

variable (shows : Shows s root map)
include shows

theorem found (reached : (Node.directory root).descend? s path = some x) :
    map.find? path = some (x.entry s).content ∧ (x.entry s).writable = true := by
  have shown := shows.lookup path
  rw [Node.lookup, reached] at shown
  cases there : map.find? path with
  | none =>
    rw [there] at shown
    cases shown
  | some content =>
    rw [there] at shown
    have entry := Option.some.inj shown
    rw [entry]
    exact ⟨rfl, rfl⟩

theorem descend?_of_find? {content : Content} (there : map.find? path = some content) :
    ∃ x, (Node.directory root).descend? s path = some x ∧ (x.entry s).content = content := by
  have shown := shows.lookup path
  rw [there] at shown
  obtain ⟨x, reached, entry⟩ := Option.map_eq_some_iff.mp shown
  exact ⟨x, reached, congrArg Entry.content entry⟩

theorem directory_of_find? (there : map.find? path = some .directory) :
    ∃ dir, (Node.directory root).descend? s path = some (.directory dir) := by
  obtain ⟨x, reached, shown⟩ := shows.descend?_of_find? there
  cases x with
  | file id => cases shown
  | directory dir => exact ⟨dir, reached⟩

theorem find?_child (reached : (Node.directory root).descend? s front = some (.directory dir))
    (name : String) :
    map.find? (front ++ [name]) = ((Node.directory dir).child? s name).map fun y => (y.entry s).content := by
  cases there : (Node.directory dir).child? s name with
  | none =>
    have absent : (Node.directory root).descend? s (front ++ [name]) = none :=
      (descend?_concat_of_reached reached _).trans there
    have shown := shows.lookup (front ++ [name])
    rw [Node.lookup, absent] at shown
    exact Option.map_eq_none_iff.mp shown.symm
  | some y =>
    exact (shows.found ((descend?_concat_of_reached reached name).trans there)).1

theorem pliable (reached : (Node.directory root).descend? s path = some x) : Pliable s x s.reach := by
  refine .of_reach shows.sound fun rest entry shown => ?_
  rw [← lookup_append reached, shows.lookup] at shown
  obtain ⟨content, there, rfl⟩ := Option.map_eq_some_iff.mp shown
  by_cases top : path ++ rest = []
  · obtain ⟨-, rfl⟩ := List.append_eq_nil_iff.mp top
    rw [top] at there
    cases there
    exact ⟨rfl, List.not_mem_nil, by simp⟩
  · have listed := (shows.proper.find?_eq_some top).mp there
    refine ⟨rfl, fun empty => ?_, ?_⟩
    · exact (shows.proper.plain _ listed "" (List.mem_append_right path empty)).1.1 rfl
    · rintro bytes rfl
      exact shows.proper.short _ listed

theorem writable (reached : (Node.directory root).descend? s path = some (.directory dir)) :
    s.directoryWritable dir = true := (shows.found reached).2

theorem vacant (free : map.find? path = none) : ∀ e ∈ map.entries, ¬ path <+: e.1 := by
  rintro e listed ⟨rest, below⟩
  have there := (shows.proper.find?_eq_some (shows.proper.not_top e listed)).mpr listed
  obtain ⟨x, reached, -⟩ := shows.descend?_of_find? there
  rw [← below, descend?_append, Option.bind_eq_some_iff] at reached
  obtain ⟨y, above, -⟩ := reached
  rw [(shows.found above).1] at free
  cases free

end Shows

structure Spot (s : Store) (root : DirectoryId) (front : List String) (dir : DirectoryId) (name : String) :
    Prop where
  reached : (Node.directory root).descend? s front = some (.directory dir)
  plain : ∀ other ∈ front ++ [name], IsPlain other

theorem Spot.child (spot : Spot s root front dir name) (found : (Node.directory dir).child? s name = some x) :
    (Node.directory root).descend? s (front ++ [name]) = some x :=
  (descend?_concat_of_reached spot.reached _).trans found

namespace Shows

variable (shows : Shows s root map)
include shows

theorem plain_of_reached (reached : (Node.directory root).descend? s path = some x) :
    ∀ other ∈ path, IsPlain other := fun other among =>
  shows.proper.plain _ ((shows.proper.find?_eq_some (List.ne_nil_of_mem among)).mp (shows.found reached).1) other
    among

theorem spot (reached : (Node.directory root).descend? s front = some (.directory dir)) (plain : IsPlain name) :
    Spot s root front dir name := by
  refine ⟨reached, fun other among => ?_⟩
  rcases List.mem_append.mp among with above | last
  · exact shows.plain_of_reached reached other above
  · exact List.mem_singleton.mp last ▸ plain

theorem spot_of_child (reached : (Node.directory root).descend? s front = some (.directory dir))
    (found : (Node.directory dir).child? s name = some x) : Spot s root front dir name :=
  ⟨reached, shows.plain_of_reached ((descend?_concat_of_reached reached _).trans found)⟩

section Children

variable (reached : (Node.directory root).descend? s front = some (.directory dir))
include reached

theorem child?_of_free (free : map.find? (front ++ [name]) = none) :
    (Node.directory dir).child? s name = none := by
  rw [shows.find?_child reached] at free
  exact Option.map_eq_none_iff.mp free

theorem child?_of_file (held : map.find? (front ++ [name]) = some (.file bytes)) :
    ∃ file, (Node.directory dir).child? s name = some (.file file) ∧ s.fileBytes file = bytes := by
  rw [shows.find?_child reached] at held
  obtain ⟨y, found, shown⟩ := Option.map_eq_some_iff.mp held
  cases y with
  | file file => exact ⟨file, found, Content.file.inj shown⟩
  | directory sub => cases shown

theorem child?_of_directory (held : map.find? (front ++ [name]) = some .directory) :
    ∃ sub, (Node.directory dir).child? s name = some (.directory sub) := by
  rw [shows.find?_child reached] at held
  obtain ⟨y, found, shown⟩ := Option.map_eq_some_iff.mp held
  cases y with
  | file file => cases shown
  | directory sub => exact ⟨sub, found⟩

end Children

end Shows

end PathMap

end GuestStorage
