import GuestStorage.Proofs.PathMap.Shows

namespace GuestStorage.PathMap

open Keyed Memory Node GuestStorage.Tree
open GuestStorage.Path (IsPlain)

variable {s s' : Store} {root dir sub : DirectoryId} {file : FileId} {map : PathMap} {x new : Node}
  {front : List String} {name : String} {content : Content} {lost : List Node}

namespace Shows

variable (shows : Shows s root map) (spot : Spot s root front dir name) (sound' : s'.Sound)
include shows spot sound'

theorem added (free : (Node.directory dir).child? s name = none)
    (adds : Adds s s' (.directory dir) new name ⟨content, true⟩) (short : content.size < Store.endLimit) :
    Shows s' root (map.insert (front ++ [name]) content) := by
  have absent : map.find? (front ++ [name]) = none := by
    rw [shows.find?_child spot.reached, free]
    rfl
  refine ⟨sound', shows.proper.insert absent spot.plain short, fun path => ?_⟩
  rw [adds.lookup shows.sound sound' free spot.reached, find?_insert absent, shows.lookup]
  split <;> rfl

theorem cut (found : (Node.directory dir).child? s name = some x) (cuts : Cuts s s' lost)
    (gone : x ∈ lost) (below : ∀ z ∈ lost, Within s x z) :
    Shows s' root (map.remove (front ++ [name])) := by
  have here := spot.child found
  refine ⟨sound', shows.proper.filter _, fun path => ?_⟩
  rw [cuts.lookup shows.sound sound' here (by simp) gone below, find?_remove map (by simp), shows.lookup]
  split <;> rfl

theorem cleared (found : (Node.directory dir).child? s name = some x) (cuts : Cuts s s' lost)
    (below : ∀ z ∈ lost, Below s x z) (bare : ∀ name, x.child? s' name = none) :
    Shows s' root (map.clear (front ++ [name])) := by
  have here := spot.child found
  refine ⟨sound', shows.proper.filter _, fun path => ?_⟩
  rw [cuts.lookup_emptied shows.sound sound' here below bare, find?_clear, shows.lookup]
  split <;> rfl

end Shows

namespace Shows

variable (shows : Shows s root map)
include shows

theorem below_eq_nil {path : List String} (reached : (Node.directory root).descend? s path = some x) :
    map.below path = [] ↔ ∀ name, x.child? s name = none := by
  rw [below, List.filter_eq_nil_iff]
  simp only [decide_eq_true_eq]
  constructor
  · intro nothing name
    rw [Option.eq_none_iff_forall_not_mem]
    intro y inside
    have there : (Node.directory root).descend? s (path ++ [name]) = some y :=
      (descend?_concat_of_reached reached _).trans inside
    have listed := (shows.proper.find?_eq_some (by simp)).mp (shows.found there).1
    exact nothing _ listed ⟨List.prefix_append _ _, by simp⟩
  · rintro bare e listed ⟨⟨rest, below⟩, apart⟩
    have there := (shows.proper.find?_eq_some (shows.proper.not_top e listed)).mpr listed
    obtain ⟨z, further, -⟩ := shows.descend?_of_find? there
    rw [← below, descend?_append, reached] at further
    cases rest with
    | nil => exact apart (by rw [← below, List.append_nil])
    | cons name rest =>
      rw [Option.bind_some, descend?_cons, bare] at further
      cases further

section Create

variable (spot : Spot s root front dir name) (free : (Node.directory dir).child? s name = none)
include spot free

theorem createDirectory : ∃ new s', (DirectoryView.direct dir).createSubdirectory s name = (some (.direct new), s') ∧
    Shows s' root (map.insert (front ++ [name]) .directory) := by
  obtain ⟨new, s', created, sound', adds⟩ := createSubdirectory_accepted shows.sound
    (shows.writable spot.reached) (spot.plain name (by simp)).1.1 free
  have short : Content.directory.size < Store.endLimit := by decide
  exact ⟨new, s', created, shows.added spot sound' free adds short⟩

theorem createFile {size : Nat} (fits : size < Store.endLimit) : ∃ new s₁ s₂,
    (DirectoryView.direct dir).createFile s name = (some (.direct new), s₁) ∧
      (FileView.direct new).resize s₁ size = (true, s₂) ∧
      Shows s₂ root (map.insert (front ++ [name]) (.file (.zeros size))) := by
  obtain ⟨new, s₁, created, sound₁, adds⟩ := createFile_accepted shows.sound
    (shows.writable spot.reached) (spot.plain name (by simp)).1.1 free
  obtain ⟨s', resized, sound', sizes⟩ := resize_accepted sound₁ adds.fileWritable size
  have whole := adds.refilled sizes
  rw [adds.fileBytes, Bytes.resize_nil] at whole
  refine ⟨new, s₁, s', created, resized, shows.added spot sound' free whole ?_⟩
  simpa [Content.size] using fits

end Create

theorem deleteFile (spot : Spot s root front dir name)
    (found : (Node.directory dir).child? s name = some (.file file)) :
    ∃ s', (DirectoryView.direct dir).deleteFile s name = (true, s') ∧
      Shows s' root (map.remove (front ++ [name])) := by
  obtain ⟨s', deleted, sound', cuts⟩ :=
    deleteFile_accepted shows.sound (shows.writable spot.reached) found
  refine ⟨s', deleted, shows.cut spot sound' found cuts List.mem_cons_self fun z gone => ?_⟩
  rw [List.mem_singleton.mp gone]
  exact .refl _

section Subdirectories

variable (spot : Spot s root front dir name)
  (found : (Node.directory dir).child? s name = some (.directory sub))
include spot found

theorem deleteDirectory (bare : map.below (front ++ [name]) = []) :
    ∃ s', (DirectoryView.direct dir).deleteSubdirectory s name = (true, s') ∧
      Shows s' root (map.remove (front ++ [name])) := by
  obtain ⟨s', deleted, sound', cuts⟩ := deleteSubdirectory_accepted shows.sound (shows.writable spot.reached)
    found ((shows.below_eq_nil (spot.child found)).mp bare)
  refine ⟨s', deleted, shows.cut spot sound' found cuts List.mem_cons_self fun z gone => ?_⟩
  rw [List.mem_singleton.mp gone]
  exact .refl _

theorem deleteDirectory_full (full : map.below (front ++ [name]) ≠ []) :
    (DirectoryView.direct dir).deleteSubdirectory s name = (false, s) := by
  rw [ne_eq, shows.below_eq_nil (spot.child found), not_forall] at full
  obtain ⟨other, inside⟩ := full
  obtain ⟨y, inside⟩ := Option.ne_none_iff_exists'.mp inside
  exact deleteSubdirectory_full shows.sound found inside

theorem deleteTree : ∃ s', (DirectoryView.direct dir).deleteTree s name = (true, s') ∧
    Shows s' root (map.remove (front ++ [name])) := by
  obtain ⟨s', lost, deleted, sound', cuts, below, gone⟩ := deleteTree_accepted shows.sound
    (shows.writable spot.reached) found (shows.pliable (spot.child found))
  exact ⟨s', deleted, shows.cut spot sound' found cuts gone below⟩

theorem cleanTree : ∃ s', (DirectoryView.direct dir).cleanSubdirectory s name = (true, s') ∧
    Shows s' root (map.clear (front ++ [name])) := by
  obtain ⟨s', lost, cleaned, sound', cuts, below, bare⟩ :=
    cleanSubdirectory_accepted shows.sound found (shows.pliable (spot.child found))
  exact ⟨s', cleaned, shows.cleared spot sound' found cuts below bare⟩

end Subdirectories

end Shows

end GuestStorage.PathMap
