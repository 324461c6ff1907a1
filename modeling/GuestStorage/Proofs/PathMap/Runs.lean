import GuestStorage.Proofs.PathMap.Serving
import GuestStorage.Proofs.PathMap.Queries
import GuestStorage.Proofs.PathMap.Renames
import GuestStorage.Proofs.Memory.Build

namespace GuestStorage.PathMap

open Keyed Memory Node GuestStorage.Tree
open GuestStorage.Path (IsPlain)
open Session (AnySession Client FileSystem PathRequest Request SpaceReport Table)

variable {s : Store} {root : DirectoryId} {map : PathMap} {space : SpaceReport}

/-- A tree where everything accepts changes, every name can stand in a path and no file is too long. -/
structure Mountable (s : Store) (root : DirectoryId) : Prop where
  sound : s.Sound
  writable : ∀ y, Within s (.directory root) y → (y.entry s).writable = true
  plain : ∀ path y, (Node.directory root).descend? s path = some y → ∀ name ∈ path, IsPlain name
  short : ∀ y, Within s (.directory root) y → (y.entry s).content.size < Store.endLimit

instance : DecidablePred IsPlain := fun name => inferInstanceAs (Decidable (Path.IsName name ∧ _))

/-- All nodes of a store being writable, well named and not too long, each of its directories can be
    mounted. -/
theorem Mountable.of_nodes (sound : s.Sound) (held : (Node.directory root).held s = true)
    (files : ∀ node ∈ s.fileNodes, node.writable ∧ IsPlain node.name ∧ node.bytes.length < Store.endLimit)
    (directories : ∀ node ∈ s.directoryNodes, node.writable ∧ (node.parent.isSome → IsPlain node.name)) :
    Mountable s root := by
  have fits : ∀ y : Node, y.held s = true → (y.entry s).writable = true ∧
      (y.parent? s ≠ none → IsPlain (y.name s)) ∧ (y.entry s).content.size < Store.endLimit := by
    intro y there
    cases y with
    | file file =>
      obtain ⟨node, here⟩ := Option.isSome_iff_exists.mp there
      obtain ⟨writable, plain, short⟩ := files node (Array.mem_of_getElem? here)
      simp only [Node.entry, Node.name, Store.fileWritable, Store.fileName, Store.fileBytes, here]
      exact ⟨writable, fun _ => plain, short⟩
    | directory dir =>
      obtain ⟨node, here⟩ := Option.isSome_iff_exists.mp there
      obtain ⟨writable, plain⟩ := directories node (Array.mem_of_getElem? here)
      simp only [Node.entry, Node.name, Node.parent?, Store.directoryWritable, Store.directoryName,
        Store.directoryParent?, here]
      refine ⟨writable, fun owned => plain ?_, by decide⟩
      cases parent : node.parent with
      | none => exact absurd (by simp [parent]) owned
      | some holder => rfl
  refine ⟨sound, ?_, ?_, ?_⟩
  · rintro y ⟨path, reached⟩
    exact (fits y (sound.descend?_held held reached)).1
  · intro path
    induction path using List.reverseRecOn with
    | nil => simp
    | append_singleton front last ih =>
      intro y reached name among
      obtain ⟨holder, above, owned, rfl⟩ := sound.descend?_concat_eq_some.mp reached
      rcases List.mem_append.mp among with before | own
      · exact ih holder above name before
      · rw [List.mem_singleton.mp own]
        exact (fits y (sound.descend?_held held reached)).2.1 (by simp [owned])
  · rintro y ⟨path, reached⟩
    exact (fits y (sound.descend?_held held reached)).2.2

def ofTree (s : Store) (root : DirectoryId) : PathMap := ⟨s.entries root⟩

namespace Mountable

variable (mountable : Mountable s root)
include mountable

theorem mem_entries {path : List String} {content : Content} :
    (path, content) ∈ s.entries root ↔
      path ≠ [] ∧ (Node.directory root).content? s path = some content :=
  mountable.sound.mem_entries

theorem proper : (ofTree s root).Proper := by
  refine ⟨mountable.sound.entries_keys_nodup root, ?_, ?_, ?_⟩
  all_goals
    rintro ⟨path, content⟩ listed
    obtain ⟨below, there⟩ := mountable.mem_entries.mp listed
    obtain ⟨entry, shown, rfl⟩ := Option.map_eq_some_iff.mp there
    obtain ⟨y, reached, rfl⟩ := Option.map_eq_some_iff.mp shown
  · exact below
  · exact mountable.plain path y reached
  · exact mountable.short y ⟨path, reached⟩

theorem find?_ofTree (path : List String) :
    (ofTree s root).find? path = (Node.directory root).content? s path := by
  by_cases top : path = []
  · rw [top]
    rfl
  · ext content
    rw [mountable.proper.find?_eq_some top, ofTree, mountable.mem_entries, and_iff_right top]

theorem shows : Shows s root (ofTree s root) := by
  refine ⟨mountable.sound, mountable.proper, fun path => ?_⟩
  rw [mountable.find?_ofTree, content?, Node.lookup]
  cases reached : (Node.directory root).descend? s path with
  | none => rfl
  | some y =>
    have open' : (y.entry s).writable = true := mountable.writable y ⟨path, reached⟩
    rw [Option.map_some, Option.map_some, Option.map_some, ← open']

end Mountable

theorem faithful (root : DirectoryId) :
    Faithful (.direct root) (fun s => Shows s root) IsPlain (fun _ => True) Store.endLimit where
  proper shows := shows.proper
  reached_iff {s map} shows key := by
    constructor
    · rintro ⟨view, reached⟩
      obtain ⟨dir, rfl, led⟩ := (direct_descend?_eq_some s).mp reached
      exact (shows.found led).1
    · intro held
      obtain ⟨dir, led⟩ := shows.directory_of_find? held
      exact ⟨.direct dir, (direct_descend?_eq_some s).mpr ⟨dir, rfl, led⟩⟩
  held shows there := shows.held there
  file_iff {s map front dir} shows reached name := by
    obtain ⟨dir, rfl, led⟩ := (direct_descend?_eq_some s).mp reached
    constructor
    · rintro ⟨file, found⟩
      obtain ⟨id, rfl, child⟩ := file_of_view shows.sound found
      exact ⟨_, (shows.found ((shows.spot_of_child led child).child child)).1⟩
    · rintro ⟨bytes, held⟩
      obtain ⟨file, child, -⟩ := shows.child?_of_file led held
      exact ⟨.direct file, by rw [direct_file?_eq dir name shows.sound, child]; rfl⟩
  isWritable {s map front dir} shows reached := by
    obtain ⟨dir, rfl, led⟩ := (direct_descend?_eq_some s).mp reached
    exact shows.writable led
  samePlace_iff {s map front back home goal} shows reached reached' := by
    obtain ⟨home, rfl, led⟩ := (direct_descend?_eq_some s).mp reached
    obtain ⟨goal, rfl, led'⟩ := (direct_descend?_eq_some s).mp reached'
    exact shows.samePlace_iff led led'
  contents {s map front dir name file bytes} shows reached found held := by
    obtain ⟨dir, rfl, led⟩ := (direct_descend?_eq_some s).mp reached
    obtain ⟨id, rfl, child⟩ := file_of_view shows.sound found
    have there := (shows.spot_of_child led child).child child
    rw [(shows.found there).1] at held
    rw [← Content.file.inj (Option.some.inj held)]
    exact ⟨rfl, (shows.found there).2, fun _ _ => rfl⟩
  records {s map key dir} shows reached filter := by
    obtain ⟨dir, rfl, led⟩ := (direct_descend?_eq_some s).mp reached
    exact shows.records_perm led filter
  adds_file {s map front dir name size} shows reached plain free fits _ := by
    obtain ⟨dir, rfl, led⟩ := (direct_descend?_eq_some s).mp reached
    obtain ⟨new, made⟩ := shows.createFile (shows.spot led plain) (shows.child?_of_free led free) fits
    exact ⟨.direct new, made⟩
  adds_directory {s map front dir name} shows reached plain free _ := by
    obtain ⟨dir, rfl, led⟩ := (direct_descend?_eq_some s).mp reached
    obtain ⟨new, made⟩ := shows.createDirectory (shows.spot led plain) (shows.child?_of_free led free)
    exact ⟨.direct new, made⟩
  removes_file {s map front dir name bytes} shows reached held := by
    obtain ⟨dir, rfl, led⟩ := (direct_descend?_eq_some s).mp reached
    obtain ⟨file, found, -⟩ := shows.child?_of_file led held
    exact shows.deleteFile (shows.spot_of_child led found) found
  removes_directory {s map front dir name} shows reached held bare := by
    obtain ⟨dir, rfl, led⟩ := (direct_descend?_eq_some s).mp reached
    obtain ⟨sub, found⟩ := shows.child?_of_directory led held
    exact shows.deleteDirectory (shows.spot_of_child led found) found bare
  keeps_full_directory {s map front dir name} shows reached held full := by
    obtain ⟨dir, rfl, led⟩ := (direct_descend?_eq_some s).mp reached
    obtain ⟨sub, found⟩ := shows.child?_of_directory led held
    exact shows.deleteDirectory_full (shows.spot_of_child led found) found full
  removes_tree {s map front dir name} shows reached held := by
    obtain ⟨dir, rfl, led⟩ := (direct_descend?_eq_some s).mp reached
    obtain ⟨sub, found⟩ := shows.child?_of_directory led held
    exact shows.deleteTree (shows.spot_of_child led found) found
  clears_tree {s map front dir name} shows reached held := by
    obtain ⟨dir, rfl, led⟩ := (direct_descend?_eq_some s).mp reached
    obtain ⟨sub, found⟩ := shows.child?_of_directory led held
    exact shows.cleanTree (shows.spot_of_child led found) found
  renames_file {s map front dir name file new} shows reached found plain free _ := by
    obtain ⟨dir, rfl, led⟩ := (direct_descend?_eq_some s).mp reached
    obtain ⟨id, rfl, child⟩ := file_of_view shows.sound found
    exact ⟨.direct id, shows.renamedFile (shows.spot led plain) (shows.child?_of_free led free) child⟩
  renames_directory {s map front dir name sub new} shows reached found plain free _ := by
    obtain ⟨dir, rfl, led⟩ := (direct_descend?_eq_some s).mp reached
    obtain ⟨id, rfl, child⟩ := directory_of_view found
    exact ⟨.direct id, shows.renamedDirectory (shows.spot led plain) (shows.child?_of_free led free) child⟩
  moves_file {s map front home name file back goal new} shows reached found reached' plain free different _ := by
    obtain ⟨home, rfl, led⟩ := (direct_descend?_eq_some s).mp reached
    obtain ⟨goal, rfl, led'⟩ := (direct_descend?_eq_some s).mp reached'
    obtain ⟨id, rfl, child⟩ := file_of_view shows.sound found
    exact shows.moveFile (shows.spot_of_child led child) (shows.spot led' plain) child
      (shows.child?_of_free led' free) fun same => different (List.append_inj_left' same rfl)
  moves_directory {s map front home name sub back goal new} shows reached found reached' plain free _ apart _ := by
    obtain ⟨home, rfl, led⟩ := (direct_descend?_eq_some s).mp reached
    obtain ⟨goal, rfl, led'⟩ := (direct_descend?_eq_some s).mp reached'
    obtain ⟨id, rfl, child⟩ := directory_of_view found
    exact shows.moveDirectory (shows.spot_of_child led child) (shows.spot led' plain) child
      (shows.child?_of_free led' free) apart

/-- Sizes of new files are 64-bit numbers. -/
def Fits : PathRequest → Prop
  | .createFile _ size => size < Store.endLimit
  | _ => True

/-- An answer of a client stands for an outcome of the map: it is the same error or value, or the handle of a
    session that is just what the outcome says. A map has no order, so a listing may have any. -/
inductive Answers (client : Client Store FileId DirectoryId) (root : DirectoryId) :
    Client.Answer → Except Error Outcome → Prop
  | refused (e : Error) : Answers client root (.error (.refused e)) (.error e)
  | done : Answers client root (.ok .done) (.ok .done)
  | kind (kind : Wire.EntryType) : Answers client root (.ok (.entryType kind)) (.ok (.kind kind))
  | size (bytes : Nat) : Answers client root (.ok (.size bytes)) (.ok (.size bytes))
  | file {handle : Nat} {path : List String} {file : FileId} (mode : Wire.OpenMode)
      (held : client.table.find? handle = some (.file ⟨.direct file, mode⟩))
      (reached : (Node.directory root).descend? client.storage path = some (.file file)) :
      Answers client root (.ok (.openedFile handle mode))
        (.ok (.file path (client.storage.fileBytes file) mode))
  | listing {handle : Nat} {listing : Session.Listing} {records : List Wire.DirectoryEntry}
      (held : client.table.find? handle = some (.directory listing))
      (same : listing.remaining.Perm records) :
      Answers client root (.ok (.openedDirectory handle records.length)) (.ok (.listing records))

variable {client : Client Store FileId DirectoryId}

theorem suits_of_fits {request : PathRequest} (fits : Fits request) : Suits IsPlain Store.endLimit request := by
  have plain : ∀ text, Admits IsPlain text := fun _ _ _ => id
  cases request with
  | createFile path size => exact ⟨plain path, fits⟩
  | createDirectory path => exact plain path
  | renameFile source target | renameDirectory source target => exact plain target
  | deleteFile | deleteDirectory | deleteDirectoryRecursively | cleanDirectoryRecursively | commit | entryType
  | freeSpace | totalSpace | openFile | openDirectory => trivial

theorem Answers.of_told (shows : Shows client.storage root map) {handle : Nat} {answer : Client.Answer}
    {outcome : Except Error Outcome} (told : Told client (.direct root) map handle answer outcome) :
    Answers client root answer outcome := by
  cases told with
  | refused e => exact .refused e
  | done => exact .done
  | kind kind => exact .kind kind
  | size bytes => exact .size bytes
  | file mode held reached found there =>
    obtain ⟨inner, rfl, here⟩ := (direct_descend?_eq_some client.storage).mp reached
    obtain ⟨id, rfl, child⟩ := file_of_view shows.sound found
    have led := (shows.spot_of_child here child).child child
    rw [(shows.found led).1] at there
    rw [← Content.file.inj (Option.some.inj there)]
    exact .file mode held led
  | listing held same => exact .listing held same

theorem Mountable.serving (mountable : Mountable s root) (space : SpaceReport) :
    Serving (Client.mounted s (.direct root) space : Client Store FileId DirectoryId) (.direct root) space
      (fun s => Shows s root) (ofTree s root) :=
  ⟨rfl, mountable.shows⟩

/-- A session mounted on a tree and the map of the tree stay in step over all runs of path requests: the
    tree is what the map says it is, and what is asked next is answered as the map says. -/
theorem run_refines (mountable : Mountable s root) (space : SpaceReport) (requests : List PathRequest)
    (fits : ∀ request ∈ requests, Fits request) :
    let client := ((Client.mounted s (.direct root) space).run (requests.map (.path 1))).2
    let map := (ofTree s root).after space requests
    Shows client.storage root map ∧ ∀ next, Fits next →
      Answers (client.step (.path 1 next)).2 root (client.step (.path 1 next)).1 (map.step space next).1 := by
  intro client map
  have serving := (mountable.serving space).run (faithful root)
    (fun request among => suits_of_fits (fits request among)) fun _ _ _ _ => trivial
  refine ⟨serving.shows, fun next fits => ?_⟩
  obtain ⟨after, told⟩ := serving.step (faithful root) (suits_of_fits fits) fun _ _ => trivial
  exact .of_told after.shows told

def meadow : Store :=
  (Store.empty.plant "root" false
    [.directory "a" [.file "f" [1, 2] false, .directory "deep" [] false] false,
      .directory "b" [] false]).2

theorem meadow_mountable : Mountable meadow ⟨0⟩ :=
  .of_nodes (Store.plant_sound Store.empty_sound _ _ _) (by decide +kernel) (by decide +kernel)
    (by decide +kernel)

def meadowRun : List PathRequest := [.renameDirectory "a" "b\\.//c", .createFile "a" 1]

def meadowAfter : PathMap :=
  ⟨[(["b", "c"], .directory), (["b", "c", "f"], .file [1, 2]), (["b", "c", "deep"], .directory),
    (["b"], .directory), (["a"], .file [0])]⟩

theorem meadow_refined :
    let client := ((Client.mounted meadow (.direct ⟨0⟩) ⟨.gameCard, 0, 0⟩).run (meadowRun.map (.path 1))).2
    Shows client.storage ⟨0⟩ meadowAfter ∧
      Answers (client.step (.path 1 (.openFile "b/c/f" 1))).2 ⟨0⟩
        (client.step (.path 1 (.openFile "b/c/f" 1))).1 (.ok (.file ["b", "c", "f"] [1, 2] .read)) := by
  intro client
  have map : (ofTree meadow ⟨0⟩).after ⟨.gameCard, 0, 0⟩ meadowRun = meadowAfter := by decide +kernel
  have outcome : (meadowAfter.step ⟨.gameCard, 0, 0⟩ (.openFile "b/c/f" 1)).1 =
      .ok (.file ["b", "c", "f"] [1, 2] .read) := by decide +kernel
  have refined := run_refines meadow_mountable ⟨.gameCard, 0, 0⟩ meadowRun
    (by simp [meadowRun, Fits, Store.endLimit])
  rw [map] at refined
  exact ⟨refined.1, outcome ▸ refined.2 (.openFile "b/c/f" 1) trivial⟩

end GuestStorage.PathMap
