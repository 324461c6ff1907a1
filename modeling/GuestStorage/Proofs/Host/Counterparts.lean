import GuestStorage.Proofs.Host.Faithful
import GuestStorage.Proofs.Host.Held
import GuestStorage.Proofs.PathMap.Errands
import GuestStorage.Proofs.PathMap.Runs

namespace GuestStorage.Host

open Memory (Content DirectoryId FileId Node Store)
open PathMap (Abreast Admits Faithful Mountable Serving Shows Suits ofTree)
open Session (Client Errand PathRequest SpaceReport)
open Disk (viewAt)
open GuestStorage.Tree

variable {s : Store} {top : DirectoryId} {disk : Disk} {root : Root} {place : Location} {map : PathMap}

/-- At the same paths there are the same directories, and files with the same bytes. -/
def SameTree (s : Store) (top : DirectoryId) (disk : Disk) (place : Location) : Prop :=
  ∀ names, disk.find? (place ++ names) = ((Node.directory top).content? s names).map Entry.ofContent

/-- A tree in memory where everything accepts changes, and a root on a host, hold the same. Hosts have room for
    all names and sizes in it. -/
structure Counterparts (s : Store) (top : DirectoryId) (disk : Disk) (root : Root) (place : Location) : Prop where
  mountable : Mountable s top
  rooted : disk.Rooted root place
  same : SameTree s top disk place
  usable : ∀ names content, (Node.directory top).content? s names = some content → ∀ name ∈ names, Path.Usable name
  fits : ∀ names content, (Node.directory top).content? s names = some content → content.size ≤ root.fileLimit

/-- Hosts have room for the names in the paths of a request, and for the size that it asks for. -/
structure Supported (fileLimit : Nat) (request : PathRequest) : Prop where
  names : ∀ text ∈ request.paths, ∀ name ∈ Path.components text, name.utf8ByteSize ≤ 255 ∧ '\x00' ∉ name.toList
  size : ∀ text size, request = .createFile text size → size ≤ fileLimit ∧ size < Store.endLimit

/-- On the host every path of a tree would be short enough, with the path of the root before it. -/
def Short (root : Root) (s : Store) (top : DirectoryId) : Prop :=
  ∀ names content, (Node.directory top).content? s names = some content → root.admits (root.path ++ names) = true

namespace Supported

variable {request : PathRequest} {fileLimit : Nat} (supported : Supported fileLimit request)
include supported

theorem admits {text : String} (among : text ∈ request.paths) : Admits Path.Usable text := by
  intro name part plain
  obtain ⟨short, clean⟩ := supported.names text among name part
  exact ⟨plain.1, plain.2, clean, short⟩

theorem suits_host : Suits Path.Usable (min (fileLimit + 1) Store.endLimit) request := by
  have admits : ∀ text ∈ request.paths, Admits Path.Usable text := fun _ => supported.admits
  cases request with
  | createFile path size =>
    obtain ⟨fits, small⟩ := supported.size _ _ rfl
    exact ⟨admits path (by simp [PathRequest.paths]), lt_min (Nat.lt_succ_of_le fits) small⟩
  | createDirectory path => exact admits path (by simp [PathRequest.paths])
  | renameFile source target | renameDirectory source target => exact admits target (by simp [PathRequest.paths])
  | deleteFile | deleteDirectory | deleteDirectoryRecursively | cleanDirectoryRecursively | commit | entryType
  | freeSpace | totalSpace | openFile | openDirectory => trivial

theorem suits_memory : Suits Path.IsPlain Store.endLimit request := by
  apply PathMap.suits_of_fits
  cases request with
  | createFile path size => exact (supported.size _ _ rfl).2
  | _ => trivial

end Supported

theorem roomy_of_short (shows : Shows s top map) (short : Short root s top) :
    map.Roomy fun key => root.admits (root.path ++ key) = true := by
  rintro ⟨names, content⟩ listed
  refine short names content ?_
  rw [shows.content?_eq]
  exact (shows.proper.mem_entries.mp listed).2

theorem short_of_roomy (shows : Shows s top map) (here : root.admits root = true)
    (roomy : map.Roomy fun key => root.admits (root.path ++ key) = true) : Short root s top := by
  intro names content held
  by_cases bare : names = []
  · rwa [bare, List.append_nil]
  · rw [shows.content?_eq] at held
    exact roomy (names, content) (shows.proper.mem_entries.mpr ⟨bare, held⟩)

namespace Counterparts

variable (counterparts : Counterparts s top disk root place)
include counterparts

theorem mapped (short : Short root s top) : disk.Mapped root place (ofTree s top) := by
  have tree := counterparts.mountable
  have same : ∀ names, disk.find? (place ++ names) = View.ofMap (ofTree s top) names := fun names => by
    rw [View.ofMap, tree.find?_ofTree, counterparts.same]
  refine ⟨⟨counterparts.rooted, ?_, ?_, same⟩, tree.proper, ?_⟩
  · intro names entry found
    obtain ⟨content, held, rfl⟩ := Option.map_eq_some_iff.mp ((counterparts.same names).symm.trans found)
    refine ⟨counterparts.usable names content held, ?_⟩
    rintro text link
    cases content <;> cases link
  · have above := short [] .directory rfl
    rw [List.append_nil] at above
    exact View.admitted_ofMap tree.proper above (roomy_of_short tree.shows short)
  · rintro ⟨names, content⟩ listed
    exact counterparts.fits names content (tree.mem_entries.mp listed).2

theorem serving (short : Short root s top) (space : SpaceReport) :
    Serving (mounted disk root space) (viewAt root []) space (fun disk : Disk => disk.Mapped root place)
      (ofTree s top) := by
  refine ⟨?_, counterparts.mapped short⟩
  rw [viewAt, List.append_nil]
  rfl

end Counterparts

theorem sameTree_of_map (shows : Shows s top map) (mapped : disk.Mapped root place map) :
    SameTree s top disk place := by
  intro names
  rw [mapped.shown.find?, View.ofMap, Node.content?, shows.lookup]
  cases map.find? names <;> rfl

/-- Guests of a tree in memory and of a root on a host that hold the same are answered alike in all errands,
    and the two go on holding the same, as long as no path in the tree becomes too long for the host. -/
theorem counterparts_agree (counterparts : Counterparts s top disk root place) (space : SpaceReport)
    (errands : List Errand) (supported : ∀ errand ∈ errands, Supported root.fileLimit errand.request)
    (short : ∀ front, front <+: errands → Short root
      ((Client.mounted s (.direct top) space : Client Store FileId DirectoryId).performAll front).2.storage top) :
    let memory := (Client.mounted s (.direct top) space : Client Store FileId DirectoryId).performAll errands
    let host := (mounted disk root space).performAll errands
    List.Forall₂ Client.Alike memory.1 host.1 ∧ SameTree memory.2.storage top host.2.storage place := by
  intro memory host
  have abreast : Abreast (Client.mounted s (.direct top) space : Client Store FileId DirectoryId)
      (mounted disk root space) (.direct top) (viewAt root []) space (fun s => Shows s top)
      (fun disk : Disk => disk.Mapped root place) (ofTree s top) :=
    ⟨counterparts.mountable.serving space, counterparts.serving (short [] List.nil_prefix) space, rfl⟩
  -- what the map says on the way is what the tree in memory holds there
  have roomy : ∀ front, front <+: errands → PathMap.Roomy
      ((ofTree s top).after space (front.map (·.request))) fun key => root.admits (root.path ++ key) = true := by
    intro front within
    have serving := (counterparts.mountable.serving space).performAll (PathMap.faithful top)
      (fun errand among => (supported errand (within.subset among)).suits_memory) fun _ _ _ _ => trivial
    exact roomy_of_short serving.shows (short front within)
  obtain ⟨answers, last⟩ := abreast.performAll (PathMap.faithful top) (Disk.faithful root place)
    (fun errand among => (supported errand among).suits_memory)
    (fun errand among => (supported errand among).suits_host) (fun _ _ _ _ => trivial) roomy
  exact ⟨answers, sameTree_of_map last.left.shows last.right.shows⟩

def Disk.holding (place : Location) (map : PathMap) : Disk :=
  ⟨(place, .directory) :: map.entries.map fun e => (place ++ e.1, .ofContent e.2)⟩

theorem find?_holding (below : place ≠ []) (map : PathMap) (names : List String) :
    (Disk.holding place map).find? (place ++ names) = (map.find? names).map Entry.ofContent := by
  rw [Disk.find?_eq _ (by simp [below]), Disk.holding, PathMap.find?, Keyed.lookup, List.find?_cons]
  by_cases top : names = []
  · simp [top, Entry.ofContent]
  · have apart : (place == place ++ names) = false := by simp [top]
    have same : ((fun e : Location × Entry => e.1 == place ++ names) ∘ fun e : List String × Content =>
        (place ++ e.1, Entry.ofContent e.2)) = fun e => e.1 == names := by
      funext e
      rw [Bool.eq_iff_iff]
      simp
    rw [if_neg top, apart, List.find?_map, same, Keyed.lookup, Option.map_map, Option.map_map]
    rfl

theorem Counterparts.of_holding (tree : Mountable s top) (below : place ≠ [])
    (rooted : (Disk.holding place (ofTree s top)).Rooted root place)
    (room : ∀ e ∈ (ofTree s top).entries, (∀ name ∈ e.1,
      Path.IsPlain name ∧ '\x00' ∉ name.toList ∧ name.utf8ByteSize ≤ 255) ∧ e.2.size ≤ root.fileLimit) :
    Counterparts s top (.holding place (ofTree s top)) root place where
  mountable := tree
  rooted := rooted
  same names := by rw [find?_holding below, tree.find?_ofTree]
  usable names content held name among := by
    obtain ⟨plain, clean, short⟩ :=
      (room _ (tree.mem_entries.mpr ⟨List.ne_nil_of_mem among, held⟩)).1 name among
    exact ⟨plain.1, plain.2, clean, short⟩
  fits names content held := by
    by_cases bare : names = []
    · rw [bare] at held
      cases held
      exact Nat.zero_le _
    · exact (room _ (tree.mem_entries.mpr ⟨bare, held⟩)).2

def meadowHost : Disk := .holding ["srv"] (ofTree PathMap.meadow ⟨0⟩)

theorem meadowHost_sound : meadowHost.Sound := by
  refine ⟨?_, ?_, ?_, ?_⟩ <;> decide +kernel

def meadowRoot : Root := ⟨["srv"], 4095, 1000⟩

theorem meadow_counterparts : Counterparts PathMap.meadow ⟨0⟩ meadowHost meadowRoot ["srv"] :=
  .of_holding PathMap.meadow_mountable (by simp) ⟨meadowHost_sound, by decide +kernel, by decide +kernel⟩
    (by decide +kernel)

/-- A directory is moved and listed where it was and where it is, and its file is read there and deleted. -/
def meadowErrands : List Errand :=
  [.path (.renameDirectory "a" "b\\.//c"), .list "a" 0, .list "/b/c" 3, .read "b/c/f" 1 1 8 16,
    .path (.deleteDirectory "b/c"), .path (.deleteFile "b/c/f"), .path (.createFile "b/f" 3)]

theorem meadowErrands_supported : ∀ errand ∈ meadowErrands, Supported meadowRoot.fileLimit errand.request := by
  have names : ∀ errand ∈ meadowErrands, ∀ text ∈ errand.request.paths, ∀ name ∈ Path.components text,
      name.utf8ByteSize ≤ 255 ∧ '\x00' ∉ name.toList := by decide +kernel
  refine fun errand among => ⟨names errand among, fun text size created => ?_⟩
  simp only [meadowErrands, List.mem_cons, List.not_mem_nil, or_false] at among
  rcases among with rfl | rfl | rfl | rfl | rfl | rfl | rfl <;> cases created
  decide

theorem meadow_short (front : List Errand) (within : front <+: meadowErrands) : Short meadowRoot
    ((Client.mounted PathMap.meadow (.direct ⟨0⟩) ⟨.gameCard, 0, 0⟩ :
      Client Store FileId DirectoryId).performAll front).2.storage ⟨0⟩ := by
  have roomy : ∀ front ∈ meadowErrands.inits, ∀ e ∈ ((ofTree PathMap.meadow ⟨0⟩).after ⟨.gameCard, 0, 0⟩
      (front.map (·.request))).entries, meadowRoot.admits (meadowRoot.path ++ e.1) = true := by decide +kernel
  have serving := (PathMap.meadow_mountable.serving ⟨.gameCard, 0, 0⟩).performAll (PathMap.faithful ⟨0⟩)
    (fun errand among => (meadowErrands_supported errand (within.subset among)).suits_memory) fun _ _ _ _ => trivial
  exact short_of_roomy serving.shows (by decide +kernel) (roomy front ((List.mem_inits ..).mpr within))

theorem meadow_agrees :
    let memory := (Client.mounted PathMap.meadow (.direct ⟨0⟩) ⟨.gameCard, 0, 0⟩ :
      Client Store FileId DirectoryId).performAll meadowErrands
    let host := (mounted meadowHost meadowRoot ⟨.gameCard, 0, 0⟩).performAll meadowErrands
    host.1.getLast? = some (.ok .done) ∧ List.Forall₂ Client.Alike memory.1 host.1 ∧
      SameTree memory.2.storage ⟨0⟩ host.2.storage ["srv"] :=
  ⟨by decide +kernel, counterparts_agree meadow_counterparts _ meadowErrands meadowErrands_supported meadow_short⟩

def bare : Store := (Store.empty.plant "root" false []).2

def bareHost : Disk := .holding ["srv"] (ofTree bare ⟨0⟩)

def dottedRoot : Root := ⟨["srv"], 55, 1000⟩

theorem bareHost_openRoot : bareHost.openRoot 1000 [] (dotted 2020 "srv") = .ok ⟨dottedRoot, ["srv"]⟩ :=
  Disk.openRoot_dotted (by decide +kernel) (by decide) (by decide +kernel)
    (show bareHost.resolve ["srv"] = .ok ["srv"] by decide +kernel) (by decide +kernel) _ _

theorem bare_counterparts : Counterparts bare ⟨0⟩ bareHost dottedRoot ["srv"] := by
  refine .of_holding (.of_nodes (Store.plant_sound Store.empty_sound _ _ _) ?_ ?_ ?_) (by simp) ⟨?_, ?_, ?_⟩ ?_
  on_goal 4 => refine ⟨?_, ?_, ?_, ?_⟩
  all_goals decide +kernel

def sixtyErrand : Errand := .path (.createDirectory "nnnnnnnnnnnnnnnnnnnnnnnnnnnnnnnnnnnnnnnnnnnnnnnnnnnnnnnnnnnn")

theorem dotted_differs :
    let memory := (Client.mounted bare (.direct ⟨0⟩) ⟨.gameCard, 0, 0⟩ :
      Client Store FileId DirectoryId).performAll [sixtyErrand]
    let host := (mounted bareHost dottedRoot ⟨.gameCard, 0, 0⟩).performAll [sixtyErrand]
    bareHost.openRoot 1000 [] (dotted 2020 "srv") = .ok ⟨dottedRoot, ["srv"]⟩ ∧
      Counterparts bare ⟨0⟩ bareHost dottedRoot ["srv"] ∧
      Supported dottedRoot.fileLimit sixtyErrand.request ∧ Short dottedRoot bare ⟨0⟩ ∧
      memory.1 = [.ok .done] ∧ host.1 = [.error (.refused .operationFailed)] ∧
      ¬ List.Forall₂ Client.Alike memory.1 host.1 ∧ ¬ SameTree memory.2.storage ⟨0⟩ host.2.storage ["srv"] := by
  intro memory host
  have made : memory.1 = [.ok .done] := by decide +kernel
  have refused : host.1 = [.error (.refused .operationFailed)] := by decide +kernel
  refine ⟨bareHost_openRoot, bare_counterparts, ⟨by decide +kernel, by rintro text size ⟨⟩⟩, ?_, made, refused, ?_,
    fun same => ?_⟩
  · refine short_of_roomy bare_counterparts.mountable.shows (by decide +kernel) ?_
    unfold PathMap.Roomy
    decide +kernel
  · rw [made, refused]
    rintro (_ | ⟨⟨⟩, -⟩)
  · have there : (Node.directory ⟨0⟩).content? memory.2.storage
        ["nnnnnnnnnnnnnnnnnnnnnnnnnnnnnnnnnnnnnnnnnnnnnnnnnnnnnnnnnnnn"] = some .directory := by decide +kernel
    have absent : host.2.storage.find? (["srv"] ++
        ["nnnnnnnnnnnnnnnnnnnnnnnnnnnnnnnnnnnnnnnnnnnnnnnnnnnnnnnnnnnn"]) = none := by decide +kernel
    rw [same, there] at absent
    cases absent

end GuestStorage.Host
