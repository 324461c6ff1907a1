import GuestStorage.Proofs.Host.Requests
import GuestStorage.Proofs.PathMap.Keys
import GuestStorage.Proofs.Tree.Attempts
import GuestStorage.Proofs.Tree.Renaming

namespace GuestStorage.Host

open GuestStorage.Tree Session Disk

variable {root : Root} {place there : Location} {disk : Disk} {entry : Entry} {names front key : List String}
  {name new : String}

def Entry.isLink : Entry → Bool
  | .link _ => true
  | .file _ | .directory => false

namespace Disk

def unlinked (disk : Disk) (place : Location) : Disk :=
  ⟨disk.entries.filter fun e => ¬ (Below place e.1 ∧ e.2.isLink = true)⟩

section Unlinked

variable (sound : disk.Sound)
include sound

theorem Sound.find?_unlinked : (disk.unlinked place).find? there = some entry ↔
    disk.find? there = some entry ∧ ¬ (Below place there ∧ entry.isLink = true) := by
  by_cases top : there = []
  · subst top
    refine ⟨fun found => ⟨found, ?_⟩, And.left⟩
    cases found
    exact fun link => nomatch link.2
  · have distinct : ((disk.unlinked place).entries.map (·.1)).Nodup :=
      sound.places_nodup.sublist (List.filter_sublist.map _)
    rw [find?_eq _ top, find?_eq _ top, Keyed.lookup_eq_some distinct, Keyed.lookup_eq_some sound.places_nodup,
      unlinked, List.mem_filter, decide_eq_true_iff]

theorem Sound.unlinked (place : Location) : (disk.unlinked place).Sound := by
  have kept : ∀ e ∈ (disk.unlinked place).entries, e ∈ disk.entries := fun e listed => List.mem_of_mem_filter listed
  refine ⟨sound.places_nodup.sublist (List.filter_sublist.map _), fun e listed => sound.below_top e (kept e listed),
    fun e listed => ?_, fun e listed => sound.proper e (kept e listed)⟩
  exact sound.find?_unlinked.mpr ⟨sound.held e (kept e listed), fun link => nomatch link.2⟩

end Unlinked

theorem around_unlinked (disk : Disk) (place : Location) : (disk.unlinked place).around place = disk.around place := by
  rw [around, unlinked, around, mk.injEq, List.filter_filter]
  refine List.filter_congr fun e _ => ?_
  by_cases below : Below place e.1
  · simp [below]
  · simp [below]

section Rooted

variable (rooted : disk.Rooted root place)
include rooted

theorem Rooted.mirrors_unlinked : Mirrors root place place disk (disk.unlinked place) := by
  have sound := rooted.sound
  refine ⟨rooted, ⟨sound.unlinked place, ?_, ?_⟩, fun names => ?_⟩
  · rw [around_unlinked]
    exact rooted.leads
  · exact sound.find?_unlinked.mpr ⟨rooted.directory, fun link => nomatch link.2⟩
  · cases found : disk.find? (place ++ names) with
    | none =>
      refine .inl (Option.eq_none_iff_forall_ne_some.mpr fun entry stands => ?_)
      exact nomatch found.symm.trans (sound.find?_unlinked.mp stands).1
    | some entry =>
      cases entry with
      | file | directory => exact .inl (sound.find?_unlinked.mpr ⟨found, fun link => nomatch link.2⟩)
      | link text =>
        have below : Below place (place ++ names) := by
          refine below_append (fun here => ?_) place
          rw [here, List.append_nil, rooted.directory] at found
          cases found
        refine .inr ⟨Option.eq_none_iff_forall_ne_some.mpr fun entry stands => ?_, text, rfl⟩
        obtain ⟨same, noLink⟩ := sound.find?_unlinked.mp stands
        cases found.symm.trans same
        exact noLink ⟨below, rfl⟩

theorem Rooted.ne_nil_of_link {target : String} (linked : disk.find? (place ++ key) = some (.link target)) :
    key ≠ [] := by
  rintro rfl
  rw [List.append_nil, rooted.directory] at linked
  cases linked

end Rooted

def Hidden (disk : Disk) (root : Root) (place : Location) (dir : DirectoryView DirectoryNode) (name : String) : Prop :=
  ∃ front target, dir.node = ⟨root, root.path ++ front⟩ ∧ disk.Plain place front ∧
    disk.find? (place ++ (front ++ [name])) = some (.link target)

namespace Hidden

variable {dir : DirectoryView DirectoryNode} (rooted : disk.Rooted root place) (hidden : disk.Hidden root place dir name)
include rooted hidden

theorem child?_eq {wanted : Entry → Bool} (noLink : NoLink wanted) : dir.node.child? disk wanted name = none := by
  obtain ⟨front, target, node, plain, linked⟩ := hidden
  refine Option.eq_none_iff_forall_ne_some.mpr fun child found => ?_
  obtain ⟨-, -, entry, stands, fits⟩ := plain_of_child? rooted node plain noLink found
  cases linked.symm.trans stands
  rw [noLink target] at fits
  cases fits

theorem file?_eq : dir.file? disk name = none := by
  simp only [DirectoryView.file?, Backing.file?, hidden.child?_eq rooted noLink_isFile, Option.map_none]

theorem subdirectory?_eq : dir.subdirectory? disk name = none := by
  simp only [DirectoryView.subdirectory?, Backing.subdirectory?, hidden.child?_eq rooted noLink_isDirectory,
    Option.map_none]

theorem resolveParent_cases : (∃ why, disk.resolveParent (dir.node.childPath name) = .error why) ∨
    ∃ there target, disk.resolveParent (dir.node.childPath name) = .ok there ∧
      disk.find? there = some (.link target) := by
  obtain ⟨front, target, node, plain, linked⟩ := hidden
  rw [DirectoryNode.childPath, node, List.append_assoc]
  cases reached : disk.resolveParent (root.path ++ (front ++ [name])) with
  | error why => exact .inl ⟨why, rfl⟩
  | ok there =>
    obtain ⟨rfl, -⟩ := rooted.resolveParent_append plain reached
    exact .inr ⟨_, target, rfl, linked⟩

theorem create_eq (entry : Entry) : ∃ why, disk.create (dir.node.childPath name) entry = .error why := by
  rw [create]
  rcases hidden.resolveParent_cases rooted with ⟨why, refused⟩ | ⟨there, target, reached, linked⟩
  · exact ⟨why, by rw [refused]⟩
  · exact ⟨.present, by simp only [reached, linked]⟩

theorem createChild_eq {α : Type} (node : Root → Location → α) (entry : Entry) :
    dir.node.createChild node entry disk name = (none, disk) := by
  obtain ⟨why, refused⟩ := hidden.create_eq rooted entry
  rcases dir.node.createChild_cases node entry disk name with same | ⟨after, -, -, created, -⟩
  · exact same
  · cases refused.symm.trans created

theorem createFile_eq : dir.createFile disk name = (none, disk) := by
  simp only [DirectoryView.createFile, Backing.createFile, DirectoryNode.createFile_eq, hidden.createChild_eq rooted,
    Option.map_none, ite_self]

theorem createSubdirectory_eq : dir.createSubdirectory disk name = (none, disk) := by
  simp only [DirectoryView.createSubdirectory, Backing.createSubdirectory, DirectoryNode.createSubdirectory_eq,
    hidden.createChild_eq rooted, Option.map_none, ite_self]

theorem move_eq (source : Location) : ∃ why, disk.move source (dir.node.childPath name) = .error why := by
  rw [move]
  rcases hidden.resolveParent_cases rooted with ⟨why, refused⟩ | ⟨there, target, reached, linked⟩
  · rw [refused]
    cases disk.resolveParent source with
    | error why => exact ⟨why, rfl⟩
    | ok _ => exact ⟨why, rfl⟩
  · rw [reached]
    cases disk.resolveParent source with
    | error why => exact ⟨why, rfl⟩
    | ok from_ =>
      simp only [linked]
      cases disk.find? from_ <;> exact ⟨_, rfl⟩

theorem renameAt_eq (root : Root) (old : String) : renameAt disk root (dir.node.childPath old) name = (none, disk) := by
  have target : (dir.node.childPath old).dropLast ++ [name] = dir.node.childPath name := by
    rw [DirectoryNode.childPath, List.dropLast_concat, DirectoryNode.childPath]
  obtain ⟨why, refused⟩ := hidden.move_eq rooted (dir.node.childPath old)
  simp only [renameAt, target, refused]
  split
  · rfl
  · split
    · rfl
    · split
      · rfl
      · rename_i after moved
        cases (Root.handing_eq_ok.mp (Root.handing_eq_ok.mp moved).2).2

theorem renameFile_eq {old : String} {file : FileView FileNode} (found : dir.file? disk old = some file) :
    file.rename disk name = (none, disk) := by
  obtain ⟨child, held, rfl⟩ := Option.map_eq_some_iff.mp found
  obtain ⟨there, seen, rfl⟩ := Option.map_eq_some_iff.mp held
  rw [DirectoryNode.child?] at seen
  split at seen
  · cases seen
    simp only [FileView.rename, Backing.renameFile, hidden.renameAt_eq rooted _ old, Option.map_none, ite_self]
  · cases seen

theorem renameDirectory_eq {old : String} {sub : DirectoryView DirectoryNode}
    (found : dir.subdirectory? disk old = some sub) : sub.rename disk name = (none, disk) := by
  obtain ⟨child, held, rfl⟩ := Option.map_eq_some_iff.mp found
  obtain ⟨there, seen, rfl⟩ := Option.map_eq_some_iff.mp held
  rw [DirectoryNode.child?] at seen
  split at seen
  · cases seen
    simp only [DirectoryView.rename, Backing.renameDirectory, DirectoryNode.rename, hidden.renameAt_eq rooted _ old,
      Option.map_none, ite_self]
  · cases seen

end Hidden

section Mount

variable {mount : Mount DirectoryNode} {dir home newHome : DirectoryView DirectoryNode} {text : String}

def Crosses (key : List String) (text : String) : Prop := ∃ names, Mount.normalize text = .ok names ∧ key <+: names

variable (rooted : disk.Rooted root place) (node : mount.root.node = ⟨root, root⟩)
include rooted node

theorem plain_of_descend?_root {front : List String} (reached : mount.root.descend? disk front = some dir) :
    dir.node = ⟨root, root.path ++ front⟩ ∧ disk.Plain place front := by
  have top : mount.root.node = ⟨root, root.path ++ []⟩ := by rw [node, List.append_nil]
  exact plain_of_descend? rooted top (Plain.nil disk place) reached

variable {target : String} (linked : disk.find? (place ++ key) = some (.link target))
include linked

theorem hidden_of_locateAlong (along : key <+: names) (located : mount.locateAlong disk names = .ok (dir, name)) :
    disk.Hidden root place dir name := by
  obtain ⟨front, rfl, reached⟩ := Mount.locateAlong_eq_ok.mp located
  obtain ⟨here, plain⟩ := plain_of_descend?_root rooted node reached
  rcases List.prefix_concat_iff.mp along with rfl | short
  · exact ⟨front, target, here, plain, linked⟩
  · exact absurd linked (plain.noLink key short (rooted.ne_nil_of_link linked) target)

theorem hidden_of_locate (crosses : Crosses key text) (located : mount.locate disk text = .ok (dir, name)) :
    disk.Hidden root place dir name := by
  obtain ⟨names, normal, along⟩ := crosses
  obtain ⟨front, normal', reached⟩ := Mount.locate_eq_ok.mp located
  obtain rfl := Except.ok.inj (normal.symm.trans normal')
  exact hidden_of_locateAlong rooted node linked along (Mount.locateAlong_eq_ok.mpr ⟨front, rfl, reached⟩)

variable (crosses : Crosses key text)
include crosses

theorem createFile_crossing (size : Nat) : ∃ e, mount.createFile disk text size = (.error e, disk) := by
  rw [Mount.createFile_eq_attempt]
  refine Mount.attempt_refused fun dir name located _ => ?_
  have hidden := hidden_of_locate rooted node linked crosses located
  rw [Mount.createSized, hidden.createFile_eq rooted]
  exact ⟨_, rfl⟩

theorem createDirectory_crossing : ∃ e, mount.createDirectory disk text = (.error e, disk) := by
  rw [Mount.createDirectory_eq_attempt]
  refine Mount.attempt_refused fun dir name located _ => ?_
  have hidden := hidden_of_locate rooted node linked crosses located
  rw [hidden.createSubdirectory_eq rooted]
  exact ⟨_, rfl⟩

theorem deleteFile_crossing : ∃ e, mount.deleteFile disk text = (.error e, disk) := by
  rw [Mount.deleteFile_eq_attempt]
  refine Mount.attempt_refused fun dir name located found => ?_
  have hidden := hidden_of_locate rooted node linked crosses located
  simp [hidden.file?_eq rooted] at found

theorem onSubdirectory_crossing (step : Disk → DirectoryView DirectoryNode → String → Bool × Disk) :
    ∃ e, Mount.onSubdirectory step disk mount text = (.error e, disk) := by
  rw [Mount.onSubdirectory_eq_attempt]
  refine Mount.attempt_refused fun dir name located found => ?_
  have hidden := hidden_of_locate rooted node linked crosses located
  simp [hidden.subdirectory?_eq rooted] at found

theorem entryType_crossing : ∃ e, mount.entryType disk text = .error e := by
  obtain ⟨names, normal, along⟩ := crosses
  rw [Mount.entryType, normal]
  cases names with
  | nil => exact absurd (List.prefix_nil.mp along) (rooted.ne_nil_of_link linked)
  | cons first rest =>
    cases located : mount.locateAlong disk (first :: rest) with
    | error e => exact ⟨e, by simp only [located]⟩
    | ok spot =>
      have hidden := hidden_of_locateAlong rooted node linked along located
      simp only [located, hidden.file?_eq rooted, hidden.subdirectory?_eq rooted]
      exact ⟨_, rfl⟩

theorem openFile_crossing (mode : Wire.OpenMode) : ∃ e, mount.openFile disk text mode = .error e := by
  rw [Mount.openFile]
  split
  · exact ⟨_, rfl⟩
  · rename_i dir name located
    have hidden := hidden_of_locate rooted node linked crosses located
    simp only [hidden.file?_eq rooted]
    exact ⟨_, rfl⟩

theorem openDirectory_crossing : ∃ e, mount.openDirectory disk text = .error e := by
  obtain ⟨names, normal, along⟩ := crosses
  rw [Mount.openDirectory, normal]
  cases reached : mount.root.descend? disk names with
  | none => exact ⟨.entityNotFound, by simp only [reached]⟩
  | some dir =>
    have plain := (plain_of_descend?_root rooted node reached).2
    exact absurd linked (plain.noLink key along (rooted.ne_nil_of_link linked) target)

end Mount

section Rename

variable {mount : Mount DirectoryNode} {home newHome : DirectoryView DirectoryNode} {source goal : String}
  (rooted : disk.Rooted root place) (node : mount.root.node = ⟨root, root⟩) {target : String}
  (linked : disk.find? (place ++ key) = some (.link target))

include rooted node

theorem node_eq_of_samePlace (located : mount.locate disk source = .ok (home, name))
    (located' : mount.locate disk goal = .ok (newHome, new)) (same : Mount.samePlace disk home newHome = true) :
    home.node = newHome.node := by
  obtain ⟨front, normal, reached⟩ := Mount.locate_eq_ok.mp located
  obtain ⟨back, normal', reached'⟩ := Mount.locate_eq_ok.mp located'
  have here := (plain_of_descend?_root rooted node reached).1
  have there := (plain_of_descend?_root rooted node reached').1
  have clean : ∀ name ∈ front, Path.IsName name :=
    fun name among => (PathMap.normalize_plain normal name (List.mem_append_left _ among)).1
  have clean' : ∀ name ∈ back, Path.IsName name :=
    fun name among => (PathMap.normalize_plain normal' name (List.mem_append_left _ among)).1
  rw [here, there, (Mirrors.samePlace_iff here there clean clean').mp same]

include linked

theorem course_crossing {V : Type} {child : DirectoryView DirectoryNode → String → Option V}
    {rename : V → String → Option V × Disk}
    {move : V → DirectoryView DirectoryNode → String → DirectoryView DirectoryNode → String →
      Except Error Unit × Disk} {outcome : Except Error Unit × Disk}
    (course : mount.Course disk source goal child rename move outcome)
    (hides : ∀ {dir name}, disk.Hidden root place dir name → child dir name = none)
    (stays : ∀ {dir old new entry}, disk.Hidden root place dir new → child dir old = some entry →
      rename entry new = (none, disk))
    (halts : ∀ {entry dir old other new}, disk.Hidden root place other new →
      ∃ e, move entry dir old other new = (.error e, disk))
    (crosses : Crosses key source ∨ Crosses key goal) : ∃ e, outcome = (.error e, disk) := by
  -- something is found at the source, so it is the target that leads along the link
  have hidden : ∀ {home old entry other new}, mount.locate disk source = .ok (home, old) →
      child home old = some entry → mount.locate disk goal = .ok (other, new) →
      disk.Hidden root place other new := by
    intro home old entry other new located found located'
    refine hidden_of_locate rooted node linked (crosses.resolve_left fun crosses => ?_) located'
    rw [hides (hidden_of_locate rooted node linked crosses located)] at found
    cases found
  have beside : ∀ {home old entry other new}, mount.locate disk source = .ok (home, old) →
      child home old = some entry → mount.locate disk goal = .ok (other, new) →
      Mount.samePlace disk home other = true → disk.Hidden root place home new := by
    intro home old entry other new located found located' same
    rw [Hidden, node_eq_of_samePlace rooted node located located' same]
    exact hidden located found located'
  cases course with
  | refused e => exact ⟨e, rfl⟩
  | own located found located' same =>
    rw [hides (beside located found located' same)] at found
    cases found
  | inPlace located found located' same free after done =>
    rw [stays (beside located found located' same) found] at after done
    obtain ⟨_ | _, last⟩ := outcome
    · exact ⟨_, congrArg (Prod.mk _) after⟩
    · simp at done
  | moved located found located' different free => exact halts (hidden located found located')

theorem renameFile_crossing (crosses : Crosses key source ∨ Crosses key goal) :
    ∃ e, mount.renameFile disk source goal = (.error e, disk) := by
  refine course_crossing rooted node linked (mount.renameFile_course disk source goal)
    (fun hidden => hidden.file?_eq rooted) (fun hidden found => hidden.renameFile_eq rooted found) ?_ crosses
  intro file home old other new hidden
  rw [Mount.moveFile, hidden.createFile_eq rooted]
  split <;> exact ⟨_, rfl⟩

theorem renameDirectory_crossing (crosses : Crosses key source ∨ Crosses key goal) :
    ∃ e, mount.renameDirectory disk source goal = (.error e, disk) := by
  refine course_crossing rooted node linked (mount.renameDirectory_course disk source goal)
    (fun hidden => hidden.subdirectory?_eq rooted) (fun hidden found => hidden.renameDirectory_eq rooted found) ?_
    crosses
  intro dir home old other new hidden
  rw [Mount.moveDirectory, hidden.createSubdirectory_eq rooted]
  split <;> exact ⟨_, rfl⟩

end Rename

theorem stands_of_listed (rooted : disk.Rooted root place) {dir : DirectoryView DirectoryNode}
    (node : dir.node = ⟨root, root.path ++ names⟩) (plain : disk.Plain place names) {filter : UInt32}
    {record : Wire.DirectoryEntry} (listed : record ∈ (Listing.ofDirectory disk dir filter).remaining) :
    ∃ entry, disk.find? (place ++ (names ++ [record.name])) = some entry ∧ entry.isLink = false ∧
      (record.kind = .directory ↔ entry = .directory) := by
  have last : ∀ {name}, disk.Plain place (names ++ [name]) → lastName (root.path ++ (names ++ [name])) = name := by
    intro name longer
    rw [← List.append_assoc]
    exact lastName_concat (longer.proper name (by simp)) _
  rw [Listing.ofDirectory, List.mem_append] at listed
  rcases listed with among | among
  · split at among
    · obtain ⟨file, child, rfl⟩ := List.mem_map.mp among
      obtain ⟨spot, held, rfl⟩ := List.mem_map.mp child
      obtain ⟨there, seen, rfl⟩ := List.mem_map.mp held
      obtain ⟨name, rfl, longer, entry, stands, fits⟩ := plain_of_childPaths rooted node plain noLink_isFile seen
      refine ⟨entry, ?_, ?_⟩
      · simp only [FileView.name, Backing.fileName, last longer, stands]
      · cases entry with
        | file bytes => exact ⟨rfl, by simp⟩
        | directory | link => cases fits
    · cases among
  · split at among
    · obtain ⟨sub, child, rfl⟩ := List.mem_map.mp among
      obtain ⟨spot, held, rfl⟩ := List.mem_map.mp child
      obtain ⟨there, seen, rfl⟩ := List.mem_map.mp held
      obtain ⟨name, rfl, longer, entry, stands, fits⟩ := plain_of_childPaths rooted node plain noLink_isDirectory seen
      refine ⟨entry, ?_, ?_⟩
      · simp only [DirectoryView.name, Backing.directoryName, last longer, stands]
      · cases entry with
        | directory => exact ⟨rfl, by simp⟩
        | file | link => cases fits
    · cases among

end Disk

section Client

variable {client : HostClient} {fs : FileSystem DirectoryNode} (rooted : client.storage.Rooted root place)
  (node : fs.mount.root.node = ⟨root, root⟩)
include rooted node

theorem stands_of_openDirectory {text : String} {filter : UInt32} {listing : Listing}
    (opened : fs.openDirectory client.storage text filter = .ok listing) :
    ∃ names, Mount.normalize text = .ok names ∧ ∀ record ∈ listing.remaining,
      ∃ entry, client.storage.find? (place ++ (names ++ [record.name])) = some entry ∧ entry.isLink = false ∧
        (record.kind = .directory ↔ entry = .directory) := by
  simp only [FileSystem.openDirectory, bind, Except.bind, pure, Except.pure, Mount.openDirectory] at opened
  cases normal : Mount.normalize text with
  | error e => simp [normal] at opened
  | ok names =>
    cases reached : fs.mount.root.descend? client.storage names with
    | none => simp [normal, reached] at opened
    | some dir =>
      simp only [normal, reached, Except.ok.injEq] at opened
      obtain ⟨here, plain⟩ := plain_of_descend?_root rooted node reached
      exact ⟨names, rfl, fun record listed => stands_of_listed rooted here plain (opened ▸ listed)⟩

theorem path_crossing {target text : String} (linked : client.storage.find? (place ++ key) = some (.link target))
    (crosses : Crosses key text) {request : PathRequest} (named : text ∈ request.paths) :
    ∃ e, client.path fs request = (.error (.refused e), client) := by
  cases request with
  | commit | freeSpace | totalSpace => cases named
  | createFile path size =>
    cases List.mem_singleton.mp named
    exact Client.afterChange_refused (createFile_crossing rooted node linked crosses size)
  | deleteFile path =>
    cases List.mem_singleton.mp named
    exact Client.afterChange_refused (deleteFile_crossing rooted node linked crosses)
  | createDirectory path =>
    cases List.mem_singleton.mp named
    exact Client.afterChange_refused (createDirectory_crossing rooted node linked crosses)
  | deleteDirectory path | deleteDirectoryRecursively path | cleanDirectoryRecursively path =>
    cases List.mem_singleton.mp named
    exact Client.afterChange_refused (onSubdirectory_crossing rooted node linked crosses _)
  | renameFile source goal =>
    refine Client.afterChange_refused (renameFile_crossing rooted node linked ?_)
    rcases List.mem_pair.mp named with rfl | rfl
    · exact .inl crosses
    · exact .inr crosses
  | renameDirectory source goal =>
    refine Client.afterChange_refused (renameDirectory_crossing rooted node linked ?_)
    rcases List.mem_pair.mp named with rfl | rfl
    · exact .inl crosses
    · exact .inr crosses
  | entryType path =>
    cases List.mem_singleton.mp named
    obtain ⟨e, refused⟩ := entryType_crossing rooted node linked crosses
    exact ⟨e, by simp only [Client.path, refused, Client.ofExcept, Client.refuse]⟩
  | openFile path mode =>
    cases List.mem_singleton.mp named
    have refused : ∃ e, fs.openFile client.storage text mode = .error e := by
      simp only [FileSystem.openFile, bind, Except.bind]
      split
      · exact ⟨_, rfl⟩
      · rename_i mode _
        obtain ⟨e, refused⟩ := openFile_crossing rooted node linked crosses mode
        exact ⟨e, by rw [refused]⟩
    obtain ⟨e, refused⟩ := refused
    exact ⟨e, by simp only [Client.path, refused, Client.refuse]⟩
  | openDirectory path filter =>
    cases List.mem_singleton.mp named
    obtain ⟨e, refused⟩ := openDirectory_crossing rooted node linked crosses
    exact ⟨e, by simp only [Client.path, FileSystem.openDirectory, bind, Except.bind, refused, Client.refuse]⟩

end Client

/-- Links below the root of a client's mounts are not shown, and nothing is done along them. -/
structure HidesLinks (client : HostClient) (place : Location) : Prop where
  /-- What is asked is answered as if no link stood there; what is opened is the same, and as large. -/
  asked : ∀ handle request, request.isChange = false →
    let bare : HostClient := { client with storage := client.storage.unlinked place }
    (bare.step (.path handle request)).1 = (client.step (.path handle request)).1 ∧
      (bare.step (.path handle request)).2.table = (client.step (.path handle request)).2.table
  /-- What a directory lists stands there as a file or as a directory. -/
  listed : ∀ handle fs text filter listing, client.table.fileSystem handle = .ok fs →
    fs.openDirectory client.storage text filter = .ok listing →
      ∃ names, Mount.normalize text = .ok names ∧ ∀ record ∈ listing.remaining,
        ∃ entry, client.storage.find? (place ++ (names ++ [record.name])) = some entry ∧ entry.isLink = false ∧
          (record.kind = .directory ↔ entry = .directory)
  /-- A request on a path that leads to a link, or through one, is refused and changes nothing. -/
  refused : ∀ handle request text key target, text ∈ request.paths → Crosses key text →
    client.storage.find? (place ++ key) = some (.link target) →
      ∃ e, client.step (.path handle request) = (.error (.refused e), client)

theorem hides_links {client : HostClient} (rooted : client.storage.Rooted root place)
    (on : client.table.All (·.IsOn root)) : HidesLinks client place := by
  have root : ∀ {handle fs}, client.table.fileSystem handle = .ok fs → fs.mount.root.node = ⟨root, root⟩ :=
    fun found => on _ _ (Table.find?_of_fileSystem found)
  refine ⟨fun handle request asks => ?_, fun handle fs text filter listing found opened => ?_,
    fun handle request text key target named crosses linked => ?_⟩
  · simp only [Client.step]
    cases found : client.table.fileSystem handle with
    | error e => exact ⟨rfl, rfl⟩
    | ok fs =>
      have same := (path_asked rooted.mirrors_unlinked (placed_of_fileSystem on place found) asks).2
      simp only [Client.withSession, same]
      trivial
  · exact stands_of_openDirectory rooted (root found) opened
  · simp only [Client.step]
    cases found : client.table.fileSystem handle with
    | error e => exact ⟨e, rfl⟩
    | ok fs => exact path_crossing rooted (root found) linked crosses named

end GuestStorage.Host
