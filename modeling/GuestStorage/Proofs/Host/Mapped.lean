import GuestStorage.Proofs.Host.Trees
import GuestStorage.Proofs.PathMap.Faithful

namespace GuestStorage

open Memory (Content)

namespace Host

open GuestStorage.Tree Keyed
open PathMap (Faithful)
open Session (Listing)

def Entry.ofContent : Content → Entry
  | .file bytes => .file bytes
  | .directory => .directory

def Entry.content : Entry → Content
  | .file bytes => .file bytes
  | .directory | .link _ => .directory

theorem Entry.ofContent_injective : Function.Injective ofContent := by
  intro one other same
  cases one <;> cases other <;> simp_all [ofContent]

theorem filter_asked {wanted : Entry → Bool} {filter : UInt32} {chosen : Prop} [Decidable chosen]
    (same : ∀ {entry}, wanted entry = true → PathMap.asked filter entry.content = decide chosen)
    (children : List (String × Entry)) :
    (children.filter (wanted ·.2)).filter (fun c => PathMap.asked filter c.2.content) =
      if chosen then children.filter (wanted ·.2) else [] := by
  have known : ∀ c ∈ children.filter (wanted ·.2), PathMap.asked filter c.2.content = decide chosen :=
    fun c kept => same (List.mem_filter.mp kept).2
  rw [List.filter_congr known]
  by_cases given : chosen <;> simp [given]

theorem asked_of_isFile (filter : UInt32) {entry : Entry} (isFile : DirectoryNode.isFile entry = true) :
    PathMap.asked filter entry.content = decide (filter &&& 3 = 0 ∨ filter &&& 2 ≠ 0) := by
  cases entry with
  | file => rfl
  | directory | link => cases isFile

theorem asked_of_isDirectory (filter : UInt32) {entry : Entry} (isDirectory : DirectoryNode.isDirectory entry = true) :
    PathMap.asked filter entry.content = decide (filter &&& 3 = 0 ∨ filter &&& 1 ≠ 0) := by
  cases entry with
  | directory => rfl
  | file | link => cases isDirectory

namespace View

variable {map : PathMap} {key source target : List String} {content : Content}

def ofMap (map : PathMap) : View := fun key => (map.find? key).map Entry.ofContent

theorem ofMap_eq_some (content : Content) : ofMap map key = some (.ofContent content) ↔ map.find? key = some content := by
  rw [ofMap, Option.map_eq_some_iff]
  constructor
  · rintro ⟨other, found, same⟩
    exact Entry.ofContent_injective same ▸ found
  · exact fun found => ⟨content, found, rfl⟩

theorem ofMap_eq_directory : ofMap map key = some .directory ↔ map.find? key = some .directory :=
  ofMap_eq_some .directory

theorem ofMap_eq_file {bytes : Bytes} : ofMap map key = some (.file bytes) ↔ map.find? key = some (.file bytes) :=
  ofMap_eq_some (.file bytes)

theorem ofMap_eq_none : ofMap map key = none ↔ map.find? key = none := Option.map_eq_none_iff

theorem ofMap_insert (free : map.find? key = none) :
    ofMap (map.insert key content) = (ofMap map).set key (.ofContent content) := by
  funext other
  rw [ofMap, set, PathMap.find?_insert free]
  split <;> rfl

theorem ofMap_remove (below : key ≠ []) : ofMap (map.remove key) = (ofMap map).cut key := by
  funext other
  rw [ofMap, cut, PathMap.find?_remove map below]
  split <;> rfl

theorem ofMap_clear : ofMap (map.clear key) = (ofMap map).clear key := by
  funext other
  rw [ofMap, View.clear, PathMap.find?_clear]
  split <;> rfl

theorem ofMap_move (proper : map.Proper) (fromTop : source ≠ []) (toTop : target ≠ [])
    (vacant : ∀ e ∈ map.entries, ¬ target <+: e.1) :
    ofMap (map.move source target) = rekey source target (ofMap map) := by
  funext other
  rw [ofMap, PathMap.find?_move proper fromTop toTop vacant, ← rekey_map]
  rfl

theorem admitted_ofMap {root : Root} (proper : map.Proper) (top : root.admits root = true)
    (roomy : map.Roomy fun key => root.admits (root.path ++ key) = true) : (ofMap map).Admitted root := by
  intro key entry shown
  by_cases here : key = []
  · rw [here, List.append_nil]
    exact top
  · obtain ⟨content, found, -⟩ := Option.map_eq_some_iff.mp shown
    exact roomy (key, content) (proper.mem_entries.mpr ⟨here, found⟩)

end View

namespace Disk

variable {disk after : Disk} {root : Root} {place : Location} {map : PathMap} {key front back : List String}
  {name new : String} {bytes : Bytes} {content : Content} {dir : DirectoryView DirectoryNode}

/-- Below a tidy root stands what a map says, and no file is longer than files on a host may become. -/
structure Mapped (disk : Disk) (root : Root) (place : Location) (map : PathMap) : Prop where
  shown : disk.Shown root place (.ofMap map)
  proper : map.Proper
  fits : ∀ e ∈ map.entries, e.2.size ≤ root.fileLimit

namespace Mapped

variable (mapped : disk.Mapped root place map)
include mapped

theorem top : root.admits root = true := by
  have above := mapped.shown.admitted [] .directory rfl
  rwa [List.append_nil] at above

theorem held (front : List String) (name : String) (content : Content)
    (there : map.find? (front ++ [name]) = some content) : map.find? front = some .directory :=
  View.ofMap_eq_directory.mp (mapped.shown.directory_above ((View.ofMap_eq_some content).mpr there) (by simp))

theorem descend?_iff : (viewAt root []).descend? disk key = some dir ↔
    map.find? key = some .directory ∧ dir = viewAt root key := by
  rw [Disk.descend?_iff mapped.shown.rooted mapped.shown.tidy mapped.top, mapped.shown.find?,
    View.ofMap_eq_directory]
  refine and_congr_right fun held => and_iff_right ?_
  exact mapped.shown.admitted key _ (View.ofMap_eq_directory.mpr held)

theorem file?_iff (held : map.find? front = some .directory) {file : FileView FileNode} :
    (viewAt root front).file? disk name = some file ↔
      (∃ bytes, map.find? (front ++ [name]) = some (.file bytes)) ∧ file = fileAt root (front ++ [name]) := by
  rw [mapped.shown.file?_eq (View.ofMap_eq_directory.mpr held), View.ofMap, Option.map_eq_some_iff]
  cases map.find? (front ++ [name]) with
  | none => simp
  | some content => cases content <;> simp [Option.filter_some, Entry.ofContent, DirectoryNode.isFile, eq_comm]

theorem subdirectory?_iff (held : map.find? front = some .directory) {sub : DirectoryView DirectoryNode} :
    (viewAt root front).subdirectory? disk name = some sub ↔
      map.find? (front ++ [name]) = some .directory ∧ sub = viewAt root (front ++ [name]) := by
  rw [mapped.shown.subdirectory?_eq (View.ofMap_eq_directory.mpr held), View.ofMap, Option.map_eq_some_iff]
  cases map.find? (front ++ [name]) with
  | none => simp
  | some content => cases content <;> simp [Option.filter_some, Entry.ofContent, DirectoryNode.isDirectory, eq_comm]

theorem usable (held : map.find? key = some content) : ∀ name ∈ key, Path.Usable name :=
  mapped.shown.usable ((View.ofMap_eq_some content).mpr held)

theorem vacant (free : map.find? key = none) : ∀ e ∈ map.entries, ¬ key <+: e.1 := by
  rintro e listed ⟨rest, whole⟩
  have there := (mapped.proper.mem_entries.mp listed).2
  have none := mapped.shown.absent_below (View.ofMap_eq_none.mpr free) rest
  rw [whole, View.ofMap_eq_none, there] at none
  cases none

section Changes

theorem plain (held : map.find? front = some .directory) (usable : Path.Usable name) :
    ∀ other ∈ front ++ [name], Path.IsPlain other := by
  intro other among
  have fit : Path.Usable other := by
    rcases List.mem_append.mp among with above | last
    · exact mapped.usable held other above
    · exact List.mem_singleton.mp last ▸ usable
  exact ⟨fit.isName, fit.proper⟩

theorem inserted (held : map.find? front = some .directory) (usable : Path.Usable name)
    (free : map.find? (front ++ [name]) = none) (small : content.size ≤ root.fileLimit)
    (short : content.size < Memory.Store.endLimit)
    (shown : after.Shown root place ((View.ofMap map).set (front ++ [name]) (.ofContent content))) :
    after.Mapped root place (map.insert (front ++ [name]) content) := by
  refine ⟨View.ofMap_insert free ▸ shown, mapped.proper.insert free (mapped.plain held usable) short,
    fun e listed => ?_⟩
  rcases List.mem_append.mp listed with old | own
  · exact mapped.fits e old
  · exact List.mem_singleton.mp own ▸ small

theorem removed (below : key ≠ []) (shown : after.Shown root place ((View.ofMap map).cut key)) :
    after.Mapped root place (map.remove key) :=
  ⟨View.ofMap_remove below ▸ shown, mapped.proper.filter _,
    fun e listed => mapped.fits e (List.mem_of_mem_filter listed)⟩

theorem cleared (shown : after.Shown root place ((View.ofMap map).clear key)) :
    after.Mapped root place (map.clear key) :=
  ⟨View.ofMap_clear ▸ shown, mapped.proper.filter _, fun e listed => mapped.fits e (List.mem_of_mem_filter listed)⟩

theorem admitted_moved (fromTop : key ≠ []) (held : map.find? back = some .directory) (usable : Path.Usable new)
    (free : map.find? (back ++ [new]) = none)
    (roomy : (map.move key (back ++ [new])).Roomy fun key => root.admits (root.path ++ key) = true) :
    View.Admitted (rekey key (back ++ [new]) (View.ofMap map)) root := by
  have toTop : back ++ [new] ≠ [] := by simp
  have vacant := mapped.vacant free
  rw [← View.ofMap_move mapped.proper fromTop toTop vacant]
  exact View.admitted_ofMap (mapped.proper.move toTop (mapped.plain held usable) vacant) mapped.top roomy

theorem moved (fromTop : key ≠ []) (held : map.find? back = some .directory) (usable : Path.Usable new)
    (free : map.find? (back ++ [new]) = none)
    (shown : after.Shown root place (rekey key (back ++ [new]) (View.ofMap map))) :
    after.Mapped root place (map.move key (back ++ [new])) := by
  have vacant := mapped.vacant free
  have toTop : back ++ [new] ≠ [] := by simp
  refine ⟨View.ofMap_move mapped.proper fromTop toTop vacant ▸ shown,
    mapped.proper.move toTop (mapped.plain held usable) vacant, fun e listed => ?_⟩
  obtain ⟨old, among, rfl⟩ := List.mem_map.mp listed
  exact mapped.fits old among

end Changes

section Listing

theorem children_perm (key : List String) : (map.entries.filter fun e => e.1.dropLast = key).Perm
    ((disk.children (place ++ key)).map fun c => (key ++ [c.1], c.2.content)) := by
  refine (List.perm_ext_iff_of_nodup (mapped.proper.distinct.of_map.filter _) ?_).mpr fun e => ?_
  · have distinct := mapped.shown.rooted.sound.children_nodup (place ++ key)
    refine distinct.of_map.map_on fun one listed other also same => ?_
    exact List.inj_on_of_nodup_map distinct listed also (by simpa using (Prod.mk.inj same).1)
  · rw [mapped.proper.mem_inside, List.mem_map]
    constructor
    · rintro ⟨listed, name, here⟩
      obtain ⟨there, content⟩ := e
      subst here
      have stands := (View.ofMap_eq_some content).mpr (mapped.proper.mem_entries.mp listed).2
      refine ⟨(name, .ofContent content), ?_, by cases content <;> rfl⟩
      rw [mapped.shown.rooted.sound.mem_children, mapped.shown.find?_child]
      exact stands
    · rintro ⟨⟨name, entry⟩, listed, rfl⟩
      rw [mapped.shown.rooted.sound.mem_children, mapped.shown.find?_child] at listed
      obtain ⟨content, there, rfl⟩ := Option.map_eq_some_iff.mp listed
      refine ⟨mapped.proper.mem_entries.mpr ⟨by simp, ?_⟩, name, rfl⟩
      cases content <;> exact there

theorem kinds_perm (key : List String) :
    ((disk.children (place ++ key)).filter (DirectoryNode.isFile ·.2) ++
      (disk.children (place ++ key)).filter (DirectoryNode.isDirectory ·.2)).Perm (disk.children (place ++ key)) := by
  refine .trans (.of_eq (congrArg _ (List.filter_congr fun c listed => ?_)))
    (List.filter_append_perm (fun c : String × Entry => DirectoryNode.isFile c.2) _)
  obtain ⟨name, entry⟩ := c
  rw [mapped.shown.rooted.sound.mem_children, mapped.shown.find?_child] at listed
  cases entry with
  | file | directory => rfl
  | link text => exact absurd listed (mapped.shown.not_link text)

theorem find?_of_child {c : String × Entry} (listed : c ∈ disk.children (place ++ key)) :
    View.ofMap map (key ++ [c.1]) = some c.2 := by
  rwa [mapped.shown.rooted.sound.mem_children, mapped.shown.find?_child] at listed

theorem map_files_congr {α : Type} {f g : String × Entry → α}
    (same : ∀ {name bytes}, map.find? (key ++ [name]) = some (.file bytes) →
      f (name, .file bytes) = g (name, .file bytes)) :
    ((disk.children (place ++ key)).filter (DirectoryNode.isFile ·.2)).map f =
      ((disk.children (place ++ key)).filter (DirectoryNode.isFile ·.2)).map g := by
  refine List.map_congr_left fun c kept => ?_
  obtain ⟨listed, isFile⟩ := List.mem_filter.mp kept
  have found := mapped.find?_of_child listed
  obtain ⟨name, entry⟩ := c
  cases entry with
  | directory | link => cases isFile
  | file bytes => exact same (View.ofMap_eq_file.mp found)

theorem map_directories_congr {α : Type} {f g : String × Entry → α}
    (same : ∀ {name}, map.find? (key ++ [name]) = some .directory → f (name, .directory) = g (name, .directory)) :
    ((disk.children (place ++ key)).filter (DirectoryNode.isDirectory ·.2)).map f =
      ((disk.children (place ++ key)).filter (DirectoryNode.isDirectory ·.2)).map g := by
  refine List.map_congr_left fun c kept => ?_
  obtain ⟨listed, isDirectory⟩ := List.mem_filter.mp kept
  have found := mapped.find?_of_child listed
  obtain ⟨name, entry⟩ := c
  cases entry with
  | file | link => cases isDirectory
  | directory => exact same (View.ofMap_eq_directory.mp found)

theorem sizeBelow_file (there : map.find? key = some (.file bytes)) : map.sizeBelow key = 0 := by
  have bare : map.below key = [] := by
    refine List.filter_eq_nil_iff.mpr fun e listed below => ?_
    obtain ⟨⟨rest, whole⟩, apart⟩ := of_decide_eq_true below
    have some_ : rest ≠ [] := fun none => apart (by rw [← whole, none, List.append_nil])
    have found := (mapped.proper.mem_entries.mp listed).2
    rw [← whole] at found
    have above := PathMap.directory_above mapped.held some_ found
    rw [there] at above
    cases above
  rw [PathMap.sizeBelow, bare]
  rfl

theorem sizeWithin_eq {depth : Nat} (there : map.find? key = some .directory)
    (room : ∀ more, map.find? (key ++ more) = some .directory → more.length < depth) :
    (viewAt root key).sizeWithin disk depth = map.sizeBelow key := by
  induction depth generalizing key with
  | zero => exact absurd (room [] (by rwa [List.append_nil])) (by simp)
  | succ depth ih =>
    have directory := View.ofMap_eq_directory.mpr there
    rw [DirectoryView.sizeWithin_succ, mapped.shown.files_eq directory, mapped.shown.subdirectories_eq directory,
      mapped.proper.sizeBelow_eq mapped.held key, ((mapped.children_perm key).map _).sum_nat]
    simp only [List.map_map, Shown.childNames]
    rw [← ((mapped.kinds_perm key).map _).sum_nat, List.map_append, List.sum_append]
    congr 2
    · refine mapped.map_files_congr fun {name bytes} found => ?_
      have size := mapped.shown.file_size (View.ofMap_eq_file.mpr found)
      simp only [Function.comp_apply, size, mapped.sizeBelow_file found]
      rfl
    · refine mapped.map_directories_congr fun {name} found => ?_
      have size := ih found fun more inside => by
        have bound := room ([name] ++ more) (by rwa [← List.append_assoc])
        simp only [List.length_append, List.length_singleton] at bound
        omega
      simp only [Function.comp_apply, size, Entry.content, Content.size, Nat.zero_add]

theorem size_eq (there : map.find? key = some .directory) :
    (viewAt root key).size disk = map.sizeBelow key := by
  refine mapped.sizeWithin_eq there fun more inside => ?_
  have stand := mapped.shown.stand (View.ofMap_eq_directory.mpr there)
  exact stand.lt_reach ((mapped.shown.find? (key ++ more)).trans (View.ofMap_eq_directory.mpr inside))

theorem record_file (there : map.find? (key ++ [name]) = some (.file bytes)) :
    (⟨(fileAt root (key ++ [name])).name disk, .file,
      UInt64.ofNat ((fileAt root (key ++ [name])).size disk)⟩ : Wire.DirectoryEntry) =
      map.record (key ++ [name], .file bytes) := by
  have found := View.ofMap_eq_file.mpr there
  rw [Shown.name_fileAt (mapped.shown.proper found), mapped.shown.file_size found]
  simp [PathMap.record]

theorem record_directory (there : map.find? (key ++ [name]) = some .directory) :
    (⟨(viewAt root (key ++ [name])).name disk, .directory,
      UInt64.ofNat ((viewAt root (key ++ [name])).size disk)⟩ : Wire.DirectoryEntry) =
      map.record (key ++ [name], .directory) := by
  rw [name_viewAt (mapped.shown.proper (View.ofMap_eq_directory.mpr there)), mapped.size_eq there]
  simp [PathMap.record]

theorem records_perm (there : map.find? key = some .directory) (filter : UInt32) :
    (Listing.ofDirectory disk (viewAt root key) filter).remaining.Perm (map.records key filter) := by
  have directory := View.ofMap_eq_directory.mpr there
  let line (c : String × Entry) : Wire.DirectoryEntry := map.record (key ++ [c.1], c.2.content)
  have files : Listing.fileEntries disk (viewAt root key) =
      ((disk.children (place ++ key)).filter (DirectoryNode.isFile ·.2)).map line := by
    rw [Listing.fileEntries, mapped.shown.files_eq directory, Shown.childNames]
    simp only [List.map_map]
    exact mapped.map_files_congr mapped.record_file
  have directories : Listing.directoryEntries disk (viewAt root key) =
      ((disk.children (place ++ key)).filter (DirectoryNode.isDirectory ·.2)).map line := by
    rw [Listing.directoryEntries, mapped.shown.subdirectories_eq directory, Shown.childNames]
    simp only [List.map_map]
    exact mapped.map_directories_congr mapped.record_directory
  have kinds := ((mapped.kinds_perm key).filter fun c => PathMap.asked filter c.2.content).map line
  rw [List.filter_append, filter_asked (asked_of_isFile filter), filter_asked (asked_of_isDirectory filter)] at kinds
  rw [PathMap.records_eq]
  refine .trans (.trans (.of_eq ?_) kinds) ?_
  · rw [Listing.remaining_ofDirectory, files, directories, List.map_append, apply_ite (List.map line),
      apply_ite (List.map line), List.map_nil]
  · refine .trans (.of_eq ?_) (((mapped.children_perm key).filter _).map map.record).symm
    rw [List.filter_map, List.map_map]
    rfl

end Listing

end Mapped

end Disk

end Host

end GuestStorage
