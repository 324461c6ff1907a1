import GuestStorage.Proofs.PathMap.Shows

namespace GuestStorage

open Memory GuestStorage.Tree
open Session (Listing)

def Memory.Node.record (s : Store) : Node → Wire.DirectoryEntry
  | file id => ⟨s.fileName id, .file, UInt64.ofNat (s.fileBytes id).length⟩
  | directory id => ⟨s.directoryName id, .directory, UInt64.ofNat ((DirectoryView.direct id).size s)⟩

theorem Memory.listing_eq (s : Store) (dir : DirectoryId) (filter : UInt32) :
    (Listing.ofDirectory s (.direct dir) filter).remaining =
      (((Node.directory dir).children s).filter fun y =>
        PathMap.asked filter (y.entry s).content).map (Node.record s) := by
  have files : ((s.files dir).map Node.file).filter (fun y => PathMap.asked filter (y.entry s).content) =
      if filter &&& 3 = 0 ∨ filter &&& 2 ≠ 0 then (s.files dir).map Node.file else [] := by
    by_cases chosen : filter &&& 3 = 0 ∨ filter &&& 2 ≠ 0 <;>
      simp [List.filter_map, Function.comp_def, Node.entry, PathMap.asked, chosen]
  have subdirectories : ((s.subdirectories dir).map Node.directory).filter
      (fun y => PathMap.asked filter (y.entry s).content) =
      if filter &&& 3 = 0 ∨ filter &&& 1 ≠ 0 then (s.subdirectories dir).map Node.directory else [] := by
    by_cases chosen : filter &&& 3 = 0 ∨ filter &&& 1 ≠ 0 <;>
      simp [List.filter_map, Function.comp_def, Node.entry, PathMap.asked, chosen]
  rw [Node.children, List.filter_append, files, subdirectories, List.map_append, Listing.remaining_ofDirectory,
    apply_ite (List.map _), apply_ite (List.map _)]
  simp [Listing.fileEntries, Listing.directoryEntries, Function.comp_def, Node.record, store_self]

namespace PathMap

open Keyed Memory Node GuestStorage.Tree
open GuestStorage.Path (IsPlain)
open Session (FileSystem OpenFile SpaceReport)

variable {s : Store} {root dir sub : DirectoryId} {file : FileId} {map : PathMap} {path : List String}
  {name : String}

namespace Shows

variable (shows : Shows s root map)
include shows

theorem content?_eq (path : List String) : (Node.directory root).content? s path = map.find? path := by
  rw [content?, shows.lookup, Option.map_map]
  exact Option.map_id_fun' ▸ rfl

theorem below_perm (reached : (Node.directory root).descend? s path = some (.directory dir)) :
    (map.below path).Perm ((s.entries dir).map fun e => (path ++ e.1, e.2)) := by
  refine (List.perm_ext_iff_of_nodup (shows.proper.distinct.of_map.filter _) ?_).mpr fun e => ?_
  · refine (shows.sound.entries_keys_nodup dir).of_map.map fun one other same => ?_
    obtain ⟨key, content⟩ := Prod.mk.inj same
    exact Prod.ext (List.append_cancel_left key) content
  · obtain ⟨key, content⟩ := e
    simp only [List.mem_filter, shows.proper.mem_entries, decide_eq_true_eq, List.mem_map]
    constructor
    · rintro ⟨⟨-, there⟩, ⟨rest, rfl⟩, apart⟩
      refine ⟨(rest, content), shows.sound.mem_entries.mpr ⟨?_, ?_⟩, rfl⟩
      · rintro rfl
        exact apart (List.append_nil path)
      · rwa [← content?_append reached, shows.content?_eq]
    · rintro ⟨⟨rest, content⟩, listed, same⟩
      cases same
      obtain ⟨proper, there⟩ := shows.sound.mem_entries.mp listed
      rw [← content?_append reached, shows.content?_eq] at there
      exact ⟨⟨by simp [proper], there⟩, List.prefix_append path rest, by simpa using proper⟩

theorem sizeBelow_eq (reached : (Node.directory root).descend? s path = some (.directory dir)) :
    map.sizeBelow path = (DirectoryView.direct dir).size s := by
  rw [sizeBelow, ((shows.below_perm reached).map _).sum_nat, Store.size_eq_sum_entries, List.map_map]
  rfl

theorem children_perm (reached : (Node.directory root).descend? s path = some (.directory dir)) :
    (map.entries.filter fun e => e.1.dropLast = path).Perm
      (((Node.directory dir).children s).map fun y => (path ++ [y.name s], (y.entry s).content)) := by
  refine (List.perm_ext_iff_of_nodup (shows.proper.distinct.of_map.filter _) ?_).mpr fun e => ?_
  · have distinct := shows.sound.children_names_nodup (.directory dir)
    refine distinct.of_map.map_on fun one listed other also same => ?_
    have names := List.append_cancel_left (Prod.mk.inj same).1
    exact List.inj_on_of_nodup_map distinct listed also (List.singleton_inj.mp names)
  · obtain ⟨key, content⟩ := e
    simp only [List.mem_filter, shows.proper.mem_entries, decide_eq_true_eq, List.mem_map]
    constructor
    · rintro ⟨⟨proper, there⟩, rfl⟩
      obtain ⟨front, name, rfl⟩ := (List.eq_nil_or_concat' key).resolve_left proper
      rw [List.dropLast_concat] at reached ⊢
      rw [shows.find?_child reached] at there
      obtain ⟨y, found, rfl⟩ := Option.map_eq_some_iff.mp there
      obtain ⟨owned, rfl⟩ := shows.sound.child?_eq_some.mp found
      exact ⟨y, shows.sound.mem_children.mpr owned, rfl⟩
    · rintro ⟨y, listed, same⟩
      cases same
      have found := shows.sound.child?_eq_some.mpr ⟨shows.sound.mem_children.mp listed, rfl⟩
      refine ⟨⟨by simp, ?_⟩, List.dropLast_concat⟩
      rw [shows.find?_child reached, found]
      rfl

theorem records_perm (reached : (Node.directory root).descend? s path = some (.directory dir))
    (filter : UInt32) :
    (Listing.ofDirectory s (.direct dir) filter).remaining.Perm (map.records path filter) := by
  rw [records_eq, listing_eq]
  refine List.Perm.trans (.of_eq ?_) (((shows.children_perm reached).filter _).map map.record).symm
  rw [List.filter_map, List.map_map]
  refine List.map_congr_left fun y chosen => ?_
  have owned := shows.sound.mem_children.mp (List.mem_of_mem_filter chosen)
  cases y with
  | file file => simp [record, Node.entry, Node.record, Node.name]
  | directory sub =>
    have below : (Node.directory root).descend? s (path ++ [s.directoryName sub]) = some (.directory sub) :=
      (descend?_concat_of_reached reached _).trans (shows.sound.child?_eq_some.mpr ⟨owned, rfl⟩)
    simp [record, Node.entry, Node.record, Node.name, shows.sizeBelow_eq below]

theorem held {content : Content} (there : map.find? (path ++ [name]) = some content) :
    map.find? path = some .directory := by
  obtain ⟨x, reached, -⟩ := shows.descend?_of_find? there
  obtain ⟨dir, above, -⟩ := shows.sound.holder_of_descend?_concat reached
  exact (shows.found above).1

end Shows

end PathMap

end GuestStorage
