import GuestStorage.Proofs.PathMap.Changes

namespace GuestStorage.PathMap

open Keyed Memory Node GuestStorage.Tree
open GuestStorage.Path (IsPlain)

variable {s s' t : Store} {root dir sub home goal new : DirectoryId} {file : FileId} {map : PathMap}
  {x : Node} {front back source target : List String} {name newName : String} {bytes : Bytes}
  {lost : List Node}

namespace Shows

variable (shows : Shows s root map)
include shows

theorem moved (free : map.find? target = none) (fromTop : source ≠ [])
    (plain : ∀ other ∈ target, IsPlain other) (sound' : s'.Sound)
    (lookup : ∀ path, (Node.directory root).lookup s' path =
      rekey source target ((Node.directory root).lookup s) path) :
    Shows s' root (map.move source target) := by
  have toTop := ne_nil_of_free free
  have vacant := shows.vacant free
  refine ⟨sound', shows.proper.move toTop plain vacant, fun path => ?_⟩
  rw [lookup, find?_move shows.proper fromTop toTop vacant, ← rekey_map]
  exact congrFun (congrArg (rekey source target) (funext shows.lookup)) path

theorem renamed (spot : Spot s root front dir newName) (sound' : s'.Sound)
    (found : (Node.directory dir).child? s name = some x)
    (free : (Node.directory dir).child? s newName = none) (effect : Renames s s' x newName) :
    Shows s' root (map.move (front ++ [name]) (front ++ [newName])) := by
  refine shows.moved ?_ (by simp) spot.plain sound' ?_
  · rw [shows.find?_child spot.reached, free]
    rfl
  · exact effect.lookup shows.sound sound' spot.reached found free

end Shows

theorem file_not_above (found : (Node.directory home).child? s name = some (.file file))
    (fromTop : (Node.directory root).descend? s front = some (.directory home))
    (toTop : (Node.directory root).descend? s back = some (.directory goal))
    (different : front ++ [name] ≠ back ++ [newName]) : ¬ front ++ [name] <+: back ++ [newName] := by
  intro within
  rcases List.prefix_concat_iff.mp within with whole | ⟨rest, below⟩
  · exact different whole
  · rw [← below, descend?_append, descend?_concat, fromTop, Option.bind_some, found, Option.bind_some]
      at toTop
    cases rest with
    | nil => cases toTop
    | cons other rest => cases toTop

theorem fileBytes_of_created {view : FileView FileId} (sound : s.Sound) (held : (Node.file file).held s = true)
    (created : (DirectoryView.direct dir).createFile s name = (some view, t)) :
    t.fileBytes file = s.fileBytes file := by
  obtain ⟨s', ⟨refused, -⟩ | ⟨copy, accepted, -, -, adds⟩⟩ := direct_createFile (s := s) sound dir name
  · rw [created] at refused
    cases refused
  · rw [created] at accepted
    cases accepted
    have shown := (adds.grows sound).entry (.file file) held
    exact Content.file.inj (congrArg Entry.content shown)

theorem lookup_of_file_moved {top : Node} (sound : s.Sound) (soundMid : t.Sound) (sound' : s'.Sound)
    (fromTop : top.descend? s front = some (.directory home))
    (toTop : top.descend? s back = some (.directory goal))
    (found : (Node.directory home).child? s name = some (.file file))
    (free : (Node.directory goal).child? s newName = none)
    (apart : ¬ front ++ [name] <+: back ++ [newName]) (writable : s.fileWritable file = true)
    (adds : Adds s t (.directory goal) x newName ⟨.file (s.fileBytes file), true⟩)
    (cuts : Cuts t s' [.file file]) (path : List String) :
    top.lookup s' path = rekey (front ++ [name]) (back ++ [newName]) (top.lookup s) path := by
  have here : top.descend? s (front ++ [name]) = some (.file file) := by
    rw [descend?_concat, fromTop]
    exact found
  have absent : top.descend? s (back ++ [newName]) = none := by
    rw [descend?_concat, toTop]
    exact free
  have unmet := not_prefix_of_absent here absent apart
  have still := (adds.grows sound).descend? sound soundMid here
  rw [cuts.lookup soundMid sound' still (by simp) List.mem_cons_self
    (fun z gone => List.mem_singleton.mp gone ▸ .refl _), adds.lookup sound soundMid free toTop, rekey]
  by_cases within : back ++ [newName] <+: path
  · obtain ⟨rest, rfl⟩ := within
    rw [if_neg (unmet rest).2, if_pos (List.prefix_append _ rest), List.drop_left, lookup_append here]
    cases rest with
    | nil => simp [lookup_nil, Node.entry, writable]
    | cons other rest =>
      rw [if_neg (by simp), file_lookup, Node.lookup, descend?_append, absent]
      rfl
  · have different : path ≠ back ++ [newName] := fun same => within (same ▸ List.prefix_refl _)
    rw [if_neg within, if_neg different]

namespace Shows

variable (shows : Shows s root map)
include shows

theorem file_fits (reached : (Node.directory root).descend? s front = some (.file file)) :
    (s.fileBytes file).length < Store.endLimit ∧ s.fileWritable file = true := by
  have pliable := shows.pliable reached
  exact ⟨pliable.length_lt, (shows.found reached).2⟩

theorem moveFile (spot : Spot s root front home name) (toSpot : Spot s root back goal newName)
    (found : (Node.directory home).child? s name = some (.file file))
    (free : (Node.directory goal).child? s newName = none)
    (different : front ++ [name] ≠ back ++ [newName]) :
    ∃ s', Mount.moveFile s (.direct file) (.direct home) name (.direct goal) newName = (.ok (), s') ∧
      Shows s' root (map.move (front ++ [name]) (back ++ [newName])) := by
  have here := spot.child found
  obtain ⟨short, writable⟩ := shows.file_fits here
  have apart := file_not_above found spot.reached toSpot.reached different
  have open₀ : (DirectoryView.direct home).isWritable s = true := shows.writable spot.reached
  obtain ⟨copy, s₁, s₂, s₃, created, resized, wrote, sound₃, adds⟩ := create_filled shows.sound
    (shows.writable toSpot.reached) (toSpot.plain newName (by simp)).1.1 free short
  have kept : (Node.directory home).child? s₃ name = some (.file file) :=
    (adds.grows shows.sound).child?_of_some shows.sound sound₃ found
  have open₃ : s₃.directoryWritable home = true := by
    have same := (adds.grows shows.sound).entry (.directory home)
      (shows.sound.parent_held (shows.sound.child?_eq_some.mp found).1).1
    exact (congrArg Entry.writable same).trans (shows.writable spot.reached)
  obtain ⟨s', deleted, sound', cuts⟩ := deleteFile_accepted sound₃ open₃ kept
  rw [Mount.moveFile, open₀, created]
  simp only [Bool.not_true, Bool.false_eq_true, if_false, direct_readAll]
  have same : (Stored.store s₁).fileBytes file = s.fileBytes file :=
    fileBytes_of_created shows.sound (shows.sound.parent_held (shows.sound.child?_eq_some.mp found).1).2 created
  simp only [same, resized, wrote, bne_self_eq_false, Bool.false_eq_true, if_false, deleted]
  refine ⟨s', rfl, shows.moved ?_ (by simp) toSpot.plain sound' fun path => ?_⟩
  · rw [shows.find?_child toSpot.reached, free]
    rfl
  · exact lookup_of_file_moved shows.sound sound₃ sound' spot.reached toSpot.reached found free apart
      writable adds cuts path

end Shows

theorem Pliable.within_reach {depth : Nat} (pliable : Pliable s x depth) (sound' : s'.Sound)
    (same : ∀ path, x.lookup s' path = x.lookup s path) : Pliable s' x s'.reach := by
  refine .of_reach sound' fun path entry shown => ?_
  rw [same] at shown
  obtain ⟨writable, named, short, -⟩ := pliable path entry shown
  exact ⟨writable, named, short⟩

theorem copyTree_accepted {depth : Nat} (sound : s.Sound) (sound' : s'.Sound)
    (pliable : Pliable s (.directory sub) depth)
    (adds : Adds s s' (.directory goal) (.directory new) newName ⟨.directory, true⟩)
    (apart : ¬ Within s (.directory sub) (.directory goal)) :
    ((DirectoryView.direct sub).copyTree s' (.direct new)).1 = true := by
  have grown := adds.grows sound
  have held : (Node.directory sub).held s = true := Store.held_of_writable pliable.directoryWritable
  have outside : ¬ Within s' (.directory sub) (.directory new) := by
    rintro ⟨path, reached⟩
    rcases List.eq_nil_or_concat' path with rfl | ⟨front, last, rfl⟩
    · have same := Option.some.inj reached
      have fresh := adds.fresh
      rw [← same, held] at fresh
      cases fresh
    · obtain ⟨holder, above, owned, -⟩ := sound'.descend?_concat_eq_some.mp reached
      rw [adds.parent?, if_pos rfl] at owned
      obtain rfl := Option.some.inj owned
      exact apart (grown.within sound sound' adds.present ⟨front, above⟩)
  have old : Node.directory sub ≠ .directory goal := fun same => apart (same ▸ .refl _)
  have writable : s'.directoryWritable new = true := by
    have shown := adds.entry (.directory new)
    rw [if_pos rfl] at shown
    exact congrArg Entry.writable shown
  exact copyTreeWithin_completes s'.reach s' sub new sound' writable outside (adds.bare sound sound')
    (Pliable.within_reach pliable sound' fun path => grown.lookup_apart sound sound' held apart path)

namespace Shows

variable (shows : Shows s root map)
include shows

/-- A complete copy of a directory at a free path and the removal of the directory move what the tree
    shows. -/
theorem moveDirectory (spot : Spot s root front home name) (toSpot : Spot s root back goal newName)
    (found : (Node.directory home).child? s name = some (.directory sub))
    (free : (Node.directory goal).child? s newName = none)
    (apart : ¬ front ++ [name] <+: back ++ [newName]) :
    ∃ s', Mount.moveDirectory s (.direct sub) (.direct home) name (.direct goal) newName = (.ok (), s') ∧
      Shows s' root (map.move (front ++ [name]) (back ++ [newName])) := by
  have here := spot.child found
  have absent : (Node.directory root).descend? s (back ++ [newName]) = none :=
    (descend?_concat_of_reached toSpot.reached _).trans free
  have unmet := not_prefix_of_absent here absent apart
  have pliable := shows.pliable here
  have open₀ : (DirectoryView.direct home).isWritable s = true := shows.writable spot.reached
  have isOutside : ¬ Within s (.directory sub) (.directory goal) := fun within =>
    apart ((shows.sound.prefix_of_within here within toSpot.reached).trans (List.prefix_append _ [newName]))
  obtain ⟨new, s₁, created, sound₁, adds⟩ := createSubdirectory_accepted shows.sound
    (shows.writable toSpot.reached) (toSpot.plain newName (by simp)).1.1 free
  obtain ⟨complete, s₂, copied, sound₂, grown, kept, -, still, there, outside, whole⟩ :=
    copyTree_grows (t := s) shows.sound spot.reached toSpot.reached found free apart
      (show (Stored.store s₁).Sound from sound₁) adds
  simp only [store_self] at sound₂ grown kept still outside whole
  have completed := copyTree_accepted shows.sound sound₁ pliable adds isOutside
  rw [copied] at completed
  obtain rfl : complete = true := completed
  have pliable₂ : Pliable s₂ (.directory sub) s₂.reach := by
    refine Pliable.within_reach pliable sound₂ fun path => ?_
    rw [← lookup_append here]
    rw [← lookup_append still]
    exact outside _ (unmet path).1
  have writable₂ : s₂.directoryWritable home = true := by
    have away : ¬ back ++ [newName] <+: front := by
      intro within
      have longer := within.trans (List.prefix_append front [name])
      exact (unmet []).1 (by simpa using longer)
    have shown := outside front away
    rw [Node.lookup, Node.lookup, grown.descend? shows.sound sound₂ spot.reached, spot.reached] at shown
    exact (congrArg Entry.writable (Option.some.inj shown)).trans open₀
  obtain ⟨s', lost, deleted, sound', cuts, below, gone⟩ :=
    deleteTree_accepted sound₂ writable₂ kept pliable₂
  rw [Mount.moveDirectory, open₀, created]
  simp only [Bool.not_true, Bool.false_eq_true, if_false, copied, deleted]
  refine ⟨s', rfl, shows.moved ?_ (by simp) toSpot.plain sound' fun path => ?_⟩
  · rw [shows.find?_child toSpot.reached, free]
    rfl
  · rw [cuts.lookup sound₂ sound' still (by simp) gone below, rekey]
    by_cases within : back ++ [newName] <+: path
    · obtain ⟨rest, rfl⟩ := within
      rw [if_neg (unmet rest).2, if_pos (List.prefix_append _ rest), List.drop_left]
      rw [whole rfl rest, shows.lookup, Option.map_map]
      rfl
    · rw [if_neg within]
      split
      · rfl
      · exact outside path within

theorem samePlace_iff (reached : (Node.directory root).descend? s front = some (.directory home))
    (reached' : (Node.directory root).descend? s back = some (.directory goal)) :
    Mount.samePlace s (.direct home) (.direct goal) = true ↔ front = back :=
  Memory.samePlace_iff (t := s) shows.sound (Store.held_of_writable (shows.writable reached)) reached reached'
    (fun other among => (shows.plain_of_reached reached other among).1)
    fun other among => (shows.plain_of_reached reached' other among).1

section InPlace

variable (spot : Spot s root front home newName) (free : (Node.directory home).child? s newName = none)
include spot free

theorem renamedFile (found : (Node.directory home).child? s name = some (.file file)) :
    ∃ s', (FileView.direct file).rename s newName = (some (.direct file), s') ∧
      Shows s' root (map.move (front ++ [name]) (front ++ [newName])) := by
  have here := (shows.spot_of_child spot.reached found).child found
  obtain ⟨s', renamed, sound', effect⟩ := rename_file_accepted shows.sound (shows.file_fits here).2
    (spot.plain newName (by simp)).1.1 found free
  exact ⟨s', renamed, shows.renamed spot sound' found free effect⟩

theorem renamedDirectory (found : (Node.directory home).child? s name = some (.directory sub)) :
    ∃ s', (DirectoryView.direct sub).rename s newName = (some (.direct sub), s') ∧
      Shows s' root (map.move (front ++ [name]) (front ++ [newName])) := by
  have here := (shows.spot_of_child spot.reached found).child found
  obtain ⟨s', renamed, sound', effect⟩ := rename_directory_accepted shows.sound (shows.writable here)
    (spot.plain newName (by simp)).1.1 found free
  exact ⟨s', renamed, shows.renamed spot sound' found free effect⟩

end InPlace

end Shows

end GuestStorage.PathMap
