import GuestStorage.Proofs.Keyed
import GuestStorage.Proofs.Memory.Nodes

namespace GuestStorage.Memory

open Keyed Node

structure Adds (s s' : Store) (dir new : Node) (called : String) (shown : Entry) : Prop where
  present : dir.held s = true
  fresh : new.held s = false
  held : ∀ x : Node, x.held s' = true ↔ x = new ∨ x.held s = true
  name : ∀ x : Node, x.name s' = if x = new then called else x.name s
  parent? : ∀ x : Node, x.parent? s' = if x = new then some dir else x.parent? s
  entry : ∀ x : Node, x.entry s' = if x = new then shown else x.entry s

structure Cuts (s s' : Store) (lost : List Node) : Prop where
  held : ∀ x : Node, x.held s' = x.held s
  name : ∀ x : Node, x.name s' = x.name s
  parent? : ∀ x : Node, x.parent? s' = if x ∈ lost then none else x.parent? s
  entry : ∀ x : Node, x.entry s' = x.entry s

structure Renames (s s' : Store) (node : Node) (called : String) : Prop where
  held : ∀ x : Node, x.held s' = x.held s
  name : ∀ x : Node, x.name s' = if x = node then called else x.name s
  parent? : ∀ x : Node, x.parent? s' = x.parent? s
  entry : ∀ x : Node, x.entry s' = x.entry s

structure Refills (s s' : Store) (node : Node) (shown : Entry) : Prop where
  held : ∀ x : Node, x.held s' = x.held s
  name : ∀ x : Node, x.name s' = x.name s
  parent? : ∀ x : Node, x.parent? s' = x.parent? s
  entry : ∀ x : Node, x.entry s' = if x = node then shown else x.entry s

/-- All nodes are what they were, and new ones stand only below a target or below new ones. -/
structure Grows (s s' : Store) (target : Node) : Prop where
  held : ∀ x : Node, x.held s = true → x.held s' = true
  name : ∀ x : Node, x.held s = true → x.name s' = x.name s
  parent? : ∀ x : Node, x.held s = true → x.parent? s' = x.parent? s
  entry : ∀ x : Node, x.held s = true → x.entry s' = x.entry s
  below : ∀ x y : Node, x.held s = false → x.parent? s' = some y → y = target ∨ y.held s = false

variable {s s' s'' : Store} {x y z dir new top node target : Node} {called : String} {shown : Entry}
  {lost more : List Node} {path : List String}

section Primitives

variable {holder sub : DirectoryId} {file : FileId} {lostFiles : List FileId} {gone : List DirectoryId}

theorem adds_file {bytes : Bytes} {writable : Bool}
    (effect : Store.AddsFile s s' holder file called bytes writable) :
    Adds s s' (.directory holder) (.file file) called ⟨.file bytes, writable⟩ := by
  have held := effect.held
  refine ⟨held, by simp [Node.held, effect.fresh], ?_, ?_, ?_, ?_⟩
  · intro x
    cases x with
    | file id => by_cases same : id = file <;> simp [Node.held, effect.fileNode, same]
    | directory id => simp [Node.held, effect.directoryNode]
  · intro x
    cases x <;> simp [Node.name, effect.fileName, effect.directoryName]
  · intro x
    cases x with
    | file id => by_cases same : id = file <;> simp [Node.parent?, effect.fileParent?, same]
    | directory id => simp [Node.parent?, effect.directoryParent?]
  · intro x
    cases x with
    | file id =>
      by_cases same : id = file <;> simp [Node.entry, effect.fileBytes, effect.fileWritable, same]
    | directory id => simp [Node.entry, effect.directoryWritable]

theorem adds_directory (effect : Store.AddsDirectory s s' holder sub called) :
    Adds s s' (.directory holder) (.directory sub) called ⟨.directory, true⟩ := by
  have held := effect.held
  refine ⟨held, by simp [Node.held, effect.fresh], ?_, ?_, ?_, ?_⟩
  · intro x
    cases x with
    | file id => simp [Node.held, effect.fileNode]
    | directory id => by_cases same : id = sub <;> simp [Node.held, effect.directoryNode, same]
  · intro x
    cases x with
    | file id => simp [Node.name, Store.fileName_of_node (effect.fileNode id)]
    | directory id => simp [Node.name, effect.directoryName]
  · intro x
    cases x with
    | file id => simp [Node.parent?, Store.fileParent?_of_node (effect.fileNode id)]
    | directory id => by_cases same : id = sub <;> simp [Node.parent?, effect.directoryParent?, same]
  · intro x
    cases x with
    | file id =>
      simp [Node.entry, Store.fileBytes_of_node (effect.fileNode id),
        Store.fileWritable_of_node (effect.fileNode id)]
    | directory id => by_cases same : id = sub <;> simp [Node.entry, effect.directoryWritable, same]

theorem cuts_of_drops (effect : Store.Drops s s' lostFiles gone) :
    Cuts s s' (lostFiles.map Node.file ++ gone.map Node.directory) := by
  refine ⟨?_, ?_, ?_, ?_⟩ <;> intro x <;> cases x
  · simp [Node.held, effect.fileNode]
  · simp [Node.held, effect.directoryNode]
  · simp [Node.name, effect.fileName]
  · simp [Node.name, effect.directoryName]
  · rename_i id
    by_cases left : id ∈ lostFiles <;> simp [Node.parent?, effect.fileParent?, left]
  · rename_i id
    by_cases left : id ∈ gone <;> simp [Node.parent?, effect.directoryParent?, left]
  · simp [Node.entry, effect.fileBytes, effect.fileWritable]
  · simp [Node.entry, effect.directoryWritable]

theorem renames_file (effect : Store.RenamesFile s s' file called)
    (held : (Node.file file).held s = true) : Renames s s' (.file file) called := by
  refine ⟨?_, ?_, ?_, ?_⟩ <;> intro x <;> cases x
  · simp [Node.held, effect.fileNode]
  · simp [Node.held, effect.directoryNode]
  · simp [Node.name, effect.fileName held]
  · simp [Node.name, Store.directoryName_of_node (effect.directoryNode _)]
  · simp [Node.parent?, effect.fileParent?]
  · simp [Node.parent?, Store.directoryParent?_of_node (effect.directoryNode _)]
  · simp [Node.entry, effect.fileBytes, effect.fileWritable]
  · simp [Node.entry, Store.directoryWritable_of_node (effect.directoryNode _)]

theorem renames_directory (effect : Store.RenamesDirectory s s' holder called)
    (held : (Node.directory holder).held s = true) : Renames s s' (.directory holder) called := by
  refine ⟨?_, ?_, ?_, ?_⟩ <;> intro x <;> cases x
  · simp [Node.held, effect.fileNode]
  · simp [Node.held, effect.directoryNode]
  · simp [Node.name, Store.fileName_of_node (effect.fileNode _)]
  · simp [Node.name, effect.directoryName held]
  · simp [Node.parent?, Store.fileParent?_of_node (effect.fileNode _)]
  · simp [Node.parent?, effect.directoryParent?]
  · simp [Node.entry, Store.fileBytes_of_node (effect.fileNode _),
      Store.fileWritable_of_node (effect.fileNode _)]
  · simp [Node.entry, effect.directoryWritable]

theorem refills_file {change : Bytes → Bytes} (effect : Store.FillsFile s s' file change)
    (held : (Node.file file).held s = true) :
    Refills s s' (.file file) ⟨.file (change (s.fileBytes file)), s.fileWritable file⟩ := by
  refine ⟨?_, ?_, ?_, ?_⟩ <;> intro x <;> cases x
  · simp [Node.held, effect.fileNode]
  · simp [Node.held, effect.directoryNode]
  · simp [Node.name, effect.fileName]
  · simp [Node.name, Store.directoryName_of_node (effect.directoryNode _)]
  · simp [Node.parent?, effect.fileParent?]
  · simp [Node.parent?, Store.directoryParent?_of_node (effect.directoryNode _)]
  · rename_i id
    by_cases same : id = file <;>
      simp [Node.entry, effect.fileBytes held, effect.fileWritable, same]
  · simp [Node.entry, Store.directoryWritable_of_node (effect.directoryNode _)]

end Primitives

section Adding

theorem Adds.child? (effect : Adds s s' dir new called shown) (sound : s.Sound) (sound' : s'.Sound)
    (free : dir.child? s called = none) (y : Node) (name : String) :
    y.child? s' name = if y = dir ∧ name = called then some new else y.child? s name := by
  ext z
  rw [sound'.child?_eq_some, effect.parent?, effect.name]
  have unlisted : y.child? s name ≠ some new := by
    intro found
    have held := (sound.parent_held (sound.child?_eq_some.mp found).1).2
    simp [effect.fresh] at held
  by_cases same : z = new
  · subst same
    by_cases here : y = dir ∧ name = called
    · simp [here]
    · simp only [if_true, here, if_false, unlisted, iff_false]
      rintro ⟨owned, named⟩
      exact here ⟨(Option.some.inj owned).symm, named.symm⟩
  · simp only [if_neg same, ← sound.child?_eq_some]
    by_cases here : y = dir ∧ name = called
    · obtain ⟨rfl, rfl⟩ := here
      simp [free, Ne.symm same]
    · simp [here]

theorem Adds.bare (effect : Adds s s' dir new called shown) (sound : s.Sound) (sound' : s'.Sound)
    (name : String) : new.child? s' name = none := by
  rw [Option.eq_none_iff_forall_not_mem]
  intro z found
  have owned := (sound'.child?_eq_some.mp found).1
  have fresh := effect.fresh
  rw [effect.parent?] at owned
  split at owned
  · have same := Option.some.inj owned
    simp [← same, effect.present] at fresh
  · simp [(sound.parent_held owned).1] at fresh

theorem Adds.fileBytes {file : FileId} {bytes : Bytes} {writable : Bool}
    (effect : Adds s s' dir (.file file) called ⟨.file bytes, writable⟩) : s'.fileBytes file = bytes := by
  have shown := effect.entry (.file file)
  rw [if_pos rfl] at shown
  exact Content.file.inj (congrArg Entry.content shown)

theorem Adds.fileWritable {file : FileId} {bytes : Bytes} {writable : Bool}
    (effect : Adds s s' dir (.file file) called ⟨.file bytes, writable⟩) :
    s'.fileWritable file = writable := by
  have shown := effect.entry (.file file)
  rw [if_pos rfl] at shown
  exact congrArg Entry.writable shown

theorem Adds.lookup (effect : Adds s s' dir new called shown) (sound : s.Sound) (sound' : s'.Sound)
    (free : dir.child? s called = none) (reached : top.descend? s path = some dir)
    (other : List String) :
    top.lookup s' other = if other = path ++ [called] then some shown else top.lookup s other := by
  have steps := effect.child? sound sound' free
  have old : top ≠ new := by
    rintro rfl
    have held := sound.held_of_descend? reached effect.present
    simp [effect.fresh] at held
  have kept : ∀ there, ¬ path ++ [called] <+: there → top.descend? s' there = top.descend? s there := by
    intro there apart
    refine descend?_congr fun front name y within arrived => ?_
    rw [steps, if_neg]
    rintro ⟨rfl, rfl⟩
    exact apart (sound.path_unique arrived reached ▸ within)
  by_cases below : path ++ [called] <+: other
  · obtain ⟨rest, rfl⟩ := below
    have before : top.descend? s' path = some dir := by
      rw [kept path, reached]
      intro longer
      have bound := longer.length_le
      rw [List.length_append, List.length_singleton] at bound
      omega
    have here : top.descend? s' (path ++ [called]) = some new := by
      rw [descend?_concat, before, Option.bind_some, steps, if_pos ⟨rfl, rfl⟩]
    have absent : top.lookup s (path ++ [called] ++ rest) = none := by
      rw [Node.lookup, descend?_append, descend?_concat, reached, Option.bind_some, free]
      rfl
    rw [lookup_append here, absent]
    cases rest with
    | nil => simp [Node.lookup, effect.entry]
    | cons name rest => simp [Node.lookup, descend?_cons, effect.bare sound sound' name]
  · have apart : other ≠ path ++ [called] := by
      rintro rfl
      exact below (List.prefix_refl _)
    rw [if_neg apart, Node.lookup, kept other below, Node.lookup]
    cases there : top.descend? s other with
    | none => rfl
    | some z =>
      have held := sound.descend?_held (sound.held_of_descend? reached effect.present) there
      have old : z ≠ new := by
        rintro rfl
        simp [effect.fresh] at held
      simp [effect.entry, old]

end Adding

section Cutting

theorem Cuts.trans (first : Cuts s s' lost) (second : Cuts s' s'' more) : Cuts s s'' (lost ++ more) := by
  refine ⟨?_, ?_, ?_, ?_⟩ <;> intro x
  · rw [second.held, first.held]
  · rw [second.name, first.name]
  · rw [second.parent?, first.parent?]
    by_cases early : x ∈ lost <;> by_cases late : x ∈ more <;> simp [early, late]
  · rw [second.entry, first.entry]

theorem Cuts.parent?_of_some (effect : Cuts s s' lost) (owned : x.parent? s' = some y) :
    x.parent? s = some y := by
  rw [effect.parent?] at owned
  split at owned
  · cases owned
  · exact owned

theorem Cuts.refl (s : Store) : Cuts s s [] := ⟨by simp, by simp, by simp, by simp⟩

theorem Cuts.child?_eq_some (effect : Cuts s s' lost) (sound : s.Sound) (sound' : s'.Sound)
    {name : String} : y.child? s' name = some z ↔ y.child? s name = some z ∧ z ∉ lost := by
  rw [sound'.child?_eq_some, sound.child?_eq_some, effect.parent?, effect.name]
  by_cases gone : z ∈ lost <;> simp [gone]

theorem Cuts.descend?_eq_some (effect : Cuts s s' lost) (sound : s.Sound) (sound' : s'.Sound) :
    x.descend? s' path = some z ↔ x.descend? s path = some z ∧
      ∀ front y, front ≠ [] → front <+: path → x.descend? s front = some y → y ∉ lost := by
  induction path using List.reverseRecOn generalizing z with
  | nil => simp +contextual
  | append_singleton path name ih =>
    simp only [descend?_concat, Option.bind_eq_some_iff, ih, effect.child?_eq_some sound sound']
    constructor
    · rintro ⟨y, ⟨before, clear⟩, found, kept⟩
      refine ⟨⟨y, before, found⟩, ?_⟩
      intro front w some within there
      rcases List.prefix_concat_iff.mp within with whole | shorter
      · rw [whole, descend?_concat, before, Option.bind_some, found] at there
        exact Option.some.inj there ▸ kept
      · exact clear front w some shorter there
    · rintro ⟨⟨y, before, found⟩, clear⟩
      refine ⟨y, ⟨before, ?_⟩, found, ?_⟩
      · intro front w some shorter there
        exact clear front w some (shorter.trans (List.prefix_append path [name])) there
      · refine clear (path ++ [name]) z (by simp) (List.prefix_refl _) ?_
        rw [descend?_concat, before, Option.bind_some, found]

theorem Cuts.within (effect : Cuts s s' lost) (sound : s.Sound) (sound' : s'.Sound)
    (below : Within s' x y) : Within s x y := by
  obtain ⟨path, reached⟩ := below
  exact ⟨path, ((effect.descend?_eq_some sound sound').mp reached).1⟩

theorem Cuts.descend?_kept (effect : Cuts s s' lost) (sound : s.Sound) (sound' : s'.Sound)
    (clear : ∀ front y, front ≠ [] → front <+: path → x.descend? s front = some y → y ∉ lost) :
    x.descend? s' path = x.descend? s path := by
  ext z
  rw [effect.descend?_eq_some sound sound']
  exact ⟨fun found => found.1, fun found => ⟨found, clear⟩⟩

theorem Cuts.lookup_kept (effect : Cuts s s' lost) (sound : s.Sound) (sound' : s'.Sound)
    (clear : ∀ front y, front ≠ [] → front <+: path → x.descend? s front = some y → y ∉ lost) :
    x.lookup s' path = x.lookup s path := by
  rw [Node.lookup, effect.descend?_kept sound sound' clear, Node.lookup]
  cases x.descend? s path with
  | none => rfl
  | some z => simp [effect.entry]

theorem Cuts.lookup_lost (effect : Cuts s s' lost) (sound : s.Sound) (sound' : s'.Sound)
    {front : List String} (reached : x.descend? s front = some y) (proper : front ≠ [])
    (within : front <+: path) (gone : y ∈ lost) : x.lookup s' path = none := by
  rw [Node.lookup, Option.map_eq_none_iff, Option.eq_none_iff_forall_not_mem]
  intro z found
  exact ((effect.descend?_eq_some sound sound').mp found).2 front y proper within reached gone

theorem Cuts.clear_outside (sound : s.Sound) (reached : top.descend? s path = some y)
    (below : ∀ z ∈ lost, Within s y z) {other : List String} (apart : ¬ path <+: other)
    (front : List String) (z : Node) (shorter : front <+: other)
    (there : top.descend? s front = some z) : z ∉ lost := by
  exact fun gone => apart ((sound.prefix_of_within reached (below z gone) there).trans shorter)

theorem Cuts.descend?_outside (effect : Cuts s s' lost) (sound : s.Sound) (sound' : s'.Sound)
    (reached : top.descend? s path = some y) (below : ∀ z ∈ lost, Within s y z) {other : List String}
    (apart : ¬ path <+: other) : top.descend? s' other = top.descend? s other :=
  effect.descend?_kept sound sound' fun front z _ => clear_outside sound reached below apart front z

theorem Cuts.lookup_outside (effect : Cuts s s' lost) (sound : s.Sound) (sound' : s'.Sound)
    (reached : top.descend? s path = some y) (below : ∀ z ∈ lost, Within s y z) {other : List String}
    (apart : ¬ path <+: other) : top.lookup s' other = top.lookup s other :=
  effect.lookup_kept sound sound' fun front z _ => clear_outside sound reached below apart front z

/-- When a node and things below it are lost, its path and all below it show nothing, and nothing else
    is different. -/
theorem Cuts.lookup (effect : Cuts s s' lost) (sound : s.Sound) (sound' : s'.Sound)
    (reached : top.descend? s path = some y) (proper : path ≠ []) (gone : y ∈ lost)
    (below : ∀ z ∈ lost, Within s y z) (other : List String) :
    top.lookup s' other = if path <+: other then none else top.lookup s other := by
  split
  · rename_i within
    exact effect.lookup_lost sound sound' reached proper within gone
  · rename_i apart
    exact effect.lookup_outside sound sound' reached below apart

end Cutting

section Refilling

theorem Refills.child? (effect : Refills s s' node shown) (sound : s.Sound) (sound' : s'.Sound)
    (y : Node) (name : String) : y.child? s' name = y.child? s name := by
  ext z
  rw [sound'.child?_eq_some, sound.child?_eq_some, effect.parent?, effect.name]

theorem Refills.descend? (effect : Refills s s' node shown) (sound : s.Sound) (sound' : s'.Sound)
    (x : Node) (path : List String) : x.descend? s' path = x.descend? s path :=
  descend?_congr fun _ name y _ _ => effect.child? sound sound' y name

theorem Refills.fileBytes {file : FileId} {bytes : Bytes} {writable : Bool}
    (effect : Refills s s' (.file file) ⟨.file bytes, writable⟩) : s'.fileBytes file = bytes := by
  have shown := effect.entry (.file file)
  rw [if_pos rfl] at shown
  exact Content.file.inj (congrArg Entry.content shown)

theorem Refills.fileWritable {file : FileId} {bytes : Bytes} {writable : Bool}
    (effect : Refills s s' (.file file) ⟨.file bytes, writable⟩) : s'.fileWritable file = writable := by
  have shown := effect.entry (.file file)
  rw [if_pos rfl] at shown
  exact congrArg Entry.writable shown

theorem Refills.trans {last : Entry} (first : Refills s s' node shown)
    (second : Refills s' s'' node last) : Refills s s'' node last := by
  refine ⟨?_, ?_, ?_, ?_⟩ <;> intro x
  · rw [second.held, first.held]
  · rw [second.name, first.name]
  · rw [second.parent?, first.parent?]
  · rw [second.entry, first.entry]
    by_cases same : x = node <;> simp [same]

theorem Adds.refilled {full : Entry} (effect : Adds s s' dir new called shown)
    (further : Refills s' s'' new full) : Adds s s'' dir new called full := by
  refine ⟨effect.present, effect.fresh, ?_, ?_, ?_, ?_⟩ <;> intro x
  · rw [further.held, effect.held]
  · rw [further.name, effect.name]
  · rw [further.parent?, effect.parent?]
  · rw [further.entry, effect.entry]
    by_cases same : x = new <;> simp [same]

end Refilling

section Renaming

variable {holder : Node} {old : String}

theorem Renames.child?_of_ne (effect : Renames s s' node called) (sound : s.Sound) (sound' : s'.Sound)
    (owned : node.parent? s = some holder) (apart : y ≠ holder) (name : String) :
    y.child? s' name = y.child? s name := by
  ext z
  rw [sound'.child?_eq_some, sound.child?_eq_some, effect.parent?, effect.name]
  split
  · rename_i same
    simp [same, owned, Ne.symm apart]
  · rfl

theorem Renames.holder_child? (effect : Renames s s' node called) (sound : s.Sound) (sound' : s'.Sound)
    (found : holder.child? s old = some node) (name : String) :
    holder.child? s' name =
      if name = called then some node else if name = old then none else holder.child? s name := by
  obtain ⟨owned, named⟩ := sound.child?_eq_some.mp found
  by_cases new : name = called
  · rw [if_pos new, sound'.child?_eq_some, effect.parent?, effect.name, if_pos rfl]
    exact ⟨owned, new.symm⟩
  · rw [if_neg new]
    ext z
    rw [sound'.child?_eq_some, effect.parent?, effect.name]
    by_cases same : z = node
    · subst same
      rw [if_pos rfl]
      constructor
      · exact fun both => absurd both.2.symm new
      · intro there
        split at there
        · cases there
        · rename_i other
          exact absurd ((sound.child?_eq_some.mp there).2.symm.trans named) other
    · rw [if_neg same]
      split
      · rename_i back
        subst back
        rw [← sound.child?_eq_some, found]
        simp [Ne.symm same]
      · exact sound.child?_eq_some.symm

theorem Renames.descend? (effect : Renames s s' node called) (sound : s.Sound) (sound' : s'.Sound)
    (reached : top.descend? s path = some holder) (found : holder.child? s old = some node)
    (free : holder.child? s called = none) (other : List String) :
    top.descend? s' other = rekey (path ++ [old]) (path ++ [called]) (top.descend? s) other := by
  have steps := effect.holder_child? sound sound' found
  have owned := (sound.child?_eq_some.mp found).1
  have elsewhere := fun {y} => effect.child?_of_ne (y := y) sound sound' owned
  have before : top.descend? s' path = some holder := by
    rw [← reached]
    refine descend?_congr fun front name y within there => elsewhere ?_ name
    -- the holder is met at its own path only, and the steps to it start from shorter ones
    rintro rfl
    have bound := (sound.path_unique there reached ▸ within).length_le
    rw [List.length_append, List.length_singleton] at bound
    omega
  have inside : ∀ rest, node.descend? s' rest = node.descend? s rest := by
    intro rest
    refine descend?_congr fun front name y _ there => elsewhere ?_ name
    rintro rfl
    have around : y.descend? s (old :: front) = some y := by
      rw [descend?_cons, found]
      exact there
    cases sound.no_cycle around
  rw [rekey]
  by_cases moved : path ++ [called] <+: other
  · obtain ⟨rest, rfl⟩ := moved
    rw [if_pos (List.prefix_append _ _), List.drop_left, descend?_append, descend?_concat, before,
      descend?_append, descend?_concat, reached, Option.bind_some, Option.bind_some, steps, if_pos rfl, found]
    exact inside rest
  · rw [if_neg moved]
    by_cases left : path ++ [old] <+: other
    · obtain ⟨rest, rfl⟩ := left
      have apart : old ≠ called := by
        rintro rfl
        simp [found] at free
      rw [if_pos (List.prefix_append _ _), descend?_append, descend?_concat, before, Option.bind_some, steps,
        if_neg apart, if_pos rfl]
      rfl
    · rw [if_neg left]
      refine descend?_congr fun front name y within there => ?_
      by_cases here : y = holder
      · subst here
        obtain rfl := sound.path_unique there reached
        have notNew : name ≠ called := by
          rintro rfl
          exact moved within
        have notOld : name ≠ old := by
          rintro rfl
          exact left within
        rw [steps, if_neg notNew, if_neg notOld]
      · exact elsewhere here name

theorem Renames.lookup (effect : Renames s s' node called) (sound : s.Sound) (sound' : s'.Sound)
    (reached : top.descend? s path = some holder) (found : holder.child? s old = some node)
    (free : holder.child? s called = none) (other : List String) :
    top.lookup s' other = rekey (path ++ [old]) (path ++ [called]) (top.lookup s) other := by
  have entries : Node.entry s' = Node.entry s := funext effect.entry
  rw [Node.lookup, effect.descend? sound sound' reached found free, entries, ← rekey_map]
  rfl

end Renaming

section Growing

theorem Grows.refl (s : Store) (sound : s.Sound) (target : Node) : Grows s s target := by
  refine ⟨fun _ held => held, fun _ _ => rfl, fun _ _ => rfl, fun _ _ => rfl, ?_⟩
  intro x y unheld owned
  simp [(sound.parent_held owned).2] at unheld

/-- Growth that goes on elsewhere is growth of the first place if the other one is new, or is the same. -/
theorem Grows.onward (first : Grows s s' target) (second : Grows s' s'' new)
    (within : new = target ∨ new.held s = false) : Grows s s'' target := by
  refine ⟨fun x held => second.held x (first.held x held), ?_, ?_, ?_, ?_⟩
  · exact fun x held => (second.name x (first.held x held)).trans (first.name x held)
  · exact fun x held => (second.parent? x (first.held x held)).trans (first.parent? x held)
  · exact fun x held => (second.entry x (first.held x held)).trans (first.entry x held)
  · intro x y unheld owned
    by_cases early : x.held s' = true
    · rw [second.parent? x early] at owned
      exact first.below x y unheld owned
    · rcases second.below x y (by simpa using early) owned with rfl | fresh
      · exact within
      · by_cases held : y.held s = true
        · simp [first.held y held] at fresh
        · exact .inr (by simpa using held)

theorem Grows.trans (first : Grows s s' target) (second : Grows s' s'' target) : Grows s s'' target :=
  first.onward second (.inl rfl)

theorem Adds.grows (effect : Adds s s' dir new called shown) (sound : s.Sound) : Grows s s' dir := by
  have old : ∀ x : Node, x.held s = true → x ≠ new := by
    rintro x held rfl
    simp [effect.fresh] at held
  refine ⟨fun x held => (effect.held x).mpr (.inr held), ?_, ?_, ?_, ?_⟩
  · exact fun x held => by rw [effect.name, if_neg (old x held)]
  · exact fun x held => by rw [effect.parent?, if_neg (old x held)]
  · exact fun x held => by rw [effect.entry, if_neg (old x held)]
  · intro x y unheld owned
    rw [effect.parent?] at owned
    split at owned
    · exact .inl (Option.some.inj owned).symm
    · simp [(sound.parent_held owned).2] at unheld

theorem Adds.grows_below (effect : Adds s s' dir new called shown) (sound : s.Sound)
    (further : Grows s' s'' new) : Grows s s'' dir :=
  (effect.grows sound).onward further (.inr effect.fresh)

theorem Grows.parent?_eq_some (effect : Grows s s' target) (sound : s.Sound) (held : y.held s = true)
    (apart : y ≠ target) : z.parent? s' = some y ↔ z.parent? s = some y := by
  by_cases old : z.held s = true
  · rw [effect.parent? z old]
  · constructor
    · intro owned
      rcases effect.below z y (by simpa using old) owned with same | fresh
      · exact absurd same apart
      · simp [held] at fresh
    · intro owned
      exact absurd (sound.parent_held owned).2 old

theorem Grows.child? (effect : Grows s s' target) (sound : s.Sound) (sound' : s'.Sound)
    (held : y.held s = true) (apart : y ≠ target) (name : String) :
    y.child? s' name = y.child? s name := by
  ext z
  rw [sound'.child?_eq_some, sound.child?_eq_some, effect.parent?_eq_some sound held apart]
  refine and_congr_right fun owned => ?_
  rw [effect.name z (sound.parent_held owned).2]

theorem Grows.descend?_of_held (effect : Grows s s' target) (sound : s.Sound) (sound' : s'.Sound)
    (held : y.held s = true) (reached : x.descend? s' path = some y) : x.descend? s path = some y := by
  induction path using List.reverseRecOn generalizing y with
  | nil => exact reached
  | append_singleton path name ih =>
    obtain ⟨holder, before, owned, named⟩ := sound'.descend?_concat_eq_some.mp reached
    rw [effect.parent? y held] at owned
    rw [effect.name y held] at named
    exact sound.descend?_concat_eq_some.mpr ⟨holder, ih (sound.parent_held owned).1 before, owned, named⟩

theorem Grows.within (effect : Grows s s' target) (sound : s.Sound) (sound' : s'.Sound)
    (held : y.held s = true) (below : Within s' x y) : Within s x y := by
  obtain ⟨path, reached⟩ := below
  exact ⟨path, effect.descend?_of_held sound sound' held reached⟩

theorem Grows.child?_of_some (effect : Grows s s' target) (sound : s.Sound) (sound' : s'.Sound)
    {name : String} (found : y.child? s name = some z) : y.child? s' name = some z := by
  obtain ⟨owned, named⟩ := sound.child?_eq_some.mp found
  have held := (sound.parent_held owned).2
  rw [sound'.child?_eq_some, effect.parent? z held, effect.name z held]
  exact ⟨owned, named⟩

theorem Grows.lookup (effect : Grows s s' target) (sound : s.Sound) (sound' : s'.Sound)
    (held : x.held s = true)
    (clear : ∀ front name, front ++ [name] <+: path → x.descend? s front ≠ some target) :
    x.lookup s' path = x.lookup s path := by
  have same : x.descend? s' path = x.descend? s path := by
    refine descend?_congr fun front name y within there => ?_
    refine effect.child? sound sound' (sound.descend?_held held there) ?_ name
    rintro rfl
    exact clear front name within there
  rw [Node.lookup, same, Node.lookup]
  cases there : x.descend? s path with
  | none => rfl
  | some z => simp [effect.entry z (sound.descend?_held held there)]

theorem Grows.lookup_apart (effect : Grows s s' target) (sound : s.Sound) (sound' : s'.Sound)
    (held : x.held s = true) (apart : ¬ Within s x target) (path : List String) :
    x.lookup s' path = x.lookup s path :=
  effect.lookup sound sound' held fun front _ _ there => apart ⟨front, there⟩

theorem Grows.lookup_outside (effect : Grows s s' target) (sound : s.Sound) (sound' : s'.Sound)
    (reached : top.descend? s path = some target) (held : target.held s = true) {other : List String}
    (apart : ¬ path <+: other) : top.lookup s' other = top.lookup s other := by
  refine effect.lookup sound sound' (sound.held_of_descend? reached held) ?_
  intro front name within there
  obtain rfl := sound.path_unique there reached
  exact apart ((List.prefix_append front [name]).trans within)

theorem Grows.descend? (effect : Grows s s' target) (sound : s.Sound) (sound' : s'.Sound)
    (reached : x.descend? s path = some y) : x.descend? s' path = some y := by
  induction path using List.reverseRecOn generalizing y with
  | nil => exact reached
  | append_singleton path name ih =>
    rw [descend?_concat, Option.bind_eq_some_iff] at reached ⊢
    obtain ⟨z, before, found⟩ := reached
    exact ⟨z, ih before, effect.child?_of_some sound sound' found⟩

end Growing

end GuestStorage.Memory
