import GuestStorage.Memory.Store
import GuestStorage.Proofs.Memory.Changes

namespace GuestStorage.Memory

open Node

structure Appears (s s' : Store) (new : Node) : Prop where
  fresh : new.held s = false
  held : ∀ x : Node, x.held s' = true ↔ x = new ∨ x.held s = true
  name : ∀ x : Node, x ≠ new → x.name s' = x.name s
  parent? : ∀ x : Node, x.parent? s' = x.parent? s
  entry : ∀ x : Node, x ≠ new → x.entry s' = x.entry s

structure Joins (s s' : Store) (dir node : Node) : Prop where
  held : ∀ x : Node, x.held s' = x.held s
  name : ∀ x : Node, x.name s' = x.name s
  parent? : ∀ x : Node, x.parent? s' = if x = node then some dir else x.parent? s
  entry : ∀ x : Node, x.entry s' = x.entry s

variable {s s' s'' : Store} {dir new target x y : Node}

theorem Appears.grows (effect : Appears s s' new) (sound : s.Sound) (target : Node) :
    Grows s s' target := by
  have old : ∀ x : Node, x.held s = true → x ≠ new := by
    rintro x held rfl
    simp [effect.fresh] at held
  refine ⟨fun x held => (effect.held x).mpr (.inr held), ?_, ?_, ?_, ?_⟩
  · exact fun x held => effect.name x (old x held)
  · exact fun x _ => effect.parent? x
  · exact fun x held => effect.entry x (old x held)
  · intro x y unheld owned
    rw [effect.parent?] at owned
    simp [(sound.parent_held owned).2] at unheld

theorem Appears.grows_below (effect : Appears s s' new) (sound : s.Sound) (further : Grows s' s'' new)
    (target : Node) : Grows s s'' target :=
  (effect.grows sound target).onward further (.inr effect.fresh)

theorem Grows.joined (grown : Grows s s' dir) (joins : Joins s' s'' dir new) (fresh : new.held s = false) :
    Grows s s'' dir := by
  have old : ∀ x : Node, x.held s = true → x ≠ new := by
    rintro x held rfl
    simp [fresh] at held
  refine ⟨fun x held => (joins.held x).trans (grown.held x held), ?_, ?_, ?_, ?_⟩
  · exact fun x held => (joins.name x).trans (grown.name x held)
  · exact fun x held => by rw [joins.parent?, if_neg (old x held), grown.parent? x held]
  · exact fun x held => (joins.entry x).trans (grown.entry x held)
  · intro x y unheld owned
    rw [joins.parent?] at owned
    split at owned
    · exact .inl (Option.some.inj owned).symm
    · exact grown.below x y unheld owned

theorem Appears.names (effect : Appears s s' new) (sound : s.Sound) (x : Node) :
    (x.children s).map (Node.name s') = (x.children s).map (Node.name s) := by
  refine List.map_congr_left fun y listed => effect.name y ?_
  rintro rfl
  have held := (sound.parent_held (sound.mem_children.mp listed)).2
  simp [effect.fresh] at held

theorem Appears.bare (effect : Appears s s' new) (sound : s.Sound) (sound' : s'.Sound)
    (below : Within s' new x) : x = new := by
  obtain ⟨path, reached⟩ := below
  cases path with
  | nil => exact (Option.some.inj reached).symm
  | cons name rest =>
    rw [descend?_cons, Option.bind_eq_some_iff] at reached
    obtain ⟨y, found, -⟩ := reached
    have owned := (sound'.child?_eq_some.mp found).1
    rw [effect.parent?] at owned
    have held := (sound.parent_held owned).1
    simp [effect.fresh] at held

namespace Store

section Appearing

variable (s) (name : String) (bytes : Bytes) (writable : Bool)

theorem newFile_appears : Appears s (s.newFile name bytes writable).2 (.file ⟨s.fileNodes.size⟩) := by
  have node := s.fileNode?_newFile name bytes writable
  refine ⟨by simp [Node.held, fileNode?_size], ?_, ?_, ?_, ?_⟩ <;> intro x <;> cases x
  · rename_i id
    by_cases same : id = ⟨s.fileNodes.size⟩ <;> simp [Node.held, node, same]
  · simp [Node.held]
  · intro apart
    simp only [ne_eq, Node.file.injEq] at apart
    simp [Node.name, fileName, node, apart]
  · exact fun _ => rfl
  · rename_i id
    by_cases same : id = ⟨s.fileNodes.size⟩ <;>
      simp [Node.parent?, fileParent?, node, same, fileNode?_size]
  · rfl
  · intro apart
    simp only [ne_eq, Node.file.injEq] at apart
    simp [Node.entry, fileBytes, fileWritable, node, apart]
  · exact fun _ => rfl

theorem newDirectory_appears :
    Appears s (s.newDirectory name writable).2 (.directory ⟨s.directoryNodes.size⟩) := by
  have node := s.directoryNode?_newDirectory name writable
  refine ⟨by simp [Node.held, directoryNode?_size], ?_, ?_, ?_, ?_⟩ <;> intro x <;> cases x
  · simp [Node.held]
  · rename_i id
    by_cases same : id = ⟨s.directoryNodes.size⟩ <;> simp [Node.held, node, same]
  · exact fun _ => rfl
  · intro apart
    simp only [ne_eq, Node.directory.injEq] at apart
    simp [Node.name, directoryName, node, apart]
  · rfl
  · rename_i id
    by_cases same : id = ⟨s.directoryNodes.size⟩ <;>
      simp [Node.parent?, directoryParent?, node, same, directoryNode?_size]
  · exact fun _ => rfl
  · intro apart
    simp only [ne_eq, Node.directory.injEq] at apart
    simp [Node.entry, directoryWritable, node, apart]

theorem files_newDirectory (dir : DirectoryId) :
    (s.newDirectory name writable).2.files dir = s.files dir := by
  have node := s.directoryNode?_newDirectory name writable dir
  rw [files, node, files]
  split
  · rename_i same
    simp [same, directoryNode?_size]
  · rfl

theorem subdirectories_newDirectory (dir : DirectoryId) :
    (s.newDirectory name writable).2.subdirectories dir = s.subdirectories dir := by
  have node := s.directoryNode?_newDirectory name writable dir
  rw [subdirectories, node, subdirectories]
  split
  · rename_i same
    simp [same, directoryNode?_size]
  · rfl

end Appearing

theorem Sound.appears (sound : s.Sound) (effect : Appears s s' new)
    (same : ∀ x : Node, x.children s' = x.children s) : s'.Sound := by
  refine sound_of_nodes ?_ ?_ ?_
  · intro x y
    rw [same, effect.parent?, sound.mem_children]
  · intro x
    rw [same, effect.names sound]
    exact sound.children_names_nodup x
  · obtain ⟨rank, grows⟩ := sound.node_ranked
    exact ⟨rank, fun x y owned => grows x y (effect.parent? y ▸ owned)⟩

/-- A store stays sound when a node that belongs nowhere joins a directory that does not lie in it and
    where its name is free. -/
theorem Sound.joins (sound : s.Sound) (effect : Joins s s' dir new) (unowned : new.parent? s = none)
    (outside : ¬ Within s new dir) (free : new.name s ∉ (dir.children s).map (Node.name s))
    (same : ∀ x : Node, x ≠ dir → x.children s' = x.children s)
    (more : (dir.children s').Perm (new :: dir.children s)) : s'.Sound := by
  have names : Node.name s' = Node.name s := funext effect.name
  refine sound_of_nodes ?_ ?_ ?_
  · intro x y
    rw [effect.parent?]
    by_cases here : x = dir
    · subst here
      rw [more.mem_iff, List.mem_cons, sound.mem_children]
      by_cases self : y = new <;> simp [self]
    · rw [same x here, sound.mem_children]
      by_cases self : y = new
      · simp [self, unowned, Ne.symm here]
      · simp [self]
  · intro x
    rw [names]
    by_cases here : x = dir
    · subst here
      exact ((more.map _).nodup_iff).mpr (List.nodup_cons.mpr ⟨free, sound.children_names_nodup x⟩)
    · rw [same x here]
      exact sound.children_names_nodup x
  · -- Everything in the joined node is ranked above the directory it joins.
    classical
    obtain ⟨rank, grows⟩ := sound.node_ranked
    refine ⟨fun x => if Within s new x then rank x + rank dir + 1 else rank x, ?_⟩
    intro x y owned
    rw [effect.parent?] at owned
    split at owned
    · rename_i self
      obtain rfl := Option.some.inj owned
      subst self
      simp only [outside, if_false, Within.refl, if_true]
      omega
    · rename_i other
      have less := grows x y owned
      have found : x.child? s (y.name s) = some y := sound.child?_eq_some.mpr ⟨owned, rfl⟩
      have below : Within s new y ↔ Within s new x := by
        refine ⟨?_, fun within => within.child found⟩
        rintro ⟨path, reached⟩
        rcases List.eq_nil_or_concat' path with rfl | ⟨front, last, rfl⟩
        · exact absurd (Option.some.inj reached).symm other
        · obtain ⟨holder, before, owned', -⟩ := sound.descend?_concat_eq_some.mp reached
          obtain rfl := Option.some.inj (owned.symm.trans owned')
          exact ⟨front, before⟩
      simp only [below]
      split <;> omega

section Linking

variable {dir sub other : DirectoryId}

theorem directoryNode?_linkDirectory (apart : sub ≠ dir) (other : DirectoryId) :
    (s.linkDirectory dir sub).directoryNode? other = (s.directoryNode? other).map fun node =>
      { node with
        parent := if other = sub then some dir else node.parent
        subdirectories := node.subdirectories ++ if other = dir then [sub] else [] } := by
  by_cases self : other = sub
  · subst self
    simp [linkDirectory, directoryNode?_modifyDirectory, apart]
  · by_cases here : other = dir
    · subst here
      simp [linkDirectory, directoryNode?_modifyDirectory, self]
    · simp [linkDirectory, directoryNode?_modifyDirectory, self, here]

theorem linkDirectory_joins (held : (Node.directory sub).held s = true) (apart : sub ≠ dir) :
    Joins s (s.linkDirectory dir sub) (.directory dir) (.directory sub) := by
  have node := directoryNode?_linkDirectory (s := s) apart
  have name : ∀ other, (s.linkDirectory dir sub).directoryName other = s.directoryName other := by
    intro other
    rw [directoryName, node, directoryName]
    cases s.directoryNode? other <;> simp
  have writable : ∀ other,
      (s.linkDirectory dir sub).directoryWritable other = s.directoryWritable other := by
    intro other
    rw [directoryWritable, node, directoryWritable]
    cases s.directoryNode? other <;> simp
  refine ⟨?_, ?_, ?_, ?_⟩ <;> intro x <;> cases x
  · rfl
  · simp [Node.held, node]
  · rfl
  · simp [Node.name, name]
  · rfl
  · rename_i id
    obtain ⟨inner, present⟩ := Option.isSome_iff_exists.mp held
    by_cases self : id = sub
    · simp [Node.parent?, directoryParent?, node, self, present]
    · cases found : s.directoryNode? id <;> simp [Node.parent?, directoryParent?, node, found, self]
  · rfl
  · simp [Node.entry, writable]

theorem files_linkDirectory (apart : sub ≠ dir) : (s.linkDirectory dir sub).files other = s.files other := by
  rw [files, directoryNode?_linkDirectory apart, files]
  cases s.directoryNode? other <;> simp

theorem subdirectories_linkDirectory (held : (s.directoryNode? dir).isSome) (apart : sub ≠ dir) :
    (s.linkDirectory dir sub).subdirectories other =
      s.subdirectories other ++ if other = dir then [sub] else [] := by
  rw [subdirectories, directoryNode?_linkDirectory apart, subdirectories]
  by_cases here : other = dir
  · subst here
    obtain ⟨inner, present⟩ := Option.isSome_iff_exists.mp held
    simp [present]
  · cases s.directoryNode? other <;> simp [here]

theorem Sound.linkDirectory (sound : s.Sound) (held : (Node.directory sub).held s = true)
    (present : (Node.directory dir).held s = true)
    (unowned : (Node.directory sub).parent? s = none)
    (outside : ¬ Within s (.directory sub) (.directory dir))
    (free : s.directoryName sub ∉ s.childNames dir) : (s.linkDirectory dir sub).Sound := by
  have apart : sub ≠ dir := by
    rintro rfl
    exact outside (.refl _)
  refine sound.joins (linkDirectory_joins held apart) unowned outside ?_ ?_ ?_
  · rwa [← childNames_eq_map_children]
  · intro x elsewhere
    cases x with
    | file id => rfl
    | directory other =>
      have here : other ≠ dir := fun same => elsewhere (same ▸ rfl)
      simp [Node.children, files_linkDirectory apart, subdirectories_linkDirectory present apart, here]
  · simp only [Node.children, files_linkDirectory apart, subdirectories_linkDirectory present apart,
      if_true, List.map_append, List.map_cons, List.map_nil, ← List.append_assoc]
    exact List.perm_append_singleton _ _

theorem linkFile_joins {file : FileId} (held : (Node.file file).held s = true) :
    Joins s (s.linkFile dir file) (.directory dir) (.file file) := by
  obtain ⟨inner, present⟩ := Option.isSome_iff_exists.mp held
  have node : ∀ other, (s.linkFile dir file).fileNode? other =
      if other = file then some { inner with parent := some dir } else s.fileNode? other := by
    intro other
    simp [linkFile, fileNode?_modifyFile, present]
  have directoryNode : ∀ other, (s.linkFile dir file).directoryNode? other =
      (s.directoryNode? other).map fun node =>
        if other = dir then { node with files := node.files ++ [file] } else node := by
    intro other
    by_cases here : other = dir <;> simp [linkFile, directoryNode?_modifyDirectory, here]
  refine ⟨?_, ?_, ?_, ?_⟩ <;> intro x <;> cases x <;> rename_i id
  · by_cases self : id = file <;> simp [Node.held, node, self, present]
  · simp [Node.held, directoryNode]
  · by_cases self : id = file <;> simp [Node.name, fileName, node, self, present]
  · cases found : s.directoryNode? id <;>
      simp [Node.name, directoryName, directoryNode, found, apply_ite]
  · by_cases self : id = file <;> simp [Node.parent?, fileParent?, node, self]
  · rw [Node.parent?, directoryParent?, directoryNode, Node.parent?, directoryParent?]
    by_cases here : id = dir <;> cases s.directoryNode? id <;> simp [here]
  · by_cases self : id = file <;> simp [Node.entry, fileBytes, fileWritable, node, self, present]
  · cases found : s.directoryNode? id <;>
      simp [Node.entry, directoryWritable, directoryNode, found, apply_ite]

theorem files_linkFile {file : FileId} (held : (s.directoryNode? dir).isSome) :
    (s.linkFile dir file).files other = s.files other ++ if other = dir then [file] else [] := by
  by_cases here : other = dir
  · obtain ⟨inner, present⟩ := Option.isSome_iff_exists.mp held
    simp [files, linkFile, directoryNode?_modifyDirectory, here, present]
  · simp [files, linkFile, directoryNode?_modifyDirectory, here]

theorem subdirectories_linkFile {file : FileId} :
    (s.linkFile dir file).subdirectories other = s.subdirectories other := by
  by_cases here : other = dir
  · cases found : s.directoryNode? dir <;>
      simp [subdirectories, linkFile, directoryNode?_modifyDirectory, here, found]
  · simp [subdirectories, linkFile, directoryNode?_modifyDirectory, here]

theorem Sound.linkFile (sound : s.Sound) {file : FileId} (held : (Node.file file).held s = true)
    (present : (Node.directory dir).held s = true) (unowned : (Node.file file).parent? s = none)
    (free : s.fileName file ∉ s.childNames dir) : (s.linkFile dir file).Sound := by
  have outside : ¬ Within s (.file file) (.directory dir) := by
    rintro ⟨path, reached⟩
    cases path with
    | nil => cases reached
    | cons name rest => cases reached
  refine sound.joins (linkFile_joins held) unowned outside ?_ ?_ ?_
  · rwa [← childNames_eq_map_children]
  · intro x elsewhere
    cases x with
    | file id => rfl
    | directory other =>
      have here : other ≠ dir := fun same => elsewhere (same ▸ rfl)
      simp [Node.children, files_linkFile present, subdirectories_linkFile, here]
  · simp only [Node.children, files_linkFile present, subdirectories_linkFile, if_true, List.map_append,
      List.map_cons, List.map_nil, List.append_assoc, List.singleton_append]
    exact List.perm_middle

end Linking

theorem Sound.newFile (sound : s.Sound) (name : String) (bytes : Bytes) (writable : Bool) :
    (s.newFile name bytes writable).2.Sound :=
  sound.appears (s.newFile_appears name bytes writable) fun _ => rfl

theorem Sound.newDirectory (sound : s.Sound) (name : String) (writable : Bool) :
    (s.newDirectory name writable).2.Sound := by
  refine sound.appears (s.newDirectory_appears name writable) fun x => ?_
  cases x with
  | file id => rfl
  | directory id => simp [Node.children, files_newDirectory, subdirectories_newDirectory]

section Placing

variable {dir : DirectoryId}

theorem place_file_grows (sound : s.Sound) (held : (Node.directory dir).held s = true) (name : String)
    (data : Bytes) (readOnly : Bool) :
    (s.place dir (.file name data readOnly)).Sound ∧
      Grows s (s.place dir (.file name data readOnly)) (.directory dir) := by
  have appears := s.newFile_appears name data (!readOnly)
  have named : (s.newFile name data (!readOnly)).2.fileName ⟨s.fileNodes.size⟩ = name := by
    simp [fileName, fileNode?_newFile]
  have taken : (s.newFile name data (!readOnly)).2.hasChild dir name = true ↔ name ∈ s.childNames dir := by
    rw [hasChild_iff, childNames_eq_map_children, childNames_eq_map_children]
    exact iff_of_eq (congrArg (name ∈ ·) (appears.names sound (.directory dir)))
  rw [place]
  simp only [fst_newFile, attachFile, named, taken]
  by_cases present : name ∈ s.childNames dir
  · rw [if_pos present]
    exact ⟨sound.newFile name data (!readOnly), appears.grows sound _⟩
  · rw [if_neg present]
    have effect := newFile_linkFile_adds held name data (!readOnly)
    exact ⟨effect.sound sound present, (adds_file effect).grows sound⟩

theorem attachDirectory_grows {sub : DirectoryId} {s₁ s₂ : Store} (sound : s.Sound)
    (held : (Node.directory dir).held s = true) (appears : Appears s s₁ (.directory sub)) (sound₁ : s₁.Sound)
    (grown : Grows s₁ s₂ (.directory sub)) (sound₂ : s₂.Sound) :
    (s₂.attachDirectory dir sub).2.Sound ∧ Grows s (s₂.attachDirectory dir sub).2 (.directory dir) := by
  have below := appears.grows_below sound grown (.directory dir)
  rw [attachDirectory]
  split
  · exact ⟨sound₂, below⟩
  · rename_i untaken
    rw [hasChild_iff] at untaken
    have new : (Node.directory sub).held s₁ = true := (appears.held _).mpr (.inl rfl)
    have old : (Node.directory dir).held s₁ = true := (appears.held _).mpr (.inr held)
    have apart : sub ≠ dir := by
      rintro rfl
      have fresh := appears.fresh
      rw [held] at fresh
      cases fresh
    have unowned : (Node.directory sub).parent? s₂ = none := by
      rw [grown.parent? _ new, appears.parent?]
      cases owned : (Node.directory sub).parent? s with
      | none => rfl
      | some y =>
        have fresh := appears.fresh
        simp [(sound.parent_held owned).2] at fresh
    have outside : ¬ Within s₂ (.directory sub) (.directory dir) := by
      intro within
      have same := appears.bare sound sound₁ (grown.within sound₁ sound₂ old within)
      exact apart (Node.directory.inj same).symm
    exact ⟨sound₂.linkDirectory (grown.held _ new) (below.held _ held) unowned outside untaken,
      below.joined (linkDirectory_joins (grown.held _ new) apart) appears.fresh⟩

mutual

theorem place_grows : ∀ (entry : Tree.Layout) (s : Store) (dir : DirectoryId), s.Sound →
    (Node.directory dir).held s = true →
    (s.place dir entry).Sound ∧ Grows s (s.place dir entry) (.directory dir)
  | .link name target, s, dir, sound, _ => by
    rw [place]
    exact ⟨sound, .refl s sound _⟩
  | .file name data readOnly, s, dir, sound, held => place_file_grows sound held name data readOnly
  | .directory name children readOnly, s, dir, sound, held => by
    rw [place]
    have appears := s.newDirectory_appears name (!readOnly)
    have sound₁ := sound.newDirectory name (!readOnly)
    obtain ⟨sound₂, grown⟩ := fill_grows children _ _ sound₁ ((appears.held _).mpr (.inl rfl))
    exact attachDirectory_grows sound held appears sound₁ grown sound₂
termination_by structural entry => entry

theorem fill_grows : ∀ (entries : List Tree.Layout) (s : Store) (dir : DirectoryId), s.Sound →
    (Node.directory dir).held s = true →
    (s.fill dir entries).Sound ∧ Grows s (s.fill dir entries) (.directory dir)
  | [], s, dir, sound, _ => by
    rw [fill]
    exact ⟨sound, .refl s sound _⟩
  | entry :: rest, s, dir, sound, held => by
    rw [fill]
    obtain ⟨sound', grown⟩ := place_grows entry s dir sound held
    obtain ⟨sound'', further⟩ := fill_grows rest _ dir sound' (grown.held _ held)
    exact ⟨sound'', grown.trans further⟩
termination_by structural entries => entries

end

end Placing

theorem empty_sound : empty.Sound :=
  ⟨by simp [empty, files, directoryNode?, fileParent?, fileNode?],
    by simp [empty, subdirectories, directoryNode?, directoryParent?],
    by simp [empty, childNames, files, subdirectories, directoryNode?],
    ⟨fun _ => 0, by simp [empty, directoryNode?, directoryParent?]⟩⟩

theorem plant_sound (sound : s.Sound) (name : String) (readOnly : Bool) (children : List Tree.Layout) :
    (s.plant name readOnly children).2.Sound := by
  have appears := s.newDirectory_appears name (!readOnly)
  exact (fill_grows children _ _ (sound.newDirectory name (!readOnly)) ((appears.held _).mpr (.inl rfl))).1

end Store

end GuestStorage.Memory
