import GuestStorage.Proofs.Memory.Follow
import GuestStorage.Proofs.Tree.Region

namespace GuestStorage.Memory

open Node GuestStorage.Tree

def Node.kind : Node → Wire.EntryType
  | file _ => .file
  | directory _ => .directory

namespace Store

def listing (s : Store) (dir : DirectoryId) : List (String × Wire.EntryType) :=
  ((Node.directory dir).children s).map fun x => (x.name s, x.kind)

/-- A directory of a sound store that accepts no changes. -/
structure Locked (s : Store) (dir : DirectoryId) : Prop where
  sound : s.Sound
  held : (Node.directory dir).held s = true
  refuses : s.directoryWritable dir = false

/-- All nodes are there under their names, directories that accept no changes hold what they held, and ways
    to those that hold something are still open. -/
structure Respects (s s' : Store) : Prop where
  sound : s'.Sound
  held : ∀ x : Node, x.held s = true → x.held s' = true
  name : ∀ x : Node, x.held s = true → x.name s' = x.name s
  locked : ∀ dir, s.Locked dir → s'.Locked dir
  children : ∀ dir, s.Locked dir → (Node.directory dir).children s' = (Node.directory dir).children s
  leads : ∀ dir, s.Locked dir → (Node.directory dir).children s ≠ [] → ∀ (x : Node) path,
    x.descend? s path = some (.directory dir) → x.descend? s' path = some (.directory dir)

/-- Something stands in a directory, which is the one of a name or lies below it. -/
def Encloses (s : Store) (home : DirectoryId) (name : String) (dir : DirectoryId) : Prop :=
  s.listing dir ≠ [] ∧ ∃ rest, (Node.directory home).descend? s (name :: rest) = some (.directory dir)

structure Retitles (s s' : Store) (node : Node) (called : String) : Prop where
  sound : s'.Sound
  renames : Renames s s' node called
  children : ∀ x : Node, x.children s' = x.children s

end Store

open Store

variable {s s' s'' : Store} {dir holder : DirectoryId} {x node : Node} {name called : String}

theorem Store.Respects.refl (sound : s.Sound) : Respects s s :=
  ⟨sound, fun _ => id, fun _ _ => rfl, fun _ => id, fun _ _ => rfl, fun _ _ _ _ _ => id⟩

theorem Store.Respects.trans (first : Respects s s') (second : Respects s' s'') : Respects s s'' where
  sound := second.sound
  held x there := second.held x (first.held x there)
  name x there := (second.name x (first.held x there)).trans (first.name x there)
  locked dir locked := second.locked dir (first.locked dir locked)
  children dir locked := (second.children dir (first.locked dir locked)).trans (first.children dir locked)
  leads dir locked full x path reached := by
    have still := first.leads dir locked full x path reached
    rw [← first.children dir locked] at full
    exact second.leads dir (first.locked dir locked) full x path still

theorem Store.Respects.listing_eq (respects : Respects s s') (locked : s.Locked dir) :
    s'.listing dir = s.listing dir := by
  rw [listing, respects.children dir locked, listing]
  refine List.map_congr_left fun x listed => ?_
  rw [respects.name x (locked.sound.parent_held (locked.sound.mem_children.mp listed)).2]

section Changes

theorem Adds.respects {new : Node} {shown : Entry} (effect : Adds s s' (.directory holder) new name shown)
    (sound : s.Sound) (sound' : s'.Sound) (accepts : s.directoryWritable holder = true)
    (apart : ∀ dir, dir ≠ holder → (Node.directory dir).children s' = (Node.directory dir).children s) :
    Respects s s' := by
  have grows := effect.grows sound
  refine ⟨sound', grows.held, grows.name, fun dir locked => ⟨sound', grows.held _ locked.held, ?_⟩,
    fun dir locked => apart dir ?_, fun dir _ _ x path => grows.descend? sound sound'⟩
  · have shown := congrArg Entry.writable (grows.entry (.directory dir) locked.held)
    exact shown.trans locked.refuses
  · rintro rfl
    simp [locked.refuses] at accepts

/-- What is taken out of a directory that accepts it, with nothing in it, leaves all others as they are. -/
theorem Cuts.respects {gone : Node} (effect : Cuts s s' [gone]) (sound : s.Sound) (sound' : s'.Sound)
    (bare : gone.children s = [])
    (same : ∀ dir, s.directoryWritable dir = false →
      (Node.directory dir).children s' = (Node.directory dir).children s) : Respects s s' := by
  refine ⟨sound', fun x there => (effect.held x).trans there, fun x _ => effect.name x,
    fun dir locked => ⟨sound', (effect.held (.directory dir)).trans locked.held, ?_⟩,
    fun dir locked => same dir locked.refuses, fun dir _ full x path reached => ?_⟩
  · have shown := congrArg Entry.writable (effect.entry (.directory dir))
    exact shown.trans locked.refuses
  · -- nothing on the way is without children, the directory at its end included
    refine (effect.descend?_kept sound sound' ?_).trans reached
    rintro front y - ⟨rest, rfl⟩ there among
    obtain rfl := List.mem_singleton.mp among
    rw [descend?_append_of_reached there] at reached
    cases rest with
    | nil =>
      obtain rfl := Option.some.inj reached
      exact full bare
    | cons first rest =>
      rw [descend?_cons, Option.bind_eq_some_iff] at reached
      obtain ⟨z, found, -⟩ := reached
      have listed := sound.mem_children.mpr (sound.child?_eq_some.mp found).1
      rw [bare] at listed
      cases listed

theorem Store.Drops.children_of_unlisted {files : List FileId} {dirs : List DirectoryId}
    (effect : Drops s s' files dirs) (dir : DirectoryId) (kept : ∀ file ∈ files, file ∉ s.files dir)
    (keptToo : ∀ sub ∈ dirs, sub ∉ s.subdirectories dir) :
    (Node.directory dir).children s' = (Node.directory dir).children s := by
  have sameFiles : s'.files dir = s.files dir := by
    rw [effect.files, List.filter_eq_self]
    exact fun file listed => decide_eq_true fun among => kept file among listed
  have sameSubdirectories : s'.subdirectories dir = s.subdirectories dir := by
    rw [effect.subdirectories, List.filter_eq_self]
    exact fun sub listed => decide_eq_true fun among => keptToo sub among listed
  rw [Node.children, sameFiles, sameSubdirectories, Node.children]

variable (sound : s.Sound)
include sound

theorem Store.createFile_respects (dir : DirectoryId) (name : String) : Respects s (s.createFile dir name).2 := by
  rcases s.createFile_cases dir name with refused | ⟨new, after, created⟩
  · rw [refused]
    exact .refl sound
  · obtain ⟨free, effect⟩ := createFile_some created
    have accepts : s.directoryWritable dir = true := by
      by_contra locked
      simp [createFile, acceptsChild, locked] at created
    rw [created]
    refine (adds_file effect).respects sound (effect.sound sound free) accepts fun other apart => ?_
    rw [Node.children, effect.files, effect.subdirectories, if_neg apart, List.append_nil, Node.children]

theorem Store.createSubdirectory_respects (dir : DirectoryId) (name : String) :
    Respects s (s.createSubdirectory dir name).2 := by
  rcases s.createSubdirectory_cases dir name with refused | ⟨new, after, created⟩
  · rw [refused]
    exact .refl sound
  · obtain ⟨free, effect⟩ := createSubdirectory_some created
    have accepts : s.directoryWritable dir = true := by
      by_contra locked
      simp [createSubdirectory, acceptsChild, locked] at created
    rw [created]
    refine (adds_directory effect).respects sound (effect.sound sound free) accepts fun other apart => ?_
    rw [Node.children, effect.files, effect.subdirectories, if_neg apart, List.append_nil, Node.children]

theorem Store.deleteFile_respects (dir : DirectoryId) (name : String) : Respects s (s.deleteFile dir name).2 := by
  rcases sound.deleteFile_drops dir name with refused | ⟨file, after, done, found, effect⟩
  · rw [refused]
    exact .refl sound
  · have accepts : s.directoryWritable dir = true := by
      by_contra locked
      simp [deleteFile, locked] at done
    have owned := (sound.file_listed file dir).mp (file?_some found).1
    rw [done]
    refine (cuts_of_drops effect).respects sound (effect.sound sound) rfl fun other locked => ?_
    refine effect.children_of_unlisted other (fun gone among there => ?_) (by simp)
    obtain rfl := List.mem_singleton.mp among
    obtain rfl := Option.some.inj (owned.symm.trans ((sound.file_listed gone other).mp there))
    simp [locked] at accepts

theorem Store.deleteSubdirectory_respects (dir : DirectoryId) (name : String) :
    Respects s (s.deleteSubdirectory dir name).2 := by
  rcases sound.deleteSubdirectory_drops dir name with refused | ⟨sub, after, done, found, bare, effect⟩
  · rw [refused]
    exact .refl sound
  · have accepts : s.directoryWritable dir = true := by
      by_contra locked
      simp [deleteSubdirectory, locked] at done
    have owned := (sound.directory_listed sub dir).mp (subdirectory?_some found).1
    have bare : (Node.directory sub).children s = [] := by simpa [holdsNothing, Node.children] using bare
    rw [done]
    refine (cuts_of_drops effect).respects sound (effect.sound sound) bare fun other locked => ?_
    refine effect.children_of_unlisted other (by simp) (fun gone among there => ?_)
    obtain rfl := List.mem_singleton.mp among
    obtain rfl := Option.some.inj (owned.symm.trans ((sound.directory_listed gone other).mp there))
    simp [locked] at accepts

theorem Store.FillsFile.respects {file : FileId} {change : Bytes → Bytes} (effect : FillsFile s s' file change) :
    Respects s s' := by
  have sound' := effect.sound sound
  have parent? : ∀ x : Node, x.parent? s' = x.parent? s := by
    rintro (id | id)
    · simp [Node.parent?, effect.fileParent?]
    · simp [Node.parent?, directoryParent?_of_node (effect.directoryNode id)]
  have names : ∀ x : Node, x.name s' = x.name s := by
    rintro (id | id)
    · simp [Node.name, effect.fileName]
    · simp [Node.name, directoryName_of_node (effect.directoryNode id)]
  have held : ∀ x : Node, x.held s' = x.held s := by
    rintro (id | id)
    · simp [Node.held, effect.fileNode]
    · simp [Node.held, effect.directoryNode]
  refine ⟨sound', fun x there => (held x).trans there, fun x _ => names x, fun dir locked => ?_,
    fun dir _ => ?_, fun dir _ _ x path reached => ?_⟩
  · exact ⟨sound', (held _).trans locked.held,
      (directoryWritable_of_node (effect.directoryNode dir)).trans locked.refuses⟩
  · rw [Node.children, files_of_node (effect.directoryNode dir), subdirectories_of_node (effect.directoryNode dir),
      Node.children]
  · refine (descend?_congr fun _ name y _ _ => ?_).trans reached
    ext z
    rw [sound'.child?_eq_some, sound.child?_eq_some, parent?, names]

theorem Store.write_respects (file : FileId) (offset : Nat) (data : Bytes) :
    Respects s (s.write file offset data).2 := by
  rcases s.write_fills file offset data with refused | ⟨after, done, effect⟩
  · rw [refused]
    exact .refl sound
  · rw [done]
    exact effect.respects sound

theorem Store.resize_respects (file : FileId) (size : Nat) : Respects s (s.resize file size).2 := by
  rcases s.resize_fills file size with refused | ⟨after, done, effect⟩
  · rw [refused]
    exact .refl sound
  · rw [done]
    exact effect.respects sound

end Changes

/-- What holds of sound stores only, and still holds where directories that accept no changes are respected,
    is kept by all changes of single nodes other than new names. -/
def respecting (holds : Store → Prop) (sound : ∀ {s}, holds s → s.Sound)
    (kept : ∀ {s s'}, holds s → Respects s s' → holds s') : Enclosure Store where
  holds := holds
  file _ := True
  directory _ := True
  below _ := True
  directory_of_below := id
  subdirectories _ _ _ := trivial
  file? _ _ _ := trivial
  subdirectory? _ _ _ := trivial
  write offset data before _ := kept before (write_respects (sound before) _ offset data)
  resize size before _ := kept before (resize_respects (sound before) _ size)
  createFile name before _ := ⟨kept before (createFile_respects (sound before) _ name), fun _ _ => trivial⟩
  createSubdirectory name before _ :=
    ⟨kept before (createSubdirectory_respects (sound before) _ name), fun _ _ => trivial⟩
  deleteFile name before _ := kept before (deleteFile_respects (sound before) _ name)
  deleteSubdirectory name before _ := kept before (deleteSubdirectory_respects (sound before) _ name)

def respected (s₀ : Store) : Enclosure Store := respecting (Respects s₀) Respects.sound Respects.trans

section Refusals

variable {view : DirectoryView DirectoryId}

theorem Store.Respects.encloses (respects : Respects s s') (locked : s.Locked dir)
    (encloses : s.Encloses holder name dir) : s'.Encloses holder name dir := by
  obtain ⟨full, rest, reached⟩ := encloses
  refine ⟨respects.listing_eq locked ▸ full, rest, respects.leads dir locked ?_ _ _ reached⟩
  exact fun bare => full (List.map_eq_nil_iff.mpr bare)

theorem createFile_of_locked (locked : s.directoryWritable view.node = false) (name : String) :
    view.createFile s name = (none, s) := by
  simp [DirectoryView.createFile, Backing.createFile, Store.createFile, acceptsChild, locked]

theorem createSubdirectory_of_locked (locked : s.directoryWritable view.node = false) (name : String) :
    view.createSubdirectory s name = (none, s) := by
  simp [DirectoryView.createSubdirectory, Backing.createSubdirectory, Store.createSubdirectory, acceptsChild, locked]

theorem deleteFile_of_locked (locked : s.directoryWritable view.node = false) (name : String) :
    view.deleteFile s name = (false, s) := by
  simp [DirectoryView.deleteFile, Backing.deleteFile, Store.deleteFile, locked]

theorem deleteSubdirectory_of_locked (locked : s.directoryWritable view.node = false) (name : String) :
    view.deleteSubdirectory s name = (false, s) := by
  simp [DirectoryView.deleteSubdirectory, Backing.deleteSubdirectory, Store.deleteSubdirectory, locked]

theorem cleanSubdirectory_of_encloses (locked : s.Locked dir) (encloses : s.Encloses view.node name dir) :
    (view.cleanSubdirectory s name).1 = false := by
  by_contra succeeds
  rw [Bool.not_eq_false] at succeeds
  obtain ⟨node, _ | _⟩ := view
  · obtain ⟨sub, found, bare⟩ := cleanSubdirectory_bare (t := s) locked.sound node name succeeds
    have clears := cleanSubdirectory_cuts (t := s) locked.sound node name
    have respects : s.Respects ((DirectoryView.direct node).cleanSubdirectory s name).2 :=
      (respected s).cleanSubdirectory (.refl locked.sound) trivial name
    obtain ⟨full, rest, reached⟩ := respects.encloses locked encloses
    rw [descend?_cons, Option.bind_eq_some_iff] at reached
    obtain ⟨y, still, further⟩ := reached
    obtain rfl := Option.some.inj (found.symm.trans (clears.child? locked.sound still))
    cases rest with
    | nil =>
      obtain rfl := Node.directory.inj (Option.some.inj further)
      rw [listing, ne_eq, List.map_eq_nil_iff] at full
      obtain ⟨x, listed⟩ := List.exists_mem_of_ne_nil _ full
      have child := clears.1.child?_eq_some.mpr ⟨clears.1.mem_children.mp listed, rfl⟩
      exact absurd ((bare _).symm.trans child) (by simp)
    | cons first rest =>
      rw [descend?_cons, Option.bind_eq_some_iff] at further
      obtain ⟨z, child, -⟩ := further
      exact absurd ((bare _).symm.trans child) (by simp)
  · simp [DirectoryView.cleanSubdirectory, Backing.reach, reach, DirectoryView.cleanWithin] at succeeds

theorem deleteTree_of_encloses (locked : s.Locked dir) (encloses : s.Encloses view.node name dir) :
    (view.deleteTree s name).1 = false := by
  have fails := cleanSubdirectory_of_encloses locked encloses
  rw [DirectoryView.deleteTree]
  split
  · simp_all
  · rfl

theorem deleteTree_of_locked (locked : s.Locked view.node) (name : String) : (view.deleteTree s name).1 = false := by
  have respects : s.Respects (view.cleanSubdirectory s name).2 :=
    (respected s).cleanSubdirectory (.refl locked.sound) trivial name
  rw [DirectoryView.deleteTree]
  split
  · rename_i after done
    rw [done] at respects
    rw [deleteSubdirectory_of_locked (respects.locked _ locked).refuses]
  · rfl

end Refusals

section Names

theorem Store.Retitles.locked (retitles : Retitles s s' node called) (locked : s.Locked dir) : s'.Locked dir := by
  have shown := congrArg Entry.writable (retitles.renames.entry (.directory dir))
  exact ⟨retitles.sound, (retitles.renames.held _).trans locked.held, shown.trans locked.refuses⟩

theorem Store.Retitles.listing_eq_iff (retitles : Retitles s s' node called) (other : called ≠ node.name s) :
    s'.listing dir = s.listing dir ↔ node ∉ (Node.directory dir).children s := by
  rw [listing, retitles.children, listing, List.map_inj_left]
  constructor
  · intro same listed
    have named := congrArg Prod.fst (same node listed)
    rw [retitles.renames.name, if_pos rfl] at named
    exact other named
  · intro unlisted x listed
    rw [retitles.renames.name, if_neg]
    rintro rfl
    exact unlisted listed

theorem Store.renameFile_retitles (sound : s.Sound) (file : FileId) (name : String) :
    s.renameFile file name = (false, s) ∨
      ∃ after, s.renameFile file name = (true, after) ∧ Retitles s after (.file file) name := by
  rcases s.renameFile_renames file name with refused | ⟨after, done, -, free, effect⟩
  · exact .inl refused
  · have held : (Node.file file).held s = true := by
      by_contra absent
      simp only [Node.held, Bool.not_eq_true, Option.isSome_eq_false_iff, Option.isNone_iff_eq_none] at absent
      simp [renameFile, fileWritable, absent] at done
    refine .inr ⟨after, done, effect.sound sound free, renames_file effect held, ?_⟩
    rintro (id | id)
    · rfl
    · rw [Node.children, files_of_node (effect.directoryNode id), subdirectories_of_node (effect.directoryNode id),
        Node.children]

theorem Store.renameDirectory_retitles (sound : s.Sound) (dir : DirectoryId) (name : String) :
    s.renameDirectory dir name = (false, s) ∨
      ∃ after, s.renameDirectory dir name = (true, after) ∧ Retitles s after (.directory dir) name := by
  rcases s.renameDirectory_renames dir name with refused | ⟨after, done, -, free, effect⟩
  · exact .inl refused
  · have held : (Node.directory dir).held s = true := by
      by_contra absent
      simp only [Node.held, Bool.not_eq_true, Option.isSome_eq_false_iff, Option.isNone_iff_eq_none] at absent
      simp [renameDirectory, directoryWritable, absent] at done
    refine .inr ⟨after, done, effect.sound sound free, renames_directory effect held, ?_⟩
    rintro (id | id)
    · rfl
    · rw [Node.children, effect.files, effect.subdirectories, Node.children]

theorem Store.Locked.renameFile (locked : s.Locked dir) (file : FileId) (name : String) :
    (Backing.renameFile s file name).2.Locked dir := by
  rcases renameFile_retitles locked.sound file name with refused | ⟨after, done, retitles⟩
  · simpa [Backing.renameFile, refused] using locked
  · simpa [Backing.renameFile, done] using retitles.locked locked

theorem Store.Locked.renameDirectory (locked : s.Locked dir) (sub : DirectoryId) (name : String) :
    (Backing.renameDirectory s sub name).2.Locked dir := by
  rcases renameDirectory_retitles locked.sound sub name with refused | ⟨after, done, retitles⟩
  · simpa [Backing.renameDirectory, refused] using locked
  · simpa [Backing.renameDirectory, done] using retitles.locked locked

end Names

def lockedRegion (dir : DirectoryId) : Region Store where
  toEnclosure := respecting (·.Locked dir) Locked.sound fun locked respects => respects.locked dir locked
  renameFile name locked _ := locked.renameFile _ name
  renameDirectory name locked _ := locked.renameDirectory _ name

end GuestStorage.Memory
