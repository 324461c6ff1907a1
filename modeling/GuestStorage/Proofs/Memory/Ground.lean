import GuestStorage.Proofs.Memory.Domain
import GuestStorage.Proofs.Tree.Ground

namespace GuestStorage.Memory.Store

open Node GuestStorage.Tree

section Finding

variable {s : Store} {dir sub : DirectoryView DirectoryId} {name : String}

theorem Sound.view_subdirectory? (sound : s.Sound) :
    dir.subdirectory? s name = some sub ↔ sub ∈ dir.subdirectories s ∧ sub.name s = name := by
  rw [DirectoryView.subdirectory?, Option.map_eq_some_iff, DirectoryView.subdirectories, List.mem_map]
  constructor
  · rintro ⟨id, found, rfl⟩
    obtain ⟨listed, named⟩ := sound.subdirectory?_eq_some.mp found
    exact ⟨⟨id, listed, rfl⟩, named⟩
  · rintro ⟨⟨id, listed, rfl⟩, named⟩
    exact ⟨id, sound.subdirectory?_eq_some.mpr ⟨listed, named⟩, rfl⟩

theorem Sound.finds (sound : s.Sound) (dir : DirectoryView DirectoryId) : dir.Finds s :=
  fun _ listed => sound.view_subdirectory?.mpr ⟨listed, rfl⟩

end Finding

section Level

variable {s s' : Store} {dir : DirectoryView DirectoryId}

theorem sameLevel (sound : s.Sound) (sound' : s'.Sound) (files : s'.files dir.node = s.files dir.node)
    (subdirectories : s'.subdirectories dir.node = s.subdirectories dir.node)
    (names : ∀ sub ∈ s.subdirectories dir.node, s'.directoryName sub = s.directoryName sub)
    (writable : s'.directoryWritable dir.node = s.directoryWritable dir.node) : SameLevel s s' dir := by
  refine ⟨?_, fun name => ?_, fun _ => sound'.finds dir, ?_⟩
  · simp only [DirectoryView.files, Backing.files, files]
    exact id
  · have same : s'.subdirectory? dir.node name = s.subdirectory? dir.node name := by
      refine Option.ext fun sub => ?_
      rw [sound'.subdirectory?_eq_some, sound.subdirectory?_eq_some, subdirectories]
      exact and_congr_right fun listed => by rw [names sub listed]
    simp only [DirectoryView.subdirectory?, Backing.subdirectory?, same]
  · simp only [DirectoryView.isWritable, Backing.directoryWritable, writable]

theorem FillsFile.sameLevel {file : FileId} {change : Bytes → Bytes} (effect : FillsFile s s' file change)
    (sound : s.Sound) (dir : DirectoryView DirectoryId) : SameLevel s s' dir := by
  have node := effect.directoryNode
  exact Store.sameLevel sound (effect.sound sound) (files_of_node (node _)) (subdirectories_of_node (node _))
    (fun sub _ => directoryName_of_node (node sub)) (directoryWritable_of_node (node _))

theorem Apart.sameLevel {s₀ : Store} {top : DirectoryId} (apart : Apart s₀ top s)
    (outside : ¬ s₀.Domain top (.directory dir.node)) : SameLevel s₀ s dir := by
  have node := apart.only.directory dir.node outside
  refine Store.sameLevel apart.first apart.sound (files_of_node node) (subdirectories_of_node node)
    (fun sub listed => ?_) (directoryWritable_of_node node)
  have owned : (Node.directory sub).parent? s₀ = some (.directory dir.node) := by
    rw [Node.parent?, (apart.first.directory_listed sub dir.node).mp listed]
    rfl
  exact apart.name_eq (apart.child_outside outside owned)

end Level

section Views

variable {s : Store} {root dir sub : DirectoryView DirectoryId} {names : List String} {name : String}

theorem Sound.view_names_nodup (sound : s.Sound) (dir : DirectoryView DirectoryId) :
    ((dir.subdirectories s).map (·.name s)).Nodup := by
  rw [DirectoryView.subdirectories, List.map_map]
  exact (List.nodup_append.mp (sound.names_nodup dir.node)).2.1

theorem AddsDirectory.subdirectory? {s' : Store} {id holder new : DirectoryId}
    (effect : AddsDirectory s s' holder new name) (sound : s.Sound) (sound' : s'.Sound) (wanted : String) :
    s'.subdirectory? id wanted =
      if id = holder ∧ wanted = name then some new else s.subdirectory? id wanted := by
  split
  · rename_i here
    obtain ⟨rfl, rfl⟩ := here
    exact sound'.subdirectory?_eq_some.mpr (by simp [effect.subdirectories, effect.directoryName])
  · rename_i elsewhere
    refine Option.ext fun sub => ?_
    rw [sound'.subdirectory?_eq_some, sound.subdirectory?_eq_some, effect.subdirectories,
      effect.directoryName, List.mem_append]
    have old : sub ∈ s.subdirectories id → sub ≠ new := by
      rintro listed rfl
      exact sound.fresh_directory_unlisted effect.fresh id listed
    constructor
    · rintro ⟨listed | added, named⟩
      · rw [if_neg (old listed)] at named
        exact ⟨listed, named⟩
      · split at added
        · rename_i same
          obtain rfl := List.mem_singleton.mp added
          rw [if_pos rfl] at named
          exact absurd ⟨same, named.symm⟩ elsewhere
        · cases added
    · rintro ⟨listed, named⟩
      exact ⟨.inl listed, by rwa [if_neg (old listed)]⟩

theorem AddsDirectory.makes {s' : Store} {new : DirectoryId} (effect : AddsDirectory s s' dir.node new name)
    (sound : s.Sound) (sound' : s'.Sound) (held : (Node.directory root.node).held s = true)
    (direct : dir.readOnly = false) (reached : root.descend? s names = some dir) :
    Makes root s s' names name (.direct new) := by
  have old : ∀ {id}, (Node.directory id).held s = true → id ≠ new := by
    rintro id there rfl
    simp [Node.held, effect.fresh] at there
  have oldDirectory : ∀ {others found}, root.descend? s others = some found → found.node ≠ new := by
    intro others found led
    exact old (sound.descend?_held held ((view_descend?_eq_some s).mp led).2)
  have bareFiles : s.files new = [] := by simp [Store.files, effect.fresh]
  have bare : s.subdirectories new = [] := by simp [Store.subdirectories, effect.fresh]
  have apart : new ≠ dir.node := (oldDirectory reached).symm
  refine ⟨?_, fun wanted => ?_, sound'.finds _, ?_, fun led => ?_, fun _ _ => sound'.finds _, fun led => ?_,
    fun {others found} led wanted => ?_⟩
  · simp [DirectoryView.files, DirectoryView.direct, Backing.files, effect.files, bareFiles]
  · simp [DirectoryView.subdirectory?, DirectoryView.direct, Backing.subdirectory?, Store.subdirectory?,
      effect.subdirectories, bare, apart]
  · simp [DirectoryView.isWritable, DirectoryView.direct, Backing.directoryWritable, effect.directoryWritable]
  · simp only [DirectoryView.files, Backing.files, effect.files]
    exact id
  · simp only [DirectoryView.isWritable, Backing.directoryWritable, effect.directoryWritable,
      if_neg (oldDirectory led)]
  · -- nodes are met on one way only, so being the holder and lying at its path is the same
    have place : found.node = dir.node ↔ others = names := by
      obtain ⟨access, one⟩ := (view_descend?_eq_some s).mp led
      obtain ⟨alsoAccess, other⟩ := (view_descend?_eq_some s).mp reached
      constructor
      · intro same
        exact sound.path_unique one (same ▸ other)
      · rintro rfl
        rw [Option.some.inj (led.symm.trans reached)]
    have access : found.node = dir.node → found.readOnly = false := by
      intro same
      rw [place.mp same] at led
      rwa [Option.some.inj (led.symm.trans reached)]
    simp only [DirectoryView.subdirectory?, Backing.subdirectory?, effect.subdirectory? sound sound', place]
    split
    · rename_i here
      rw [Option.map_some, access (place.mpr here.1)]
      rfl
    · rfl

theorem accepts_of_missing (named : name ≠ "") (files : dir.files s = [])
    (missing : dir.subdirectory? s name = none) (writable : dir.isWritable s = true) :
    s.acceptsChild dir.node name = true := by
  have noFiles : s.files dir.node = [] := List.map_eq_nil_iff.mp files
  have noDirectory : s.subdirectory? dir.node name = none := Option.map_eq_none_iff.mp missing
  have access : s.directoryWritable dir.node = true := ((Bool.and_eq_true _ _).mp writable).2
  have noFile : s.file? dir.node name = none := by simp [Store.file?, noFiles]
  simp [acceptsChild, hasChild, access, named, noFile, noDirectory]

theorem Sound.not_domain (sound : s.Sound) (held : (Node.directory root.node).held s = true) {others : List String}
    {found : DirectoryView DirectoryId} (reached : root.descend? s names = some dir)
    (apart : ¬ names <+: others) (led : root.descend? s others = some found) :
    ¬ s.Domain dir.node (.directory found.node) := by
  obtain ⟨-, way⟩ := (view_descend?_eq_some s).mp reached
  obtain ⟨-, other⟩ := (view_descend?_eq_some s).mp led
  exact Store.not_domain (sound.descend?_held held other)
    fun within => apart (sound.prefix_of_within way within other)

end Views

theorem FillsFile.steady {s s' : Store} {root : DirectoryId} {file : FileId} {change : Bytes → Bytes}
    (effect : FillsFile s s' file change) (holds : s.Sound ∧ (Node.directory root).held s = true) :
    Steady (fun s => s.Sound ∧ (Node.directory root).held s = true) (DirectoryView.direct root) s s' :=
  ⟨⟨effect.sound holds.1, by simpa [Node.held, effect.directoryNode] using holds.2⟩,
    fun _ dir _ => effect.sameLevel holds.1 dir⟩

/-- Below a directory of a well-formed store, directories can be made and worked in. -/
def ground (root : DirectoryId) : Ground Store (.direct root) where
  holds s := s.Sound ∧ (Node.directory root).held s = true
  room _ := True
  room_nil := trivial
  room_of_prefix _ _ := trivial
  found holds _ := holds.1.view_subdirectory?.mp
  listed {_ _ dir} holds _ sub listed := .inl (holds.1.finds dir sub listed)
  names_nodup holds _ := holds.1.view_names_nodup _
  short {s _ _ _ _} holds _ further := holds.1.length_lt_reach ((view_descend?_eq_some s).mp further).2
  create {s names dir name} holds reached usable _ files missing writable := by
    obtain ⟨sound, held⟩ := holds
    have direct : dir.readOnly = false := ((view_descend?_eq_some s).mp reached).1
    have accepts := accepts_of_missing usable.isName.1 files missing writable
    obtain ⟨new, s', created, effect⟩ := createSubdirectory_adds accepts
    have sound' := effect.sound sound (free_of_accepts accepts)
    refine ⟨.direct new, s', ?_, ⟨sound', ?_⟩, effect.makes sound sound' held direct reached⟩
    · simp [DirectoryView.createSubdirectory, direct, Backing.createSubdirectory, created]
    · simp only [Node.held, effect.directoryNode] at held ⊢
      split <;> simp_all
  refuse {s names dir name} holds reached refused := by
    replace refused := refused.resolve_left (not_not_intro trivial)
    have access : s.directoryWritable dir.node = false := by
      have direct : dir.readOnly = false := ((view_descend?_eq_some s).mp reached).1
      simpa [DirectoryView.isWritable, direct, Backing.directoryWritable] using refused
    have refuses : s.acceptsChild dir.node name = false := by simp [acceptsChild, access]
    rw [DirectoryView.createSubdirectory]
    split
    · rfl
    · simp [Backing.createSubdirectory, createSubdirectory_refused refuses]
  write {s} file offset data holds := by
    rcases s.write_fills file offset data with same | ⟨after, done, effect⟩
    · simpa only [Backing.write, same] using .refl _ holds
    · simpa only [Backing.write, done] using effect.steady holds
  resize {s} file size holds := by
    rcases s.resize_fills file size with same | ⟨after, done, effect⟩
    · simpa only [Backing.resize, same] using .refl _ holds
    · simpa only [Backing.resize, done] using effect.steady holds
  part {s names dir} holds proper reached := by
    obtain ⟨sound, held⟩ := holds
    have there := sound.descend?_held held ((view_descend?_eq_some s).mp reached).2
    refine ⟨s.domain dir.node, ⟨sound, sound, there, .refl _ _ s⟩, .inr (.refl _), fun s' apart => ?_⟩
    exact ⟨⟨apart.sound, apart.only.held _ held⟩,
      fun others found elsewhere led => apart.sameLevel (sound.not_domain held reached elsewhere led)⟩

end GuestStorage.Memory.Store
