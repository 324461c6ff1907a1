import GuestStorage.Proofs.Memory.Build
import GuestStorage.Proofs.Memory.Locked
import GuestStorage.Proofs.Session.Region

namespace GuestStorage.Tree.Mount

open Memory Node

variable {s : Store} {mount : Mount DirectoryId} {source target path : String} {dir : DirectoryId}
  {home goal : DirectoryView DirectoryId} {old new : String}

def NamesIn (s : Store) (mount : Mount DirectoryId) (path : String) (dir : DirectoryId) : Prop :=
  ∃ home name, mount.locate s path = .ok (home, name) ∧ home.node = dir

/-- What a path leads to is a directory or contains it, and something stands in there. -/
def Surrounds (s : Store) (mount : Mount DirectoryId) (path : String) (dir : DirectoryId) : Prop :=
  ∃ home name, mount.locate s path = .ok (home, name) ∧ s.Encloses home.node name dir

/-- One path and another name different things directly inside a directory. -/
def RenamesIn (s : Store) (mount : Mount DirectoryId) (source target : String) (dir : DirectoryId) : Prop :=
  ∃ home goal old new, mount.locate s source = .ok (home, old) ∧ mount.locate s target = .ok (goal, new) ∧
    home.node = dir ∧ goal.node = dir ∧ old ≠ new

/-- From one path to another, something leaves a directory or comes into it, or all that contains it goes. -/
def MovesAt (s : Store) (mount : Mount DirectoryId) (source target : String) (dir : DirectoryId) : Prop :=
  ∃ home goal old new, mount.locate s source = .ok (home, old) ∧ mount.locate s target = .ok (goal, new) ∧
    home.node ≠ goal.node ∧ (home.node = dir ∨ goal.node = dir ∨ s.Encloses home.node old dir)

theorem renamesIn_iff (located : mount.locate s source = .ok (home, old))
    (located' : mount.locate s target = .ok (goal, new)) :
    mount.RenamesIn s source target dir ↔ home.node = dir ∧ goal.node = dir ∧ old ≠ new := by
  simp only [RenamesIn, located, located', Except.ok.injEq, Prod.mk.injEq]
  constructor
  · rintro ⟨_, _, _, _, ⟨rfl, rfl⟩, ⟨rfl, rfl⟩, inside⟩
    exact inside
  · exact fun inside => ⟨home, goal, old, new, ⟨rfl, rfl⟩, ⟨rfl, rfl⟩, inside⟩

theorem samePlace_iff_node (sound : s.Sound) (located : mount.locate s source = .ok (home, old))
    (located' : mount.locate s target = .ok (goal, new)) {x : Node}
    (found : (Node.directory home.node).child? s old = some x) :
    samePlace s home goal = true ↔ home.node = goal.node := by
  have held := (sound.parent_held (sound.child?_eq_some.mp found).1).1
  obtain ⟨front, normal, -, reached⟩ := locate_view (t := s) located
  obtain ⟨back, normal', -, reached'⟩ := locate_view (t := s) located'
  have place := Memory.samePlace_iff (t := s) sound held reached reached'
    (fun name listed => (normalize_ok normal).2 name (List.mem_append_left _ listed))
    (fun name listed => (normalize_ok normal').2 name (List.mem_append_left _ listed))
  constructor
  · intro same
    obtain rfl := place.mp same
    exact Node.directory.inj (Option.some.inj (reached.symm.trans reached'))
  · intro same
    rw [samePlace, DirectoryView.path, same, DirectoryView.path]
    exact beq_self_eq_true _

theorem hasEntry_of_child {view : DirectoryView DirectoryId} {name : String} {x : Node}
    (found : (Node.directory view.node).child? s name = some x) : view.hasEntry s name = true := by
  have named : name ∈ s.childNames view.node := name_mem_childNames.mp (by rw [found]; rfl)
  rw [← Store.hasChild_iff] at named
  simpa [DirectoryView.hasEntry, DirectoryView.file?, DirectoryView.subdirectory?, Backing.file?,
    Backing.subdirectory?, Store.hasChild] using named

section Renaming

variable {V : Type} {nodeOf : V → Node} {child : DirectoryView DirectoryId → String → Option V}
  {rename : V → String → Option V × Store}
  {move : V → DirectoryView DirectoryId → String → DirectoryView DirectoryId → String → Except Error Unit × Store}
  {result : Except Error Unit × Store} (course : mount.Course s source target child rename move result)
  (finds : ∀ {home name entry}, child home name = some entry →
    (Node.directory home.node).child? s name = some (nodeOf entry))
include course finds

theorem Course.listing_ne_iff (locked : s.Locked dir)
    (renames : ∀ entry new, rename entry new = (none, s) ∨
      ∃ again after, rename entry new = (some again, after) ∧ s.Retitles after (nodeOf entry) new)
    (moves : ∀ entry home old goal new, s.Respects (move entry home old goal new).2) :
    result.2.listing dir ≠ s.listing dir ↔ result.1 = .ok () ∧ mount.RenamesIn s source target dir := by
  have sound := locked.sound
  cases course with
  | refused e => simp
  | own located _ located' => simp [renamesIn_iff located located']
  | moved located found located' apart =>
    have place := samePlace_iff_node sound located located' (finds found)
    have elsewhere := mt place.mpr (Bool.eq_false_iff.mp apart)
    rw [(moves _ _ _ _ _).listing_eq locked, renamesIn_iff located located']
    refine iff_of_false (by simp) ?_
    rintro ⟨-, here, there, -⟩
    exact elsewhere (here.trans there.symm)
  | @inPlace home goal old new entry answer located found located' same free outcome success =>
    obtain ⟨owned, named⟩ := sound.child?_eq_some.mp (finds found)
    have here := (samePlace_iff_node sound located located' (finds found)).mp same
    have other : new ≠ old := by
      rintro rfl
      have taken : goal.hasEntry s new = true := hasEntry_of_child (here ▸ finds found)
      simp [free] at taken
    rw [outcome, success, renamesIn_iff located located', ← here]
    rcases renames entry new with refused | ⟨again, after, done, retitles⟩
    · simp [refused]
    · rw [done, ne_eq, retitles.listing_eq_iff (named ▸ other), not_not, sound.mem_children, owned]
      simp [other.symm]

theorem Course.fails (locked : s.Locked dir) (demand : mount.MovesAt s source target dir)
    (moves : ∀ {home goal old new entry}, child home old = some entry →
      home.node = dir ∨ goal.node = dir ∨ s.Encloses home.node old dir →
        ∃ e, (move entry home old goal new).1 = .error e) : ∃ e, result.1 = .error e := by
  obtain ⟨home, goal, old, new, located, located', elsewhere, near⟩ := demand
  have apart : ∀ {entry}, child home old = some entry → ¬ samePlace s home goal = true := fun found same =>
    elsewhere ((samePlace_iff_node locked.sound located located' (finds found)).mp same)
  cases course with
  | refused e => exact ⟨e, rfl⟩
  | own there found there' same =>
    cases located.symm.trans there
    cases located'.symm.trans there'
    exact absurd same (apart found)
  | inPlace there found there' same =>
    cases located.symm.trans there
    cases located'.symm.trans there'
    exact absurd same (apart found)
  | moved there found there' =>
    cases located.symm.trans there
    cases located'.symm.trans there'
    exact moves found near

end Renaming

theorem file?_finds (sound : s.Sound) {name : String} {file : FileView FileId} (found : home.file? s name = some file) :
    (Node.directory home.node).child? s name = some (.file file.node) := by
  obtain ⟨inner, there, rfl⟩ := Option.map_eq_some_iff.mp found
  exact sound.child?_file_eq_some.mpr there

theorem subdirectory?_finds {name : String} {sub : DirectoryView DirectoryId}
    (found : home.subdirectory? s name = some sub) :
    (Node.directory home.node).child? s name = some (.directory sub.node) := by
  obtain ⟨inner, there, rfl⟩ := Option.map_eq_some_iff.mp found
  exact child?_directory_eq_some.mpr there

theorem rename_file_retitles (sound : s.Sound) (file : FileView FileId) (name : String) :
    file.rename s name = (none, s) ∨
      ∃ again after, file.rename s name = (some again, after) ∧ s.Retitles after (.file file.node) name := by
  rw [FileView.rename]
  split
  · exact .inl rfl
  · rcases Store.renameFile_retitles sound file.node name with refused | ⟨after, done, retitles⟩
    · exact .inl (by simp [Backing.renameFile, refused])
    · exact .inr ⟨.direct file.node, after, by simp [Backing.renameFile, done], retitles⟩

theorem rename_directory_retitles (sound : s.Sound) (sub : DirectoryView DirectoryId) (name : String) :
    sub.rename s name = (none, s) ∨
      ∃ again after, sub.rename s name = (some again, after) ∧ s.Retitles after (.directory sub.node) name := by
  rw [DirectoryView.rename]
  split
  · exact .inl rfl
  · rcases Store.renameDirectory_retitles sound sub.node name with refused | ⟨after, done, retitles⟩
    · exact .inl (by simp [Backing.renameDirectory, refused])
    · exact .inr ⟨.direct sub.node, after, by simp [Backing.renameDirectory, done], retitles⟩

theorem renameFile_listing_ne_iff (locked : s.Locked dir) (source target : String) :
    (mount.renameFile s source target).2.listing dir ≠ s.listing dir ↔
      (mount.renameFile s source target).1 = .ok () ∧ mount.RenamesIn s source target dir :=
  (mount.renameFile_course s source target).listing_ne_iff (file?_finds locked.sound) locked
    (rename_file_retitles locked.sound)
    (fun _ _ _ _ _ => (respected s).moveFile (.refl locked.sound) trivial trivial)

theorem renameDirectory_listing_ne_iff (locked : s.Locked dir) (source target : String) :
    (mount.renameDirectory s source target).2.listing dir ≠ s.listing dir ↔
      (mount.renameDirectory s source target).1 = .ok () ∧ mount.RenamesIn s source target dir :=
  (mount.renameDirectory_course s source target).listing_ne_iff subdirectory?_finds locked
    (rename_directory_retitles locked.sound)
    (fun _ _ _ _ _ => (respected s).moveDirectory (.refl locked.sound) trivial trivial trivial)

section Refusals

variable (locked : s.Locked dir)
include locked

theorem isWritable_of_locked {view : DirectoryView DirectoryId} (here : view.node = dir) :
    view.isWritable s = false := by
  subst here
  simp [DirectoryView.isWritable, Backing.directoryWritable, locked.refuses]

theorem moveFile_fails {file : FileView FileId} (near : home.node = dir ∨ goal.node = dir) :
    ∃ e, (moveFile s file home old goal new).1 = .error e := by
  rw [moveFile]
  split
  · exact ⟨_, rfl⟩
  · rename_i accepts
    rcases near with here | there
    · simp [isWritable_of_locked locked here] at accepts
    · rw [createFile_of_locked (there ▸ locked.refuses)]
      exact ⟨_, rfl⟩

theorem moveDirectory_fails {sub : DirectoryView DirectoryId}
    (near : home.node = dir ∨ goal.node = dir ∨ s.Encloses home.node old dir) :
    ∃ e, (moveDirectory s sub home old goal new).1 = .error e := by
  have created : s.Respects (goal.createSubdirectory s new).2 :=
    ((respected s).view_createSubdirectory (.refl locked.sound) trivial new).1
  rw [moveDirectory]
  split
  · exact ⟨_, rfl⟩
  · rename_i accepts
    split
    · exact ⟨_, rfl⟩
    · rename_i target s₁ done
      rw [done] at created
      have copied : s.Respects (sub.copyTree s₁ target).2 := (respected s).copyTree created trivial trivial
      split
      · exact ⟨_, rfl⟩
      · rename_i s₂ complete
        rw [complete] at copied
        have fails : (home.deleteTree s₂ old).1 = false := by
          rcases near with here | there | encloses
          · simp [isWritable_of_locked locked here] at accepts
          · simp [createSubdirectory_of_locked (there ▸ locked.refuses)] at done
          · exact deleteTree_of_encloses (copied.locked _ locked) (copied.encloses locked encloses)
        split
        · simp_all
        · exact ⟨_, rfl⟩

theorem renameFile_fails (demand : mount.MovesAt s source target dir) :
    ∃ e, (mount.renameFile s source target).1 = .error e := by
  refine (mount.renameFile_course s source target).fails (file?_finds locked.sound) locked demand ?_
  intro home goal old new file found near
  refine moveFile_fails locked (near.imp_right fun near => near.resolve_right ?_)
  rintro ⟨-, rest, reached⟩
  rw [descend?_cons, file?_finds locked.sound found, Option.bind_some] at reached
  cases rest with
  | nil => cases reached
  | cons first rest => cases reached

theorem renameDirectory_fails (demand : mount.MovesAt s source target dir) :
    ∃ e, (mount.renameDirectory s source target).1 = .error e :=
  (mount.renameDirectory_course s source target).fails subdirectory?_finds locked demand
    fun _ near => moveDirectory_fails locked near

theorem createFile_fails (demand : mount.NamesIn s path dir) (size : Nat) :
    ∃ e, (mount.createFile s path size).1 = .error e := by
  obtain ⟨home, name, located, rfl⟩ := demand
  rw [createFile_eq_attempt]
  refine attempt_fails located ?_
  rw [createSized, createFile_of_locked locked.refuses]
  exact ⟨_, rfl⟩

theorem createDirectory_fails (demand : mount.NamesIn s path dir) :
    ∃ e, (mount.createDirectory s path).1 = .error e := by
  obtain ⟨home, name, located, rfl⟩ := demand
  rw [createDirectory_eq_attempt]
  refine attempt_fails located ?_
  rw [createSubdirectory_of_locked locked.refuses]
  exact ⟨_, rfl⟩

theorem deleteFile_fails (demand : mount.NamesIn s path dir) : ∃ e, (mount.deleteFile s path).1 = .error e := by
  obtain ⟨home, name, located, rfl⟩ := demand
  rw [deleteFile_eq_attempt]
  refine attempt_fails located ?_
  rw [deleteFile_of_locked locked.refuses]
  exact ⟨_, rfl⟩

end Refusals

theorem onSubdirectory_fails {step : Store → DirectoryView DirectoryId → String → Bool × Store} {name : String}
    (located : mount.locate s path = .ok (home, name)) (fails : (step s home name).1 = false) :
    ∃ e, (onSubdirectory step s mount path).1 = .error e := by
  rw [onSubdirectory_eq_attempt]
  exact attempt_fails located ⟨_, congrArg Prod.fst (told_of_failed fails)⟩

end GuestStorage.Tree.Mount

namespace GuestStorage.Session

open GuestStorage.Tree Memory

variable {client : Client Store FileId DirectoryId} {dir : DirectoryId}

/-- What a request asks for cannot be done without adding, removing or moving something that stands directly
    inside a directory. -/
def PathRequest.Demands (s : Store) (mount : Mount DirectoryId) (dir : DirectoryId) : PathRequest → Prop
  | .createFile path _ | .createDirectory path | .deleteFile path | .deleteDirectory path =>
    mount.NamesIn s path dir
  | .deleteDirectoryRecursively path => mount.NamesIn s path dir ∨ mount.Surrounds s path dir
  | .cleanDirectoryRecursively path => mount.Surrounds s path dir
  | .renameFile source target | .renameDirectory source target => mount.MovesAt s source target dir
  | .commit | .entryType _ | .freeSpace _ | .totalSpace _ | .openFile _ _ | .openDirectory _ _ => False

def PathRequest.RenamesIn (s : Store) (mount : Mount DirectoryId) (dir : DirectoryId) : PathRequest → Prop
  | .renameFile source target | .renameDirectory source target => mount.RenamesIn s source target dir
  | .createFile _ _ | .createDirectory _ | .deleteFile _ | .deleteDirectory _ | .deleteDirectoryRecursively _
  | .cleanDirectoryRecursively _ | .commit | .entryType _ | .freeSpace _ | .totalSpace _ | .openFile _ _
  | .openDirectory _ _ => False

theorem afterChange_fails {step : Except Error Unit × Store} (failed : ∃ e, step.1 = .error e) :
    ∃ e, (client.afterChange step).1 = .error e := by
  obtain ⟨e, failed⟩ := failed
  exact ⟨.refused e, by rw [Client.afterChange, failed]; rfl⟩

theorem PathRequest.Demands.refused {fs : FileSystem DirectoryId} {request : PathRequest}
    (locked : client.storage.Locked dir) (demands : request.Demands client.storage fs.mount dir) :
    ∃ e, (client.path fs request).1 = .error e := by
  cases request with
  | createFile path size => exact afterChange_fails (Mount.createFile_fails locked demands size)
  | createDirectory path => exact afterChange_fails (Mount.createDirectory_fails locked demands)
  | deleteFile path => exact afterChange_fails (Mount.deleteFile_fails locked demands)
  | deleteDirectory path =>
    obtain ⟨home, name, located, rfl⟩ := demands
    exact afterChange_fails (Mount.onSubdirectory_fails located
      (by rw [deleteSubdirectory_of_locked locked.refuses]))
  | deleteDirectoryRecursively path =>
    rcases demands with ⟨home, name, located, rfl⟩ | ⟨home, name, located, encloses⟩
    · exact afterChange_fails (Mount.onSubdirectory_fails located (deleteTree_of_locked locked name))
    · exact afterChange_fails (Mount.onSubdirectory_fails located (deleteTree_of_encloses locked encloses))
  | cleanDirectoryRecursively path =>
    obtain ⟨home, name, located, encloses⟩ := demands
    exact afterChange_fails (Mount.onSubdirectory_fails located (cleanSubdirectory_of_encloses locked encloses))
  | renameFile source target => exact afterChange_fails (Mount.renameFile_fails locked demands)
  | renameDirectory source target => exact afterChange_fails (Mount.renameDirectory_fails locked demands)
  | commit | entryType | freeSpace | totalSpace | openFile | openDirectory => exact demands.elim

theorem afterChange_eq_done {step : Except Error Unit × Store} :
    (client.afterChange step).1 = .ok .done ↔ step.1 = .ok () := by
  obtain ⟨_ | _, s⟩ := step <;> simp [Client.afterChange, Client.ofExcept, Client.refuse]

theorem path_listing_ne_iff (locked : client.storage.Locked dir) (fs : FileSystem DirectoryId)
    (request : PathRequest) :
    (client.path fs request).2.storage.listing dir ≠ client.storage.listing dir ↔
      (client.path fs request).1 = .ok .done ∧ request.RenamesIn client.storage fs.mount dir := by
  cases request with
  | renameFile source target =>
    exact (Mount.renameFile_listing_ne_iff locked source target).trans
      (and_congr_left' afterChange_eq_done.symm)
  | renameDirectory source target =>
    exact (Mount.renameDirectory_listing_ne_iff locked source target).trans
      (and_congr_left' afterChange_eq_done.symm)
  | createFile | deleteFile | createDirectory | deleteDirectory | deleteDirectoryRecursively
  | cleanDirectoryRecursively | commit | entryType | freeSpace | totalSpace | openFile | openDirectory =>
    refine iff_of_false (absurd (Store.Respects.listing_eq ?_ locked)) And.right
    exact (respected client.storage).client_path_of_renames (.refl locked.sound) trivial _ nofun nofun

/-- A request that gets through and gives something in a directory another name there. -/
def Client.RenamesIn (client : Client Store FileId DirectoryId) (dir : DirectoryId) (sent : Request) : Prop :=
  ∃ handle fs request, sent = .path handle request ∧ client.table.fileSystem handle = .ok fs ∧
    (client.path fs request).1 = .ok .done ∧ request.RenamesIn client.storage fs.mount dir

/-- A request for something that cannot be done without adding, removing or moving what stands directly inside
    a directory. -/
def Client.Demands (client : Client Store FileId DirectoryId) (dir : DirectoryId) (sent : Request) : Prop :=
  ∃ handle fs request, sent = .path handle request ∧ client.table.fileSystem handle = .ok fs ∧
    request.Demands client.storage fs.mount dir

theorem Client.step_path {handle : Nat} {fs : FileSystem DirectoryId}
    (found : client.table.fileSystem handle = .ok fs) (request : PathRequest) :
    client.step (.path handle request) = client.path fs request := by
  simp only [Client.step, found, Client.withSession]

theorem Client.Demands.refused {sent : Request} (locked : client.storage.Locked dir)
    (demands : client.Demands dir sent) : ∃ e, (client.step sent).1 = .error e := by
  obtain ⟨handle, fs, request, rfl, found, demands⟩ := demands
  rw [client.step_path found]
  exact demands.refused locked

theorem step_listing_ne_iff (locked : client.storage.Locked dir) (sent : Request) :
    (client.step sent).2.storage.listing dir ≠ client.storage.listing dir ↔ client.RenamesIn dir sent := by
  constructor
  · let explained (s : Store) := s.listing dir ≠ client.storage.listing dir → client.RenamesIn dir sent
    refine Client.step_keeps_of explained (absurd rfl) ?_ ?_
    · intro handle fs request sent found changed
      exact ⟨handle, fs, request, sent, found, (path_listing_ne_iff locked fs request).mp changed⟩
    · intro handle opened request _ _ changed
      have respects : client.storage.Respects (client.file opened request).2.storage :=
        (respected client.storage).client_file (.refl locked.sound) trivial request
      exact absurd (respects.listing_eq locked) changed
  · rintro ⟨handle, fs, request, rfl, found, renames⟩
    rw [client.step_path found]
    exact (path_listing_ne_iff locked fs request).mpr renames

theorem run_locked (locked : client.storage.Locked dir) (requests : List Request) :
    (client.run requests).2.storage.Locked dir := by
  have serves : (lockedRegion dir).Serves client := by
    refine ⟨locked, fun handle session _ => ?_⟩
    cases session <;> trivial
  exact (serves.run requests).holds

/-- In no run of requests does what a directory shows that accepts no changes ever change, unless one of the
    requests gets through that gives something in there another name in there; and whatever cannot be done
    without adding, removing or moving something in there is refused. -/
theorem locked_listing_kept_iff {client : Client Store FileId DirectoryId} {dir : DirectoryId}
    (locked : client.storage.Locked dir) (requests : List Request) :
    ((∀ early late, requests = early ++ late →
        (client.run early).2.storage.listing dir = client.storage.listing dir) ↔
      ∀ early sent late, requests = early ++ sent :: late → ¬ (client.run early).2.RenamesIn dir sent) ∧
    ∀ early sent late, requests = early ++ sent :: late → (client.run early).2.Demands dir sent →
      ∃ e, ((client.run early).2.step sent).1 = .error e := by
  have step := fun early sent => step_listing_ne_iff (run_locked locked early) sent
  refine ⟨⟨?_, ?_⟩, fun early sent late _ demands => demands.refused (run_locked locked early)⟩
  · intro kept early sent late parts renames
    have before := kept early (sent :: late) parts
    have after := kept (early ++ [sent]) late (by simp [parts])
    rw [Client.run_concat] at after
    exact (step early sent).mpr renames (after.trans before.symm)
  · intro none early late parts
    induction early using List.reverseRecOn generalizing late with
    | nil => rfl
    | append_singleton early sent ih =>
      rw [List.append_assoc] at parts
      rw [Client.run_concat, ← ih _ parts]
      exact not_not.mp (mt (step early sent).mp (none early sent late parts))

def cabinet : Client Store FileId DirectoryId :=
  Client.mounted (Store.empty.plant "root" false [.directory "safe" [.file "will" [1] false] true]).2 (.direct ⟨0⟩)
    ⟨.nandUser, 0, 0⟩

theorem cabinet_changes :
    (∃ e, (cabinet.step (.path 1 (.deleteFile "safe/will"))).1 = .error e) ∧
      ¬ ∀ early late, [.path 1 (.renameFile "safe/will" "safe/deed")] = early ++ late →
        (cabinet.run early).2.storage.listing ⟨1⟩ = cabinet.storage.listing ⟨1⟩ := by
  have locked : cabinet.storage.Locked ⟨1⟩ :=
    ⟨Store.plant_sound Store.empty_sound "root" false _, by decide +kernel, by decide +kernel⟩
  refine ⟨(locked_listing_kept_iff locked _).2 [] (.path 1 (.deleteFile "safe/will")) [] rfl
    ⟨1, _, _, rfl, rfl, .direct ⟨1⟩, "will", ?_, rfl⟩,
    fun kept => (locked_listing_kept_iff locked _).1.mp kept [] _ [] rfl
      ⟨1, _, _, rfl, rfl, ?_, .direct ⟨1⟩, .direct ⟨1⟩, "will", "deed", ?_, ?_, rfl, rfl, by decide⟩⟩
  · decide +kernel
  · decide +kernel
  · decide +kernel
  · decide +kernel

end GuestStorage.Session
