import GuestStorage.Proofs.Tree.Attempts
import GuestStorage.Proofs.Tree.Loops
import GuestStorage.Proofs.Tree.Renaming

namespace GuestStorage.Tree

/-- What is listed in a directory of the part or found there by name belongs to the part, and so does what
    is created there; and all changes of nodes that belong to it, other than new names, keep what holds of the
    storage. -/
structure Enclosure (σ : Type) {F D : Type} [Backing σ F D] where
  holds : σ → Prop
  file : F → Prop
  directory : D → Prop
  /-- Belongs to the part and may get another name. -/
  below : D → Prop
  directory_of_below : ∀ {dir}, below dir → directory dir
  subdirectories : ∀ {s dir sub}, holds s → directory dir → sub ∈ Backing.subdirectories s dir → below sub
  file? : ∀ {s dir name file'}, holds s → directory dir → Backing.file? s dir name = some file' → file file'
  subdirectory? : ∀ {s dir name sub}, holds s → directory dir →
    Backing.subdirectory? s dir name = some sub → below sub
  write : ∀ {s file'} (offset : Nat) (data : Bytes), holds s → file file' →
    holds (Backing.write s file' offset data).2
  resize : ∀ {s file'} (size : Nat), holds s → file file' → holds (Backing.resize s file' size).2
  createFile : ∀ {s dir} (name : String), holds s → directory dir →
    holds (Backing.createFile s dir name).2 ∧ ∀ new, (Backing.createFile s dir name).1 = some new → file new
  createSubdirectory : ∀ {s dir} (name : String), holds s → directory dir →
    holds (Backing.createSubdirectory s dir name).2 ∧
      ∀ new, (Backing.createSubdirectory s dir name).1 = some new → below new
  deleteFile : ∀ {s dir} (name : String), holds s → directory dir → holds (Backing.deleteFile s dir name).2
  deleteSubdirectory : ∀ {s dir} (name : String), holds s → directory dir →
    holds (Backing.deleteSubdirectory s dir name).2

/-- A part in which new names keep what holds of the storage, too. -/
structure Region (σ : Type) {F D : Type} [Backing σ F D] extends Enclosure σ where
  renameFile : ∀ {s file'} (name : String), holds s → file file' → holds (Backing.renameFile s file' name).2
  renameDirectory : ∀ {s dir} (name : String), holds s → below dir →
    holds (Backing.renameDirectory s dir name).2

namespace Enclosure

variable {σ F D : Type} [Backing σ F D] (region : Enclosure σ) {s s' : σ} {dir sub : DirectoryView D}
  {file : FileView F} {name : String}

theorem after {α : Type} {result : α × σ} {answer : α} (kept : region.holds result.2)
    (ends : result = (answer, s')) : region.holds s' := by
  rw [ends] at kept
  exact kept

section Views

theorem view_subdirectories (holds : region.holds s) (here : region.directory dir.node)
    (listed : sub ∈ dir.subdirectories s) : region.below sub.node := by
  obtain ⟨inner, among, rfl⟩ := List.mem_map.mp listed
  exact region.subdirectories holds here among

theorem view_file? (holds : region.holds s) (here : region.directory dir.node)
    (found : dir.file? s name = some file) : region.file file.node := by
  obtain ⟨inner, there, rfl⟩ := Option.map_eq_some_iff.mp found
  exact region.file? holds here there

theorem view_subdirectory? (holds : region.holds s) (here : region.directory dir.node)
    (found : dir.subdirectory? s name = some sub) : region.below sub.node := by
  obtain ⟨inner, there, rfl⟩ := Option.map_eq_some_iff.mp found
  exact region.subdirectory? holds here there

theorem view_write (holds : region.holds s) (here : region.file file.node) (offset : Nat) (data : Bytes) :
    region.holds (file.write s offset data).2 := by
  unfold FileView.write
  split
  · exact holds
  · exact region.write offset data holds here

theorem view_resize (holds : region.holds s) (here : region.file file.node) (size : Nat) :
    region.holds (file.resize s size).2 := by
  unfold FileView.resize
  split
  · exact holds
  · exact region.resize size holds here

theorem view_createFile (holds : region.holds s) (here : region.directory dir.node) (name : String) :
    region.holds (dir.createFile s name).2 ∧
      ∀ new, (dir.createFile s name).1 = some new → region.file new.node := by
  unfold DirectoryView.createFile
  split
  · exact ⟨holds, by simp⟩
  · obtain ⟨kept, member⟩ := region.createFile name holds here
    refine ⟨kept, fun new created => ?_⟩
    obtain ⟨inner, made, rfl⟩ := Option.map_eq_some_iff.mp created
    exact member inner made

theorem view_createSubdirectory (holds : region.holds s) (here : region.directory dir.node) (name : String) :
    region.holds (dir.createSubdirectory s name).2 ∧
      ∀ new, (dir.createSubdirectory s name).1 = some new → region.below new.node := by
  unfold DirectoryView.createSubdirectory
  split
  · exact ⟨holds, by simp⟩
  · obtain ⟨kept, member⟩ := region.createSubdirectory name holds here
    refine ⟨kept, fun new created => ?_⟩
    obtain ⟨inner, made, rfl⟩ := Option.map_eq_some_iff.mp created
    exact member inner made

theorem view_deleteFile (holds : region.holds s) (here : region.directory dir.node) (name : String) :
    region.holds (dir.deleteFile s name).2 := by
  unfold DirectoryView.deleteFile
  split
  · exact holds
  · exact region.deleteFile name holds here

theorem view_deleteSubdirectory (holds : region.holds s) (here : region.directory dir.node) (name : String) :
    region.holds (dir.deleteSubdirectory s name).2 := by
  unfold DirectoryView.deleteSubdirectory
  split
  · exact holds
  · exact region.deleteSubdirectory name holds here

end Views

section Walks

theorem descend? (holds : region.holds s) (here : region.directory dir.node) {names : List String}
    (reached : dir.descend? s names = some sub) : region.directory sub.node := by
  induction names generalizing dir with
  | nil =>
    cases reached
    exact here
  | cons name rest ih =>
    rw [DirectoryView.descend?, List.foldlM_cons] at reached
    obtain ⟨next, found, further⟩ := Option.bind_eq_some_iff.mp reached
    exact ih (region.directory_of_below (region.view_subdirectory? holds here found)) further

theorem cleanWithin (holds : region.holds s) (here : region.directory dir.node) (depth : Nat) (name : String) :
    region.holds (DirectoryView.cleanWithin depth s dir name).2 := by
  induction depth generalizing s dir name with
  | zero => exact holds
  | succ depth ih =>
    rw [DirectoryView.cleanWithin]
    split
    · exact holds
    · split
      · exact holds
      · rename_i inner found
        have inside := region.directory_of_below (region.view_subdirectory? holds here found)
        have emptied : region.holds (DirectoryView.forEach (fun s file => inner.deleteFile s (file.name s))
            (inner.files s) s).2 :=
          DirectoryView.forEach_keeps region.holds
            (fun s file _ kept => region.view_deleteFile kept inside (file.name s)) holds
        refine DirectoryView.forEach_keeps region.holds (fun s sub _ kept => ?_) emptied
        have cleaned := ih kept inside (sub.name s)
        dsimp only
        split
        · rename_i s' done
          rw [done] at cleaned
          exact region.view_deleteSubdirectory cleaned inside _
        · rename_i s' failed
          exact region.after cleaned failed

theorem cleanSubdirectory (holds : region.holds s) (here : region.directory dir.node) (name : String) :
    region.holds (dir.cleanSubdirectory s name).2 := region.cleanWithin holds here _ name

theorem deleteTree (holds : region.holds s) (here : region.directory dir.node) (name : String) :
    region.holds (dir.deleteTree s name).2 := by
  have cleaned := region.cleanSubdirectory holds here name
  unfold DirectoryView.deleteTree
  split
  · rename_i s' done
    rw [done] at cleaned
    exact region.view_deleteSubdirectory cleaned here name
  · rename_i s' failed
    exact region.after cleaned failed

theorem placeFile (holds : region.holds s) (here : region.directory dir.node) (name : String) (data : Bytes) :
    region.holds (dir.placeFile s name data).2 := by
  obtain ⟨kept, member⟩ := region.view_createFile holds here name
  unfold DirectoryView.placeFile
  split
  · rename_i s' refused
    exact region.after kept refused
  · rename_i copy s' created
    rw [created] at kept member
    have inside := member copy rfl
    have sized := region.view_resize kept inside data.length
    split
    · rename_i s'' refused
      exact region.after sized refused
    · rename_i s'' resized
      rw [resized] at sized
      exact region.view_write sized inside 0 data

theorem copyTreeWithin (depth : Nat) {source target : DirectoryView D} (holds : region.holds s)
    (origin : region.directory source.node) (here : region.directory target.node) :
    region.holds (DirectoryView.copyTreeWithin depth s source target).2 := by
  induction depth generalizing s source target with
  | zero => exact holds
  | succ depth ih =>
    have files : region.holds (DirectoryView.forEachUntil
        (fun s file => target.placeFile s (file.name s) (file.readAll s)) (source.files s) s).2 :=
      DirectoryView.forEachUntil_keeps region.holds (fun s file _ kept => region.placeFile kept here _ _) holds
    rw [DirectoryView.copyTreeWithin]
    split
    · rename_i s' failed
      exact region.after files failed
    · rename_i s' done
      rw [done] at files
      refine DirectoryView.forEachUntil_keeps region.holds (fun s sub listed kept => ?_) files
      have inside := region.view_subdirectories files origin listed
      obtain ⟨further, member⟩ := region.view_createSubdirectory kept here (sub.name s)
      split
      · rename_i s'' refused
        exact region.after further refused
      · rename_i copy s'' created
        rw [created] at further member
        exact ih further (region.directory_of_below inside) (region.directory_of_below (member copy rfl))

theorem copyTree {source target : DirectoryView D} (holds : region.holds s)
    (origin : region.directory source.node) (here : region.directory target.node) :
    region.holds (source.copyTree s target).2 := region.copyTreeWithin _ holds origin here

end Walks

section Mounts

variable {mount : Mount D}

theorem locate (holds : region.holds s) (here : region.directory mount.root.node) {path : String}
    (located : mount.locate s path = .ok (dir, name)) : region.directory dir.node := by
  obtain ⟨front, -, reached⟩ := Mount.locate_eq_ok.mp located
  exact region.descend? holds here reached

theorem attempt {fault : Error} {barred : DirectoryView D → String → Bool}
    {step : DirectoryView D → String → Except Error Unit × σ} (holds : region.holds s)
    (here : region.directory mount.root.node)
    (each : ∀ {dir : DirectoryView D} (name : String), region.directory dir.node → region.holds (step dir name).2)
    (path : String) : region.holds (mount.attempt s path fault barred step).2 := by
  rcases mount.attempt_cases s path fault barred step with ⟨e, refused⟩ | ⟨dir, name, located, -, taken⟩
  · rw [refused]
    exact holds
  · rw [taken]
    exact each name (region.locate holds here located)

theorem createSized (holds : region.holds s) (inside : region.directory dir.node) (name : String) (size : Nat) :
    region.holds (Mount.createSized s dir name size).2 := by
  obtain ⟨kept, member⟩ := region.view_createFile holds inside name
  rw [Mount.createSized]
  split
  · rename_i s' refused
    exact region.after kept refused
  · rename_i file s' created
    rw [created] at kept member
    have sized := region.view_resize kept (member file rfl) size
    split
    · rename_i s'' done
      exact region.after sized done
    · rename_i s'' failed
      rw [failed] at sized
      exact region.view_deleteFile sized inside name

theorem mount_createFile (holds : region.holds s) (here : region.directory mount.root.node) (path : String)
    (size : Nat) : region.holds (mount.createFile s path size).2 := by
  rw [Mount.createFile_eq_attempt]
  exact region.attempt holds here (fun name inside => region.createSized holds inside name size) path

theorem mount_createDirectory (holds : region.holds s) (here : region.directory mount.root.node)
    (path : String) : region.holds (mount.createDirectory s path).2 := by
  rw [Mount.createDirectory_eq_attempt]
  exact region.attempt holds here (fun name inside => (region.view_createSubdirectory holds inside name).1) path

theorem mount_deleteFile (holds : region.holds s) (here : region.directory mount.root.node) (path : String) :
    region.holds (mount.deleteFile s path).2 := by
  rw [Mount.deleteFile_eq_attempt]
  exact region.attempt holds here (fun name inside => region.view_deleteFile holds inside name) path

theorem onSubdirectory {step : σ → DirectoryView D → String → Bool × σ} (holds : region.holds s)
    (here : region.directory mount.root.node)
    (each : ∀ {dir : DirectoryView D} (name : String), region.directory dir.node →
      region.holds (step s dir name).2)
    (path : String) : region.holds (Mount.onSubdirectory step s mount path).2 := by
  rw [Mount.onSubdirectory_eq_attempt]
  exact region.attempt holds here each path

theorem moveFile {oldHome newHome : DirectoryView D} {newName : String} (holds : region.holds s)
    (origin : region.directory oldHome.node) (goal : region.directory newHome.node) :
    region.holds (Mount.moveFile s file oldHome name newHome newName).2 := by
  obtain ⟨kept, member⟩ := region.view_createFile holds goal newName
  simp only [Mount.moveFile]
  split
  · exact holds
  · split
    · rename_i s₁ refused
      exact region.after kept refused
    · rename_i target s₁ created
      rw [created] at kept member
      have inside := member target rfl
      have sized := region.view_resize kept inside (file.readAll s₁).length
      split
      · rename_i s₂ failed
        rw [failed] at sized
        exact region.view_deleteFile sized goal newName
      · rename_i s₂ done
        rw [done] at sized
        have written := region.view_write sized inside 0 (file.readAll s₁)
        have deleted := region.view_deleteFile written origin name
        split
        · exact region.view_deleteFile written goal newName
        · split
          · rename_i s₃ gone
            exact region.after deleted gone
          · rename_i s₃ failed
            rw [failed] at deleted
            exact region.view_deleteFile deleted goal newName

theorem moveDirectory {oldHome newHome : DirectoryView D} {newName : String} (holds : region.holds s)
    (moved : region.directory dir.node) (origin : region.directory oldHome.node)
    (goal : region.directory newHome.node) :
    region.holds (Mount.moveDirectory s dir oldHome name newHome newName).2 := by
  obtain ⟨kept, member⟩ := region.view_createSubdirectory holds goal newName
  simp only [Mount.moveDirectory]
  split
  · exact holds
  · split
    · rename_i s₁ refused
      exact region.after kept refused
    · rename_i target s₁ created
      rw [created] at kept member
      have copied := region.copyTree kept moved (region.directory_of_below (member target rfl))
      split
      · rename_i s₂ failed
        rw [failed] at copied
        exact region.deleteTree copied goal newName
      · rename_i s₂ done
        rw [done] at copied
        have deleted := region.deleteTree copied origin name
        split
        · rename_i s₃ gone
          exact region.after deleted gone
        · rename_i s₃ failed
          rw [failed] at deleted
          dsimp only
          split
          · exact region.deleteTree deleted goal newName
          · exact deleted

theorem course_keeps {V : Type} {source target : String} {result : Except Error Unit × σ}
    {child : DirectoryView D → String → Option V} {rename : V → String → Option V × σ}
    {move : V → DirectoryView D → String → DirectoryView D → String → Except Error Unit × σ}
    (holds : region.holds s) (here : region.directory mount.root.node)
    (course : mount.Course s source target child rename move result)
    (renames : ∀ {home old entry} (new : String), region.directory home.node → child home old = some entry →
      region.holds (rename entry new).2)
    (moves : ∀ {home goal old new entry}, region.directory home.node → child home old = some entry →
      region.directory goal.node → region.holds (move entry home old goal new).2) :
    region.holds result.2 := by
  cases course with
  | refused | own => exact holds
  | inPlace located found _ _ _ outcome _ =>
    rw [outcome]
    exact renames _ (region.locate holds here located) found
  | moved located found located' =>
    exact moves (region.locate holds here located) found (region.locate holds here located')

theorem mount_openFile {path : String} {mode : Wire.OpenMode} (holds : region.holds s)
    (here : region.directory mount.root.node) (opened : mount.openFile s path mode = .ok file) :
    region.file file.node := by
  obtain ⟨dir, name, located, there⟩ := Mount.file?_of_openFile opened
  exact region.view_file? holds (region.locate holds here located) there

end Mounts

end Enclosure

namespace Region

variable {σ F D : Type} [Backing σ F D] (region : Region σ) {s : σ} {dir : DirectoryView D} {file : FileView F}

theorem view_renameFile (holds : region.holds s) (here : region.file file.node) (name : String) :
    region.holds (file.rename s name).2 := by
  unfold FileView.rename
  split
  · exact holds
  · exact region.renameFile name holds here

theorem view_renameDirectory (holds : region.holds s) (here : region.below dir.node) (name : String) :
    region.holds (dir.rename s name).2 := by
  unfold DirectoryView.rename
  split
  · exact holds
  · exact region.renameDirectory name holds here

section Mounts

variable {mount : Mount D}

theorem mount_renameFile (holds : region.holds s) (here : region.directory mount.root.node)
    (source target : String) : region.holds (mount.renameFile s source target).2 :=
  region.course_keeps holds here (mount.renameFile_course s source target)
    (fun new inside found => region.view_renameFile holds (region.view_file? holds inside found) new)
    (fun inside _ goal => region.moveFile holds inside goal)

theorem mount_renameDirectory (holds : region.holds s) (here : region.directory mount.root.node)
    (source target : String) : region.holds (mount.renameDirectory s source target).2 :=
  region.course_keeps holds here (mount.renameDirectory_course s source target)
    (fun new inside found => region.view_renameDirectory holds (region.view_subdirectory? holds inside found) new)
    (fun inside found goal => region.moveDirectory holds
      (region.directory_of_below (region.view_subdirectory? holds inside found)) inside goal)

end Mounts

end Region

end GuestStorage.Tree
