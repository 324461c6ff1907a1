import GuestStorage.Proofs.Memory.Undo

namespace GuestStorage

open Memory GuestStorage.Tree

/-- A change of a single entry of a mounted tree. -/
inductive Tree.EntryChange where
  | createFile (path : String) (size : Nat)
  | deleteFile (path : String)
  | createDirectory (path : String)
  | deleteDirectory (path : String)
  | renameFile (source target : String)

namespace Tree.EntryChange

def perform {σ F D : Type} [Backing σ F D] (s : σ) (mount : Mount D) :
    EntryChange → Except Error Unit × σ
  | createFile path size => mount.createFile s path size
  | deleteFile path => mount.deleteFile s path
  | createDirectory path => mount.createDirectory s path
  | deleteDirectory path => Mount.deleteDirectory s mount path
  | renameFile source target => mount.renameFile s source target

def newFile? : EntryChange → Option String
  | createFile path _ => some path
  | renameFile _ target => some target
  | deleteFile _ | createDirectory _ | deleteDirectory _ => none

end Tree.EntryChange

namespace Memory.Guarded

variable {g g' : Guarded} {root dir : DirectoryId} {file : FileId} {name : String}

/-- How a change ends that may put a new file somewhere: it is done, it is refused and nothing is different,
    or it fails with the new file in place, which is then to be taken away. -/
inductive Ends (g : Guarded) (mount : Mount DirectoryId) (place : Option String) :
    Except Error Unit × Guarded → Prop
  | done (g' : Guarded) : Ends g mount place (.ok (), g')
  | refused (e : Error) : Ends g mount place (.error e, g)
  | undone (e : Error) {path name : String} {dir : DirectoryId} {file : FileId} {g' : Guarded}
      (there : place = some path) (located : mount.locate g path = .ok (.direct dir, name))
      (pending : Pending g g' dir file name) : Ends g mount place (.error e, (g'.deleteFile dir name).2)

theorem Ends.of_projected {place : Option String} {mount : Mount DirectoryId}
    {result : Except Error Unit × Guarded} (refused : ∃ e, result = (.error e, g)) :
    Ends g mount place result := by
  obtain ⟨e, rfl⟩ := refused
  exact .refused e

theorem told_ends {mount : Mount DirectoryId} {place : Option String} {view : DirectoryView DirectoryId}
    {step : Bool × Guarded} (kept : step.1 = false → step.2 = g) : Ends g mount place (Mount.told view step) := by
  obtain ⟨_ | _, g'⟩ := step
  · obtain rfl : g' = g := kept rfl
    exact .refused _
  · exact .done g'

theorem locate_direct {path : String} {holder : DirectoryView DirectoryId}
    (located : Mount.locate g ⟨.direct root⟩ path = .ok (holder, name)) : ∃ home, holder = .direct home := by
  obtain ⟨-, home, -, -, direct, -⟩ := locate_ok (t := g) located
  exact ⟨home, direct⟩

theorem view_createFile_pending (g : Guarded) (dir : DirectoryId) (name : String) :
    (DirectoryView.direct dir).createFile g name = (none, g) ∨
      ∃ file g', (DirectoryView.direct dir).createFile g name = (some (.direct file), g') ∧
        Pending g g' dir file name := by
  simp only [DirectoryView.createFile, DirectoryView.direct, Backing.createFile]
  rcases createFile_pending g dir name with refused | ⟨file, g', created, pending⟩
  · exact .inl (by rw [refused]; rfl)
  · exact .inr ⟨file, g', by rw [created]; rfl, pending⟩

theorem attempt_ends {place : Option String} {fault : Error} {barred : DirectoryView DirectoryId → String → Bool}
    {step : DirectoryView DirectoryId → String → Except Error Unit × Guarded} (path : String)
    (each : ∀ home name, Mount.locate g ⟨.direct root⟩ path = .ok (.direct home, name) →
      Ends g ⟨.direct root⟩ place (step (.direct home) name)) :
    Ends g ⟨.direct root⟩ place (Mount.attempt g ⟨.direct root⟩ path fault barred step) := by
  rcases Mount.attempt_cases g ⟨.direct root⟩ path fault barred step with
    ⟨e, refused⟩ | ⟨holder, name, located, -, taken⟩
  · rw [refused]
    exact .refused e
  · obtain ⟨home, rfl⟩ := locate_direct located
    rw [taken]
    exact each home name located

theorem createFile_ends (path : String) (size : Nat) :
    Ends g ⟨.direct root⟩ (some path) (Mount.createFile g ⟨.direct root⟩ path size) := by
  rw [Mount.createFile_eq_attempt]
  refine attempt_ends path fun home name located => ?_
  rw [Mount.createSized]
  rcases view_createFile_pending g home name with refused | ⟨file, g₁, created, pending⟩
  · rw [refused]
    exact .refused _
  · rw [created]
    have sized := pending.resized size
    dsimp only
    split
    · exact .done _
    · rename_i g₂ kept
      have same : (g₁.resize file size).2 = g₂ := congrArg Prod.snd kept
      exact .undone _ rfl located (same ▸ sized)

theorem deleteFile_ends (path : String) :
    Ends g ⟨.direct root⟩ none (Mount.deleteFile g ⟨.direct root⟩ path) := by
  rw [Mount.deleteFile_eq_attempt]
  refine attempt_ends path fun home name _ => told_ends fun refused => ?_
  exact deleteFile_refused (Prod.ext refused rfl)

theorem createDirectory_ends (path : String) :
    Ends g ⟨.direct root⟩ none (Mount.createDirectory g ⟨.direct root⟩ path) := by
  rw [Mount.createDirectory_eq_attempt]
  refine attempt_ends path fun home name _ => told_ends fun refused => ?_
  have refused := Option.map_eq_none_iff.mp (Option.isNone_iff_eq_none.mp (Option.isSome_eq_false_iff.mp refused))
  exact createSubdirectory_refused (Prod.ext refused rfl)

theorem deleteDirectory_ends (path : String) :
    Ends g ⟨.direct root⟩ none (Mount.deleteDirectory g ⟨.direct root⟩ path) := by
  rw [Mount.deleteDirectory, Mount.onSubdirectory_eq_attempt]
  refine attempt_ends path fun home name _ => told_ends fun refused => ?_
  exact deleteSubdirectory_refused (Prod.ext refused rfl)

theorem moveFile_ends {target : String} {home goal : DirectoryId} {newName : String}
    (located : Mount.locate g ⟨.direct root⟩ target = .ok (.direct goal, newName)) :
    Ends g ⟨.direct root⟩ (some target)
      (Mount.moveFile g (.direct file) (.direct home) name (.direct goal) newName) := by
  simp only [Mount.moveFile]
  split
  · exact .refused _
  · rcases view_createFile_pending g goal newName with refused | ⟨new, g₁, created, pending⟩
    · rw [refused]
      exact .refused _
    · rw [created]
      have sized := pending.resized (FileView.readAll g₁ (.direct file)).length
      dsimp only
      split
      · rename_i g₂ short
        have same : (g₁.resize new _).2 = g₂ := congrArg Prod.snd short
        exact .undone _ rfl located (same ▸ sized)
      · rename_i g₂ resized
        have same : (g₁.resize new _).2 = g₂ := congrArg Prod.snd resized
        have written := (same ▸ sized).written 0 (FileView.readAll g₁ (.direct file))
        split
        · exact .undone _ rfl located written
        · split
          · exact .done _
          · rename_i g₃ kept
            obtain rfl := deleteFile_refused kept
            exact .undone _ rfl located written

theorem renameFile_ends (source target : String) :
    Ends g ⟨.direct root⟩ (some target) (Mount.renameFile g ⟨.direct root⟩ source target) := by
  simp only [Mount.renameFile]
  split
  · exact .refused _
  · rename_i holder name located
    obtain ⟨home, rfl⟩ := locate_direct located
    split
    · exact .refused _
    · rename_i view found
      rw [direct_file?, Option.map_eq_some_iff] at found
      obtain ⟨file, -, rfl⟩ := found
      split
      · exact .refused _
      · rename_i holder' newName located'
        obtain ⟨goal, rfl⟩ := locate_direct located'
        split
        · exact .done _
        · split
          · exact .refused _
          · split
            · split
              · exact .done _
              · rename_i g₁ refused
                obtain ⟨nothing, after⟩ := Prod.mk.inj refused
                have refused : g.renameFile file newName = (none, g₁) :=
                  Prod.ext (Option.map_eq_none_iff.mp nothing) after
                obtain rfl := renameFile_refused refused
                exact .refused _
            · exact moveFile_ends located'

theorem Ends.kept {mount : Mount DirectoryId} {place : Option String} {result : Except Error Unit × Guarded}
    (ends : Ends g mount place result) (sound : g.store.Sound) {e : Error} (failed : result.1 = .error e) :
    ((∀ path dir name, place = some path → mount.locate g path = .ok (dir, name) →
        (g.directoryRefusals dir.node).deleteFile = false) → Untouched g result.2) ∧
      ∀ root path bytes, (Node.directory root).content? g.store path = some (.file bytes) →
        (Node.directory root).content? result.2.store path = some (.file bytes) := by
  cases ends with
  | done g' => cases failed
  | refused e => exact ⟨fun _ => .refl g, fun _ _ _ shown => shown⟩
  | undone e there located pending =>
    refine ⟨fun willing => ?_, fun root path bytes shown => pending.content?_kept sound shown⟩
    rcases (pending.undone sound).2 with untouched | ⟨-, refuses⟩
    · exact untouched
    · cases refuses.symm.trans (willing _ _ _ there located)

theorem perform_ends (g : Guarded) (mount : Mount DirectoryId) (change : EntryChange) :
    Ends g mount change.newFile? (change.perform g mount) := by
  obtain ⟨⟨root, readOnly⟩⟩ := mount
  cases readOnly with
  | true =>
    have projected : (⟨⟨root, true⟩⟩ : Mount DirectoryId).root.readOnly = true := rfl
    cases change with
    | createFile path size => exact .of_projected (Mount.createFile_projected projected path size)
    | deleteFile path => exact .of_projected (Mount.deleteFile_projected projected path)
    | createDirectory path => exact .of_projected (Mount.createDirectory_projected projected path)
    | deleteDirectory path =>
      exact .of_projected (Mount.onSubdirectory_projected projected
        (fun dir inner name => DirectoryView.deleteSubdirectory_of_readOnly inner name) path)
    | renameFile source target =>
      rcases Mount.renameFile_projected (s := g) projected source target with refused | ⟨same, -⟩
      · exact .of_projected refused
      · rw [EntryChange.perform, same]
        exact .done g
  | false =>
    cases change with
    | createFile path size => exact createFile_ends path size
    | deleteFile path => exact deleteFile_ends path
    | createDirectory path => exact createDirectory_ends path
    | deleteDirectory path => exact deleteDirectory_ends path
    | renameFile source target => exact renameFile_ends source target

/-- A change of a single entry that fails, whatever the nodes refuse. Unless the directory that the new file
    was to stand in refuses to delete files, nothing at all is different; and a file that was to be moved is
    in its place with all its bytes even then. -/
theorem failed_change_keeps (g : Guarded) (sound : g.store.Sound) (mount : Mount DirectoryId)
    (change : EntryChange) (e : Error) (failed : (change.perform g mount).1 = .error e) :
    let after := (change.perform g mount).2
    ((∀ path dir name, change.newFile? = some path → mount.locate g path = .ok (dir, name) →
        (g.directoryRefusals dir.node).deleteFile = false) →
      Untouched g after ∧ ∀ view : DirectoryView DirectoryId, view.snapshot after = view.snapshot g) ∧
    ∀ source target names bytes, change = .renameFile source target → Mount.normalize source = .ok names →
      (Node.directory mount.root.node).content? g.store names = some (.file bytes) →
      (Node.directory mount.root.node).content? after.store names = some (.file bytes) := by
  intro after
  obtain ⟨untouched, kept⟩ := (perform_ends g mount change).kept sound failed
  refine ⟨fun willing => ?_, fun source target names bytes _ _ shown => kept _ names bytes shown⟩
  exact ⟨untouched willing, (untouched willing).snapshot sound⟩

def narrowTree : Guarded where
  store := (Store.empty.plant "root" false
    [.directory "a" [.file "f" [1, 2] false] false, .directory "b" [.file "g" [3] true] false]).2
  ofFile path := { writeLimit := if path == "root/b/h" then some 1 else none }

theorem narrowTree_sound : narrowTree.store.Sound := Store.plant_sound Store.empty_sound _ _ _

theorem narrowTree_keeps :
    ((EntryChange.renameFile "a/f" "b/h").perform narrowTree ⟨.direct ⟨0⟩⟩).1 = .error .operationFailed ∧
      (∀ view : DirectoryView DirectoryId,
        view.snapshot ((EntryChange.renameFile "a/f" "b/h").perform narrowTree ⟨.direct ⟨0⟩⟩).2 =
          view.snapshot narrowTree) ∧
      (Node.directory ⟨0⟩).content?
        ((EntryChange.renameFile "a/f" "b/h").perform narrowTree ⟨.direct ⟨0⟩⟩).2.store ["a", "f"] =
          some (.file [1, 2]) := by
  have failed : ((EntryChange.renameFile "a/f" "b/h").perform narrowTree ⟨.direct ⟨0⟩⟩).1 =
      .error .operationFailed := by decide +kernel
  have keeps := failed_change_keeps narrowTree narrowTree_sound ⟨.direct ⟨0⟩⟩
    (.renameFile "a/f" "b/h") .operationFailed failed
  refine ⟨failed, (keeps.1 fun _ _ _ _ _ => rfl).2, ?_⟩
  exact keeps.2 "a/f" "b/h" ["a", "f"] [1, 2] rfl (by decide +kernel) (by decide +kernel)

end Memory.Guarded

end GuestStorage
