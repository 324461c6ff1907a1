import GuestStorage.Proofs.Tree.Asking
import GuestStorage.Proofs.Tree.Attempts
import GuestStorage.Proofs.Tree.Renaming
import Mathlib.Data.List.Basic

namespace GuestStorage.Tree

variable {σ F D : Type} [storage : Backing σ F D]

/-- A chain of names asks for each of them the directory that those before it lead to. -/
def DirectoryView.Along (s : σ) (top : DirectoryView D) (names : List String) (dir : D) (name : String) : Prop :=
  ∃ front rest, names = front ++ name :: rest ∧ (top.descend? s front).map (·.node) = some dir

/-- The last name of a chain, and the directory that those before it lead to. -/
def DirectoryView.Ends (s : σ) (top : DirectoryView D) (names : List String) (dir : D) (name : String) : Prop :=
  ∃ front, names = front ++ [name] ∧ (top.descend? s front).map (·.node) = some dir

variable {s : σ} {top dir sub : DirectoryView D} {mount : Mount D} {names : List String} {name path : String}

theorem DirectoryView.Ends.along {node : D} (ends : top.Ends s names node name) : top.Along s names node name := by
  obtain ⟨front, whole, reached⟩ := ends
  exact ⟨front, [], whole, reached⟩

theorem DirectoryView.Ends.getLast? {node : D} (ends : top.Ends s names node name) : names.getLast? = some name := by
  obtain ⟨front, rfl, -⟩ := ends
  exact List.getLast?_concat

theorem DirectoryView.Ends.samePlace {others : List String} {other : String} (ends : top.Ends s names dir.node name)
    (also : top.Ends s others sub.node other) (same : names.dropLast = others.dropLast) :
    Mount.samePlace s dir sub = true := by
  obtain ⟨front, rfl, reached⟩ := ends
  obtain ⟨back, rfl, reached'⟩ := also
  rw [List.dropLast_concat, List.dropLast_concat] at same
  rw [same, reached', Option.some.injEq] at reached
  rw [Mount.samePlace, beq_iff_eq, DirectoryView.path, DirectoryView.path, reached]

theorem DirectoryView.Along.head : dir.Along s (name :: names) dir.node name := ⟨[], names, rfl, rfl⟩

theorem DirectoryView.Along.tail {node : D} {other : String} (found : dir.subdirectory? s name = some sub)
    (along : sub.Along s names node other) : dir.Along s (name :: names) node other := by
  obtain ⟨front, rest, rfl, reached⟩ := along
  refine ⟨name :: front, rest, rfl, ?_⟩
  rw [DirectoryView.descend?, List.foldlM_cons, found]
  exact reached

theorem DirectoryView.Along.append {node : D} (along : dir.Along s names node name) (more : List String) :
    dir.Along s (names ++ more) node name := by
  obtain ⟨front, rest, rfl, reached⟩ := along
  exact ⟨front, rest ++ more, by rw [List.append_assoc, List.cons_append], reached⟩

theorem Mount.ends_of_locateAlong (located : mount.locateAlong s names = .ok (dir, name)) :
    mount.root.Ends s names dir.node name := by
  obtain ⟨front, whole, reached⟩ := Mount.locateAlong_eq_ok.mp located
  exact ⟨front, whole, congrArg (Option.map _) reached⟩

/-- What a path asks for: its names, without single dots, unless there is a double dot. -/
def Mount.Along (s : σ) (mount : Mount D) (path : String) (dir : D) (name : String) : Prop :=
  ∃ names, Mount.normalize path = .ok names ∧ mount.root.Along s names dir name

def Mount.Ends (s : σ) (mount : Mount D) (path : String) (dir : D) (name : String) : Prop :=
  ∃ names, Mount.normalize path = .ok names ∧ mount.root.Ends s names dir name

theorem Mount.Ends.along {node : D} (ends : mount.Ends s path node name) : mount.Along s path node name := by
  obtain ⟨names, normal, last⟩ := ends
  exact ⟨names, normal, last.along⟩

theorem Mount.ends_of_locate (located : mount.locate s path = .ok (dir, name)) :
    mount.Ends s path dir.node name := by
  obtain ⟨front, normal, reached⟩ := Mount.locate_eq_ok.mp located
  exact ⟨_, normal, front, rfl, congrArg (Option.map _) reached⟩

namespace Naming.Agrees

variable {naming : Naming σ F D} {asked : D → String → Prop} {given : String → Prop}
  (agrees : naming.Agrees asked given)

include agrees

theorem mono {others : D → String → Prop} (among : ∀ {dir name}, others dir name → asked dir name) :
    naming.Agrees others given where
  file? known := agrees.file? (among known)
  subdirectory? known := agrees.subdirectory? (among known)
  createFile known := agrees.createFile (among known)
  createSubdirectory known := agrees.createSubdirectory (among known)
  deleteFile known := agrees.deleteFile (among known)
  deleteSubdirectory known := agrees.deleteSubdirectory (among known)
  renameFile := agrees.renameFile
  renameDirectory := agrees.renameDirectory

theorem descend?_eq (known : ∀ {dir name}, top.Along s names dir name → asked dir name) :
    @DirectoryView.descend? σ F D (storage.answering naming) s top names = top.descend? s names := by
  induction names generalizing top with
  | nil => rfl
  | cons name rest ih =>
    unfold DirectoryView.descend? at ih ⊢
    rw [List.foldlM_cons, List.foldlM_cons, agrees.view_subdirectory? (known .head)]
    cases found : top.subdirectory? s name with
    | none => rfl
    | some next => exact ih fun along => known (along.tail found)

theorem locateAlong_eq (known : ∀ {dir name}, mount.root.Along s names dir name → asked dir name) :
    @Mount.locateAlong σ F D (storage.answering naming) s mount names = mount.locateAlong s names := by
  unfold Mount.locateAlong
  cases ends : names.getLast? with
  | none => rfl
  | some last =>
    have whole := List.dropLast_append_getLast? _ ends
    rw [agrees.descend?_eq fun along => known (whole ▸ along.append [last])]

section Paths

variable (known : ∀ {dir name}, mount.Along s path dir name → asked dir name)

include known

theorem locate_eq : @Mount.locate σ F D (storage.answering naming) s mount path = mount.locate s path := by
  unfold Mount.locate
  cases normal : Mount.normalize path with
  | error e => rfl
  | ok names => exact agrees.locateAlong_eq fun along => known ⟨names, normal, along⟩

theorem attempt_eq {fault : Error} {barred bars : DirectoryView D → String → Bool}
    {step other : DirectoryView D → String → Except Error Unit × σ}
    (samely : ∀ {dir name}, mount.locate s path = .ok (dir, name) →
      bars dir name = barred dir name ∧ other dir name = step dir name) :
    @Mount.attempt σ F D (storage.answering naming) s mount path fault bars other =
      mount.attempt s path fault barred step := by
  unfold Mount.attempt
  rw [agrees.locate_eq known]
  cases located : mount.locate s path with
  | error e => rfl
  | ok place => simp only [samely located]

theorem mount_createFile (size : Nat) :
    @Mount.createFile σ F D (storage.answering naming) s mount path size = mount.createFile s path size := by
  rw [@Mount.createFile_eq_attempt σ F D (storage.answering naming), Mount.createFile_eq_attempt]
  refine agrees.attempt_eq known fun located => ?_
  have here := known (Mount.ends_of_locate located).along
  refine ⟨agrees.view_hasEntry here, ?_⟩
  unfold Mount.createSized
  rw [agrees.view_createFile here]
  simp only [agrees.view_deleteFile here]
  rfl

theorem mount_createDirectory :
    @Mount.createDirectory σ F D (storage.answering naming) s mount path = mount.createDirectory s path := by
  rw [@Mount.createDirectory_eq_attempt σ F D (storage.answering naming), Mount.createDirectory_eq_attempt]
  refine agrees.attempt_eq known fun located => ?_
  have here := known (Mount.ends_of_locate located).along
  refine ⟨agrees.view_hasEntry here, ?_⟩
  rw [agrees.view_createSubdirectory here]
  rfl

theorem mount_deleteFile :
    @Mount.deleteFile σ F D (storage.answering naming) s mount path = mount.deleteFile s path := by
  rw [@Mount.deleteFile_eq_attempt σ F D (storage.answering naming), Mount.deleteFile_eq_attempt]
  refine agrees.attempt_eq known fun located => ?_
  have here := known (Mount.ends_of_locate located).along
  rw [agrees.view_file? here, agrees.view_deleteFile here]
  exact ⟨rfl, rfl⟩

theorem mount_onSubdirectory {step other : σ → DirectoryView D → String → Bool × σ}
    (same : ∀ {dir name}, mount.locate s path = .ok (dir, name) → other s dir name = step s dir name) :
    @Mount.onSubdirectory σ F D (storage.answering naming) other s mount path =
      Mount.onSubdirectory step s mount path := by
  rw [@Mount.onSubdirectory_eq_attempt σ F D (storage.answering naming), Mount.onSubdirectory_eq_attempt]
  refine agrees.attempt_eq known fun located => ?_
  have here := known (Mount.ends_of_locate located).along
  rw [agrees.view_subdirectory? here, same located]
  exact ⟨rfl, rfl⟩

theorem mount_deleteDirectory :
    @Mount.deleteDirectory σ F D (storage.answering naming) s mount path = Mount.deleteDirectory s mount path :=
  agrees.mount_onSubdirectory known fun located =>
    agrees.view_deleteSubdirectory (known (Mount.ends_of_locate located).along)

theorem mount_entryType :
    @Mount.entryType σ F D (storage.answering naming) s mount path = mount.entryType s path := by
  unfold Mount.entryType
  cases normal : Mount.normalize path with
  | error e => rfl
  | ok names =>
    cases names with
    | nil => rfl
    | cons first rest =>
      have located := agrees.locateAlong_eq fun along => known ⟨first :: rest, normal, along⟩
      simp only [located]
      split
      · rfl
      · rename_i dir name located
        have here := known ⟨first :: rest, normal, (Mount.ends_of_locateAlong located).along⟩
        rw [agrees.view_file? here, agrees.view_subdirectory? here]

theorem mount_openFile (mode : Wire.OpenMode) :
    @Mount.openFile σ F D (storage.answering naming) s mount path mode = mount.openFile s path mode := by
  unfold Mount.openFile
  rw [agrees.locate_eq known]
  cases located : mount.locate s path with
  | error e => rfl
  | ok place =>
    have here := known (Mount.ends_of_locate located).along
    simp only [agrees.view_file? here]
    rfl

theorem mount_openDirectory :
    @Mount.openDirectory σ F D (storage.answering naming) s mount path = mount.openDirectory s path := by
  unfold Mount.openDirectory
  cases normal : Mount.normalize path with
  | error e => rfl
  | ok names => simp only [agrees.descend?_eq fun along => known ⟨names, normal, along⟩]

end Paths

section Renaming

variable {source target : String} (known : ∀ {dir name}, mount.Along s source dir name → asked dir name)
  (also : ∀ {dir name}, mount.Along s target dir name → asked dir name)
  (new : ∀ {dir name}, mount.Ends s target dir name → given name)

theorem mount_moveFile {file : FileView F} {oldHome newHome : DirectoryView D} {newName : String}
    (here : asked oldHome.node name) (there : asked newHome.node newName) :
    @Mount.moveFile σ F D (storage.answering naming) s file oldHome name newHome newName =
      Mount.moveFile s file oldHome name newHome newName := by
  unfold Mount.moveFile
  simp only [agrees.view_createFile there, agrees.view_deleteFile there, agrees.view_deleteFile here]
  rfl

include known also new

theorem mount_renameFile :
    @Mount.renameFile σ F D (storage.answering naming) s mount source target = mount.renameFile s source target := by
  unfold Mount.renameFile
  rw [agrees.locate_eq known]
  cases located : mount.locate s source with
  | error e => rfl
  | ok place =>
    have here := known (Mount.ends_of_locate located).along
    simp only [agrees.view_file? here, agrees.locate_eq also]
    split
    · rfl
    · split
      · rfl
      · rename_i newHome newName located'
        have there := also (Mount.ends_of_locate located').along
        simp only [agrees.view_hasEntry there, agrees.view_renameFile (new (Mount.ends_of_locate located')),
          agrees.mount_moveFile here there]
        rfl

theorem mount_renameDirectory
    (moves : ∀ {dir oldHome newHome : DirectoryView D} {old new}, mount.locate s source = .ok (oldHome, old) →
      oldHome.subdirectory? s old = some dir → mount.locate s target = .ok (newHome, new) →
        Mount.samePlace s oldHome newHome = false →
          @Mount.moveDirectory σ F D (storage.answering naming) s dir oldHome old newHome new =
            Mount.moveDirectory s dir oldHome old newHome new) :
    @Mount.renameDirectory σ F D (storage.answering naming) s mount source target =
      mount.renameDirectory s source target := by
  unfold Mount.renameDirectory
  cases normal : Mount.normalize source with
  | error e => rfl
  | ok names =>
    cases normal' : Mount.normalize target with
    | error e => rfl
    | ok others =>
      simp only [agrees.locateAlong_eq fun along => known ⟨names, normal, along⟩,
        agrees.locateAlong_eq fun along => also ⟨others, normal', along⟩]
      split
      · rfl
      · split
        · rfl
        · rename_i oldHome old located
          have located := (Mount.locate_eq normal).trans located
          simp only [agrees.view_subdirectory? (known (Mount.ends_of_locate located).along)]
          split
          · rfl
          · rename_i dir found
            split
            · rfl
            · rename_i newHome newName located'
              have located' := (Mount.locate_eq normal').trans located'
              have there := Mount.ends_of_locate located'
              have placed : @Mount.samePlace σ F D (storage.answering naming) s oldHome newHome =
                Mount.samePlace s oldHome newHome := rfl
              rw [agrees.view_hasEntry (also there.along), agrees.view_renameDirectory (new there), placed]
              cases apart : Mount.samePlace s oldHome newHome with
              | true => rfl
              | false =>
                rw [moves located found located' apart]
                rfl

end Renaming

section Subtrees

variable {named : D → String → Prop} (within : ∀ {dir name}, Asked s named dir name → asked dir name)

section Emptying

variable (known : ∀ {dir name}, mount.Along s path dir name → asked dir name)
  (last : ∀ {dir name}, mount.Ends s path dir name → named dir name)

include within known last

theorem mount_cleanTree :
    @Mount.cleanDirectoryRecursively σ F D (storage.answering naming) s mount path =
      Mount.cleanDirectoryRecursively s mount path :=
  agrees.mount_onSubdirectory known fun located =>
    ((agrees.mono within).cleanSubdirectory_eq .start (.named (last (Mount.ends_of_locate located)))).1

theorem mount_deleteTree :
    @Mount.deleteDirectoryRecursively σ F D (storage.answering naming) s mount path =
      Mount.deleteDirectoryRecursively s mount path :=
  agrees.mount_onSubdirectory known fun located =>
    ((agrees.mono within).deleteTree_eq .start (.named (last (Mount.ends_of_locate located)))).1

end Emptying

include within

/-- A directory is moved the same if it is found under a name that is asked for and goes to another. -/
theorem mount_moveDirectory {oldHome newHome : DirectoryView D} {newName : String}
    (leaves : named oldHome.node name) (arrives : named newHome.node newName)
    (found : oldHome.subdirectory? s name = some dir) :
    @Mount.moveDirectory σ F D (storage.answering naming) s dir oldHome name newHome newName =
      Mount.moveDirectory s dir oldHome name newHome newName := by
  have agrees := agrees.mono within
  have here : Asked s named oldHome.node name := .named leaves
  have there : Asked s named newHome.node newName := .named arrives
  have origin := Reached.view_subdirectory? .start here found
  have access : @DirectoryView.isWritable σ F D (storage.answering naming) s oldHome = oldHome.isWritable s := rfl
  unfold Mount.moveDirectory
  -- each step is the same in both, and leads to a state in which the next one asks for no other name
  rw [access, agrees.view_createSubdirectory there]
  congr 1
  obtain ⟨visited, new⟩ := Visited.start.view_createSubdirectory there
  cases created : newHome.createSubdirectory s newName with
  | mk made t =>
    rw [created] at visited new
    cases made with
    | none => rfl
    | some target =>
      have reached := new target rfl
      obtain ⟨same, copied⟩ := agrees.copyTree_eq visited origin reached
      simp only at same copied ⊢
      rw [same]
      cases copying : dir.copyTree t target with
      | mk complete t' =>
        rw [copying] at copied
        simp only at copied
        cases complete with
        | false =>
          dsimp only
          rw [(agrees.deleteTree_eq copied there).1]
        | true =>
          dsimp only
          obtain ⟨same, emptied⟩ := agrees.deleteTree_eq copied here
          rw [same]
          cases deleting : oldHome.deleteTree t' name with
          | mk gone u =>
            rw [deleting] at emptied
            simp only at emptied
            cases gone with
            | true => rfl
            | false =>
              dsimp only
              rw [agrees.view_subdirectory? here, (agrees.deleteTree_eq emptied there).1]
              cases remains : oldHome.subdirectory? u name with
              | none => rfl
              | some rest =>
                have within := Reached.view_subdirectory? emptied here remains
                simp only [Option.any_some, agrees.sameShape_eq emptied within reached]

end Subtrees

end Naming.Agrees

end GuestStorage.Tree
