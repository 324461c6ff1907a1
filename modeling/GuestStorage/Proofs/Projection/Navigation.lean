import GuestStorage.Proofs.Tree.Loops

namespace GuestStorage.Tree

variable {σ F D : Type} [Backing σ F D] (s : σ) (dir : DirectoryView D)

theorem FileView.parent?_project (file : FileView F) :
    file.project.parent? s = (file.parent? s).map DirectoryView.project := by
  simp only [FileView.parent?, Option.map_map]
  rfl

namespace DirectoryView

theorem parent?_project : dir.project.parent? s = (dir.parent? s).map project := by
  simp only [parent?, Option.map_map]
  rfl

theorem isRoot_project : dir.project.isRoot s = dir.isRoot s := by
  rw [isRoot, isRoot, parent?_project, Option.isNone_map]

theorem files_project : dir.project.files s = (dir.files s).map FileView.project := by
  simp only [files, List.map_map]
  rfl

theorem subdirectories_project : dir.project.subdirectories s = (dir.subdirectories s).map project := by
  simp only [subdirectories, List.map_map]
  rfl

theorem file?_project (name : String) : dir.project.file? s name = (dir.file? s name).map FileView.project := by
  simp only [file?, Option.map_map]
  rfl

theorem subdirectory?_project (name : String) :
    dir.project.subdirectory? s name = (dir.subdirectory? s name).map project := by
  simp only [subdirectory?, Option.map_map]
  rfl

theorem hasEntry_project (name : String) : dir.project.hasEntry s name = dir.hasEntry s name := by
  rw [hasEntry, hasEntry, file?_project, subdirectory?_project, Option.isSome_map, Option.isSome_map]

theorem descend?_project (names : List String) :
    dir.project.descend? s names = (dir.descend? s names).map project := by
  induction names generalizing dir with
  | nil => rfl
  | cons name rest ih =>
    rw [descend?, descend?, List.foldlM_cons, List.foldlM_cons, subdirectory?_project]
    cases dir.subdirectory? s name with
    | none => rfl
    | some sub => exact ih sub

theorem climb_project (steps : Nat) : climb s steps dir.project = (climb s steps dir).project := by
  induction steps generalizing dir with
  | zero => rfl
  | succ steps ih =>
    rw [climb, climb, parent?_project]
    cases dir.parent? s with
    | none => rfl
    | some parent => exact ih parent

theorem top_project : dir.project.top s = (dir.top s).project := climb_project s dir _

theorem directoryAt?_project (path : String) :
    dir.project.directoryAt? s path = (dir.directoryAt? s path).map project := descend?_project s dir _

theorem fileAt?_project (path : String) :
    dir.project.fileAt? s path = (dir.fileAt? s path).map FileView.project := by
  rw [fileAt?, fileAt?]
  cases (Path.components path).getLast? with
  | none => rfl
  | some last =>
    simp only [Option.bind_some, descend?_project]
    cases dir.descend? s (Path.components path).dropLast with
    | none => rfl
    | some holder => exact file?_project s holder last

theorem directoryFromTop?_project (path : String) :
    dir.project.directoryFromTop? s path = (dir.directoryFromTop? s path).map project := by
  rw [directoryFromTop?, top_project, directoryAt?_project, directoryFromTop?]

theorem fileFromTop?_project (path : String) :
    dir.project.fileFromTop? s path = (dir.fileFromTop? s path).map FileView.project := by
  rw [fileFromTop?, top_project, fileAt?_project, fileFromTop?]

theorem sizeWithin_project (depth : Nat) : sizeWithin s depth dir.project = sizeWithin s depth dir := by
  induction depth generalizing dir with
  | zero => rfl
  | succ depth ih =>
    have sizes : (fun file : FileView F => file.size s) ∘ FileView.project = fun file => file.size s := rfl
    have inner : sizeWithin s depth ∘ project = sizeWithin s depth := funext ih
    rw [sizeWithin_succ, sizeWithin_succ, files_project, subdirectories_project, List.map_map, List.map_map, sizes,
      inner]

theorem size_project : dir.project.size s = dir.size s := sizeWithin_project s dir _

end DirectoryView

end GuestStorage.Tree
