import GuestStorage.Proofs.Tree.Loops
import GuestStorage.Tree.Mount

namespace GuestStorage.Tree

variable {σ F D : Type}

/-- What a storage does when it is given a name. -/
structure Naming (σ F D : Type) where
  file? : σ → D → String → Option F
  subdirectory? : σ → D → String → Option D
  createFile : σ → D → String → Option F × σ
  createSubdirectory : σ → D → String → Option D × σ
  deleteFile : σ → D → String → Bool × σ
  deleteSubdirectory : σ → D → String → Bool × σ
  renameFile : σ → F → String → Option F × σ
  renameDirectory : σ → D → String → Option D × σ

/-- The storage that does this when it is given a name, and is otherwise as before. -/
@[reducible] def Backing.answering (storage : Backing σ F D) (naming : Naming σ F D) : Backing σ F D where
  __ := storage
  file? := naming.file?
  subdirectory? := naming.subdirectory?
  createFile := naming.createFile
  createSubdirectory := naming.createSubdirectory
  deleteFile := naming.deleteFile
  deleteSubdirectory := naming.deleteSubdirectory
  renameFile := naming.renameFile
  renameDirectory := naming.renameDirectory

theorem sizeWithin_answering [storage : Backing σ F D] (naming : Naming σ F D) (s : σ) (depth : Nat)
    (dir : DirectoryView D) : @DirectoryView.sizeWithin σ F D (storage.answering naming) s depth dir =
      dir.sizeWithin s depth := by
  induction depth generalizing dir with
  | zero => rfl
  | succ depth ih =>
    exact congrArg (fun sizes => ((dir.files s).map (FileView.size s ·)).sum + sizes.sum)
      (List.map_congr_left fun sub _ => ih sub)

/-- Does as the storage with some of the names that directories can be asked for, and with some new names. -/
structure Naming.Agrees [Backing σ F D] (naming : Naming σ F D) (asked : D → String → Prop)
    (given : String → Prop) : Prop where
  file? : ∀ {dir name}, asked dir name → ∀ s : σ, naming.file? s dir name = Backing.file? s dir name
  subdirectory? : ∀ {dir name}, asked dir name → ∀ s : σ,
    naming.subdirectory? s dir name = Backing.subdirectory? s dir name
  createFile : ∀ {dir name}, asked dir name → ∀ s : σ, naming.createFile s dir name = Backing.createFile s dir name
  createSubdirectory : ∀ {dir name}, asked dir name → ∀ s : σ,
    naming.createSubdirectory s dir name = Backing.createSubdirectory s dir name
  deleteFile : ∀ {dir name}, asked dir name → ∀ s : σ, naming.deleteFile s dir name = Backing.deleteFile s dir name
  deleteSubdirectory : ∀ {dir name}, asked dir name → ∀ s : σ,
    naming.deleteSubdirectory s dir name = Backing.deleteSubdirectory s dir name
  renameFile : ∀ {name}, given name → ∀ (s : σ) file, naming.renameFile s file name = Backing.renameFile s file name
  renameDirectory : ∀ {name}, given name → ∀ (s : σ) dir,
    naming.renameDirectory s dir name = Backing.renameDirectory s dir name

def Naming.knowing [Backing σ F D] (known : D → String → Bool) : Naming σ F D where
  file? s dir name := if known dir name then Backing.file? s dir name else none
  subdirectory? s dir name := if known dir name then Backing.subdirectory? s dir name else none
  createFile s dir name := if known dir name then Backing.createFile s dir name else (none, s)
  createSubdirectory s dir name := if known dir name then Backing.createSubdirectory s dir name else (none, s)
  deleteFile s dir name := if known dir name then Backing.deleteFile s dir name else (false, s)
  deleteSubdirectory s dir name := if known dir name then Backing.deleteSubdirectory s dir name else (false, s)
  renameFile := Backing.renameFile
  renameDirectory := Backing.renameDirectory

theorem Naming.knowing_agrees [Backing σ F D] {known : D → String → Bool} {asked : D → String → Prop}
    (all : ∀ {dir name}, asked dir name → known dir name = true) (given : String → Prop) :
    (Naming.knowing known : Naming σ F D).Agrees asked given where
  file? among _ := if_pos (all among)
  subdirectory? among _ := if_pos (all among)
  createFile among _ := if_pos (all among)
  createSubdirectory among _ := if_pos (all among)
  deleteFile among _ := if_pos (all among)
  deleteSubdirectory among _ := if_pos (all among)
  renameFile _ _ _ := rfl
  renameDirectory _ _ _ := rfl

namespace Naming.Agrees

variable [storage : Backing σ F D] {naming : Naming σ F D} {asked : D → String → Prop} {given : String → Prop}
  (agrees : naming.Agrees asked given) {s : σ} {dir : DirectoryView D} {file : FileView F} {name : String}

section Views

include agrees

theorem view_file? (known : asked dir.node name) :
    @DirectoryView.file? σ F D (storage.answering naming) s dir name = dir.file? s name :=
  congrArg (Option.map _) (agrees.file? known s)

theorem view_subdirectory? (known : asked dir.node name) :
    @DirectoryView.subdirectory? σ F D (storage.answering naming) s dir name = dir.subdirectory? s name :=
  congrArg (Option.map _) (agrees.subdirectory? known s)

theorem view_hasEntry (known : asked dir.node name) :
    @DirectoryView.hasEntry σ F D (storage.answering naming) s dir name = dir.hasEntry s name := by
  unfold DirectoryView.hasEntry
  rw [agrees.view_file? known, agrees.view_subdirectory? known]

theorem view_createFile (known : asked dir.node name) :
    @DirectoryView.createFile σ F D (storage.answering naming) s dir name = dir.createFile s name := by
  unfold DirectoryView.createFile
  rw [← agrees.createFile known]
  rfl

theorem view_createSubdirectory (known : asked dir.node name) :
    @DirectoryView.createSubdirectory σ F D (storage.answering naming) s dir name =
      dir.createSubdirectory s name := by
  unfold DirectoryView.createSubdirectory
  rw [← agrees.createSubdirectory known]
  rfl

theorem view_deleteFile (known : asked dir.node name) :
    @DirectoryView.deleteFile σ F D (storage.answering naming) s dir name = dir.deleteFile s name := by
  unfold DirectoryView.deleteFile
  rw [← agrees.deleteFile known]
  rfl

theorem view_deleteSubdirectory (known : asked dir.node name) :
    @DirectoryView.deleteSubdirectory σ F D (storage.answering naming) s dir name =
      dir.deleteSubdirectory s name := by
  unfold DirectoryView.deleteSubdirectory
  rw [← agrees.deleteSubdirectory known]
  rfl

theorem view_renameFile (known : given name) :
    @FileView.rename σ F D (storage.answering naming) s file name = file.rename s name := by
  unfold FileView.rename
  rw [← agrees.renameFile known]
  rfl

theorem view_renameDirectory (known : given name) :
    @DirectoryView.rename σ F D (storage.answering naming) s dir name = dir.rename s name := by
  unfold DirectoryView.rename
  rw [← agrees.renameDirectory known]
  rfl

end Views

end Naming.Agrees

section Within

variable [Backing σ F D] (s : σ) (named : D → String → Prop)

mutual

/-- The states that a storage comes into while entries are made, filled and removed under names that are asked for. -/
inductive Visited : σ → Prop where
  | start : Visited s
  | createFile {t : σ} {dir : D} {name : String} : Visited t → Asked dir name →
      Visited (Backing.createFile t dir name).2
  | createSubdirectory {t : σ} {dir : D} {name : String} : Visited t → Asked dir name →
      Visited (Backing.createSubdirectory t dir name).2
  | deleteFile {t : σ} {dir : D} {name : String} : Visited t → Asked dir name →
      Visited (Backing.deleteFile t dir name).2
  | deleteSubdirectory {t : σ} {dir : D} {name : String} : Visited t → Asked dir name →
      Visited (Backing.deleteSubdirectory t dir name).2
  | resize {t : σ} {file : F} (size : Nat) : Visited t → Made file → Visited (Backing.resize t file size).2
  | write {t : σ} {file : F} (offset : Nat) (data : Bytes) : Visited t → Made file →
      Visited (Backing.write t file offset data).2

inductive Made : F → Prop where
  | intro {t : σ} {dir : D} {name : String} {file : F} : Visited t → Asked dir name →
      (Backing.createFile t dir name).1 = some file → Made file

/-- The directories that are found or made there, and what is listed in such directories. -/
inductive Reached : D → Prop where
  | found {t : σ} {dir sub : D} {name : String} : Visited t → Asked dir name →
      Backing.subdirectory? t dir name = some sub → Reached sub
  | made {t : σ} {dir sub : D} {name : String} : Visited t → Asked dir name →
      (Backing.createSubdirectory t dir name).1 = some sub → Reached sub
  | listed {t : σ} {dir sub : D} : Visited t → Reached dir → sub ∈ Backing.subdirectories t dir → Reached sub

/-- Besides the names that are given, a directory among these is asked for those that one of them lists. -/
inductive Asked : D → String → Prop where
  | named {dir : D} {name : String} : named dir name → Asked dir name
  | file {t u : σ} {dir source : D} {file : F} : Visited t → Visited u → Reached dir → Reached source →
      file ∈ Backing.files t source → Asked dir (Backing.fileName u file)
  | subdirectory {t u : σ} {dir source sub : D} : Visited t → Visited u → Reached dir → Reached source →
      sub ∈ Backing.subdirectories t source → Asked dir (Backing.directoryName u sub)

end

variable {s named} {t : σ} {dir source target sub : DirectoryView D} {file : FileView F} {name : String}

section Views

theorem Visited.view_createFile (visited : Visited s named t) (known : Asked s named dir.node name) :
    Visited s named (dir.createFile t name).2 ∧
      ∀ new, (dir.createFile t name).1 = some new → Made s named new.node := by
  unfold DirectoryView.createFile
  split
  · exact ⟨visited, by simp⟩
  · refine ⟨visited.createFile known, fun new created => ?_⟩
    obtain ⟨inner, made, rfl⟩ := Option.map_eq_some_iff.mp created
    exact .intro visited known made

theorem Visited.view_createSubdirectory (visited : Visited s named t) (known : Asked s named dir.node name) :
    Visited s named (dir.createSubdirectory t name).2 ∧
      ∀ new, (dir.createSubdirectory t name).1 = some new → Reached s named new.node := by
  unfold DirectoryView.createSubdirectory
  split
  · exact ⟨visited, by simp⟩
  · refine ⟨visited.createSubdirectory known, fun new created => ?_⟩
    obtain ⟨inner, made, rfl⟩ := Option.map_eq_some_iff.mp created
    exact .made visited known made

theorem Visited.view_deleteFile (visited : Visited s named t) (known : Asked s named dir.node name) :
    Visited s named (dir.deleteFile t name).2 := by
  unfold DirectoryView.deleteFile
  split
  · exact visited
  · exact visited.deleteFile known

theorem Visited.view_deleteSubdirectory (visited : Visited s named t) (known : Asked s named dir.node name) :
    Visited s named (dir.deleteSubdirectory t name).2 := by
  unfold DirectoryView.deleteSubdirectory
  split
  · exact visited
  · exact visited.deleteSubdirectory known

theorem Visited.view_resize (visited : Visited s named t) (made : Made s named file.node) (size : Nat) :
    Visited s named (file.resize t size).2 := by
  unfold FileView.resize
  split
  · exact visited
  · exact visited.resize size made

theorem Visited.view_write (visited : Visited s named t) (made : Made s named file.node) (offset : Nat)
    (data : Bytes) : Visited s named (file.write t offset data).2 := by
  unfold FileView.write
  split
  · exact visited
  · exact visited.write offset data made

theorem Reached.view_subdirectory? (visited : Visited s named t) (known : Asked s named dir.node name)
    (found : dir.subdirectory? t name = some sub) : Reached s named sub.node := by
  obtain ⟨inner, there, rfl⟩ := Option.map_eq_some_iff.mp found
  exact .found visited known there

theorem Reached.view_subdirectories (visited : Visited s named t) (reached : Reached s named dir.node)
    (listed : sub ∈ dir.subdirectories t) : Reached s named sub.node := by
  obtain ⟨inner, among, rfl⟩ := List.mem_map.mp listed
  exact .listed visited reached among

theorem Asked.view_file {u : σ} (visited : Visited s named t) (later : Visited s named u)
    (reached : Reached s named dir.node) (origin : Reached s named source.node) (listed : file ∈ source.files t) :
    Asked s named dir.node (file.name u) := by
  obtain ⟨inner, among, rfl⟩ := List.mem_map.mp listed
  exact .file visited later reached origin among

theorem Asked.view_subdirectory {u : σ} (visited : Visited s named t) (later : Visited s named u)
    (reached : Reached s named dir.node) (origin : Reached s named source.node)
    (listed : sub ∈ source.subdirectories t) : Asked s named dir.node (sub.name u) := by
  obtain ⟨inner, among, rfl⟩ := List.mem_map.mp listed
  exact .subdirectory visited later reached origin among

end Views

end Within

namespace Naming.Agrees

variable [storage : Backing σ F D] {naming : Naming σ F D} {s t : σ} {named : D → String → Prop}
  {given : String → Prop} {dir source target : DirectoryView D} {name : String}
  (agrees : naming.Agrees (Asked s named) given)

include agrees

theorem dropSubdirectory_eq {depth : Nat} (known : Asked s named dir.node (source.name t))
    (cleaned : @DirectoryView.cleanWithin σ F D (storage.answering naming) depth t dir (source.name t) =
        DirectoryView.cleanWithin depth t dir (source.name t) ∧
      Visited s named (DirectoryView.cleanWithin depth t dir (source.name t)).2) :
    @DirectoryView.dropSubdirectory σ F D (storage.answering naming) depth dir t source =
        DirectoryView.dropSubdirectory depth dir t source ∧
      Visited s named (DirectoryView.dropSubdirectory depth dir t source).2 := by
  obtain ⟨same, after⟩ := cleaned
  have called : @DirectoryView.name σ F D (storage.answering naming) t source = source.name t := rfl
  unfold DirectoryView.dropSubdirectory
  rw [called, same]
  split
  · rename_i t' done
    rw [done] at after
    exact ⟨agrees.view_deleteSubdirectory known, after.view_deleteSubdirectory known⟩
  · rename_i t' failed
    rw [failed] at after
    exact ⟨rfl, after⟩

theorem cleanWithin_eq (depth : Nat) (visited : Visited s named t) (known : Asked s named dir.node name) :
    @DirectoryView.cleanWithin σ F D (storage.answering naming) depth t dir name =
        DirectoryView.cleanWithin depth t dir name ∧
      Visited s named (DirectoryView.cleanWithin depth t dir name).2 := by
  induction depth generalizing t dir name with
  | zero => exact ⟨rfl, visited⟩
  | succ depth ih =>
    have looked := agrees.view_subdirectory? (s := t) known
    cases projected : dir.readOnly with
    | true =>
      unfold DirectoryView.cleanWithin
      rw [projected, if_pos rfl, if_pos rfl]
      exact ⟨rfl, visited⟩
    | false =>
      cases found : dir.subdirectory? t name with
      | none =>
        rw [found] at looked
        unfold DirectoryView.cleanWithin
        rw [projected, looked, found]
        exact ⟨rfl, visited⟩
      | some inner =>
        have inside := Reached.view_subdirectory? visited known found
        have files := DirectoryView.forEach_congr inner.dropFile
          (@DirectoryView.dropFile σ F D (storage.answering naming) inner) (inner.files t) (Visited s named)
          (fun u file listed now =>
            have known := Asked.view_file visited now inside inside listed
            ⟨agrees.view_deleteFile known, now.view_deleteFile known⟩) visited
        have directories := DirectoryView.forEach_congr (DirectoryView.dropSubdirectory depth inner)
          (@DirectoryView.dropSubdirectory σ F D (storage.answering naming) depth inner) _ (Visited s named)
          (fun u sub listed now =>
            have known := Asked.view_subdirectory files.2 now inside inside listed
            agrees.dropSubdirectory_eq known (ih now known)) files.2
        rw [@DirectoryView.cleanWithin_succ σ t F D (storage.answering naming) depth dir inner name projected
          (looked.trans found), DirectoryView.cleanWithin_succ depth projected found]
        have listed : @DirectoryView.files σ F D (storage.answering naming) t inner = inner.files t := rfl
        have also : ∀ u, @DirectoryView.subdirectories σ F D (storage.answering naming) u inner =
          inner.subdirectories u := fun _ => rfl
        refine ⟨?_, directories.2⟩
        -- the subdirectories are listed when the files are gone, so the first loop has to be the same for the second
        dsimp only
        rw [listed, files.1, also, directories.1]

theorem cleanSubdirectory_eq (visited : Visited s named t) (known : Asked s named dir.node name) :
    @DirectoryView.cleanSubdirectory σ F D (storage.answering naming) t dir name = dir.cleanSubdirectory t name ∧
      Visited s named (dir.cleanSubdirectory t name).2 :=
  agrees.cleanWithin_eq _ visited known

theorem deleteTree_eq (visited : Visited s named t) (known : Asked s named dir.node name) :
    @DirectoryView.deleteTree σ F D (storage.answering naming) t dir name = dir.deleteTree t name ∧
      Visited s named (dir.deleteTree t name).2 := by
  obtain ⟨same, after⟩ := agrees.cleanSubdirectory_eq visited known
  unfold DirectoryView.deleteTree
  rw [same]
  split
  · rename_i t' done
    rw [done] at after
    exact ⟨agrees.view_deleteSubdirectory known, after.view_deleteSubdirectory known⟩
  · rename_i t' failed
    rw [failed] at after
    exact ⟨rfl, after⟩

theorem placeFile_eq (visited : Visited s named t) (known : Asked s named dir.node name) (data : Bytes) :
    @DirectoryView.placeFile σ F D (storage.answering naming) t dir name data = dir.placeFile t name data ∧
      Visited s named (dir.placeFile t name data).2 := by
  obtain ⟨after, new⟩ := visited.view_createFile known
  unfold DirectoryView.placeFile
  rw [agrees.view_createFile known]
  split
  · rename_i t' refused
    rw [refused] at after
    exact ⟨rfl, after⟩
  · rename_i copy t' created
    rw [created] at after new
    have made := new copy rfl
    refine ⟨rfl, ?_⟩
    have sized := after.view_resize made data.length
    split
    · rename_i t'' refused
      rw [refused] at sized
      exact sized
    · rename_i t'' resized
      rw [resized] at sized
      exact sized.view_write made 0 data

theorem copyTreeWithin_eq (depth : Nat) (visited : Visited s named t) (origin : Reached s named source.node)
    (reached : Reached s named target.node) :
    @DirectoryView.copyTreeWithin σ F D (storage.answering naming) depth t source target =
        DirectoryView.copyTreeWithin depth t source target ∧
      Visited s named (DirectoryView.copyTreeWithin depth t source target).2 := by
  induction depth generalizing t source target with
  | zero => exact ⟨rfl, visited⟩
  | succ depth ih =>
    have files := DirectoryView.forEachUntil_congr
      (fun u file => target.placeFile u (file.name u) (FileView.readAll u file))
      (fun u file => @DirectoryView.placeFile σ F D (storage.answering naming) u target (file.name u)
        (FileView.readAll u file))
      (source.files t) (Visited s named) (fun u file listed now =>
        have known := Asked.view_file visited now reached origin listed
        agrees.placeFile_eq now known _) visited
    cases placed : DirectoryView.forEachUntil
        (fun u file => target.placeFile u (file.name u) (FileView.readAll u file)) (source.files t) t with
    | mk complete t' =>
      rw [placed] at files
      cases complete with
      | false =>
        rw [@DirectoryView.copyTreeWithin_of_stopped σ t F D (storage.answering naming) depth t' source target files.1,
          DirectoryView.copyTreeWithin_of_stopped placed]
        exact ⟨rfl, files.2⟩
      | true =>
        rw [@DirectoryView.copyTreeWithin_of_placed σ t F D (storage.answering naming) depth t' source target files.1,
          DirectoryView.copyTreeWithin_of_placed placed]
        refine DirectoryView.forEachUntil_congr _ _ _ (Visited s named) (fun u sub listed now => ?_) files.2
        have known := Asked.view_subdirectory files.2 now reached origin listed
        have beneath := Reached.view_subdirectories files.2 origin listed
        obtain ⟨after, new⟩ := now.view_createSubdirectory known
        have called : @DirectoryView.name σ F D (storage.answering naming) u sub = sub.name u := rfl
        unfold DirectoryView.copyInto
        rw [called, agrees.view_createSubdirectory known]
        split
        · rename_i u' refused
          rw [refused] at after
          exact ⟨rfl, after⟩
        · rename_i copy u' created
          rw [created] at after new
          exact ih after beneath (new copy rfl)

theorem copyTree_eq (visited : Visited s named t) (origin : Reached s named source.node)
    (reached : Reached s named target.node) :
    @DirectoryView.copyTree σ F D (storage.answering naming) t source target = source.copyTree t target ∧
      Visited s named (source.copyTree t target).2 :=
  agrees.copyTreeWithin_eq _ visited origin reached

theorem sameShapeWithin_eq (depth : Nat) (visited : Visited s named t) (origin : Reached s named source.node)
    (reached : Reached s named target.node) :
    @DirectoryView.sameShapeWithin σ F D (storage.answering naming) t depth source target =
        DirectoryView.sameShapeWithin t depth source target := by
  induction depth generalizing source target with
  | zero => rfl
  | succ depth ih =>
    unfold DirectoryView.sameShapeWithin
    refine congrArg (and _) (Bool.eq_iff_iff.mpr ?_)
    rw [List.all_eq_true, List.all_eq_true]
    refine forall₂_congr fun sub listed => ?_
    have known := Asked.view_subdirectory visited visited reached origin listed
    have called : @DirectoryView.name σ F D (storage.answering naming) t sub = sub.name t := rfl
    rw [called, agrees.view_subdirectory? known]
    split
    · rfl
    · rename_i other found
      rw [ih (Reached.view_subdirectories visited origin listed) (Reached.view_subdirectory? visited known found)]

theorem sameShape_eq (visited : Visited s named t) (origin : Reached s named source.node)
    (reached : Reached s named target.node) :
    @DirectoryView.sameShape σ F D (storage.answering naming) t source target = source.sameShape t target :=
  agrees.sameShapeWithin_eq _ visited origin reached

end Naming.Agrees

end GuestStorage.Tree
