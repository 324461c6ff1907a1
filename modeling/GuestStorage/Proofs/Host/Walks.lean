import GuestStorage.Proofs.Host.Views

namespace GuestStorage.Host.Disk.Twins

open GuestStorage.Tree

variable {root : Root} {place spot : Location} {disk other start : Disk} {dir : DirectoryView DirectoryNode}

section Loops

variable {α : Type} (step : Disk → α → Bool × Disk) (items : List α)

theorem forEach_agree (twins : Twins root place spot disk other) (calm : Calm place start disk)
    (next : ∀ {before before'}, Twins root place spot before before' → Calm place start before →
      ∀ x ∈ items, Agree Calm place spot before before' (step before x) (step before' x)) :
    Agree Calm place spot disk other (DirectoryView.forEach step items disk)
      (DirectoryView.forEach step items other) := by
  induction items generalizing disk other with
  | nil => exact twins.still true
  | cons x rest ih =>
    obtain ⟨done, middle, middle', left, right, alike⟩ := (next twins calm x List.mem_cons_self).split
    have further := ih (twins.onward alike) (calm.trans alike.left)
      fun twins calm y among => next twins calm y (List.mem_cons_of_mem x among)
    simp only [DirectoryView.forEach, left, right]
    exact .onward alike (further.map (done && ·))

theorem forEachUntil_agree (twins : Twins root place spot disk other) (calm : Calm place start disk)
    (next : ∀ {before before'}, Twins root place spot before before' → Calm place start before →
      ∀ x ∈ items, Agree Calm place spot before before' (step before x) (step before' x)) :
    Agree Calm place spot disk other (DirectoryView.forEachUntil step items disk)
      (DirectoryView.forEachUntil step items other) := by
  induction items generalizing disk other with
  | nil => exact twins.still true
  | cons x rest ih =>
    obtain ⟨done, middle, middle', left, right, alike⟩ := (next twins calm x List.mem_cons_self).split
    simp only [DirectoryView.forEachUntil, left, right]
    cases done with
    | false => exact ⟨rfl, alike⟩
    | true =>
      exact .onward alike (ih (twins.onward alike) (calm.trans alike.left)
        fun twins calm y among => next twins calm y (List.mem_cons_of_mem x among))

end Loops

theorem cleanWithin_agree (twins : Twins root place spot disk other)
    (placed : DirectoryPlaced disk root place dir) (depth : Nat) (name : String) :
    Agree Calm place spot disk other (DirectoryView.cleanWithin depth disk dir name)
      (DirectoryView.cleanWithin depth other dir name) := by
  induction depth generalizing disk other dir name with
  | zero => exact twins.still false
  | succ depth ih =>
    rw [DirectoryView.cleanWithin, DirectoryView.cleanWithin]
    split
    · exact twins.still false
    · rw [twins.subdirectory?_eq placed]
      cases found : dir.subdirectory? disk name with
      | none => exact twins.still false
      | some inner =>
        have innerPlaced := twins.placed_of_subdirectory? placed found
        have files := twins.forEach_agree (fun s file => inner.deleteFile s (file.name s))
          (inner.files disk) (Calm.refl place disk) (by
            intro before before' again calm file _
            have same : file.name before' = file.name before := rfl
            rw [same]
            exact again.deleteFile_agree (innerPlaced.calm calm) (file.name before))
        obtain ⟨emptied, middle, middle', left, right, alike⟩ := files.split
        have onward := twins.onward alike
        have still := innerPlaced.calm alike.left
        simp only [twins.files_eq innerPlaced, left, right, onward.subdirectories_eq still]
        refine .onward alike ((onward.forEach_agree _ _ (Calm.refl place middle) ?_).map (emptied && ·))
        intro before before' again calm sub _
        have here := still.calm calm
        obtain ⟨done, later, later', left, right, further⟩ := (ih again here (sub.name before)).split
        have same : sub.name before' = sub.name before := rfl
        simp only [same, left, right]
        cases done with
        | false => exact ⟨rfl, further⟩
        | true =>
          exact .onward further
            ((again.onward further).deleteSubdirectory_agree (here.calm further.left) _)

theorem reach_eq (twins : Twins root place spot disk other) (placed : DirectoryPlaced disk root place dir) :
    (Backing.reach other dir.node : Nat) = Backing.reach disk dir.node := by
  obtain ⟨names, node, plain⟩ := placed
  rw [node]
  suffices same : DirectoryNode.population other ⟨root, root.path ++ names⟩ =
      DirectoryNode.population disk ⟨root, root.path ++ names⟩ by
    simp only [Backing.reach, same]
  rcases twins.resolve plain with ⟨why, left, right⟩ | ⟨left, right⟩
  · simp only [DirectoryNode.population, left, right]
  · have many : DirectoryNode.population disk ⟨root, root.path ++ names⟩ = (disk.below (place ++ names)).length :=
      population_eq left
    have many' : DirectoryNode.population other ⟨root, root.path ++ names⟩ = (other.below (spot ++ names)).length :=
      population_eq right
    rw [many, many']
    refine (twins.left.sound.below_perm twins.right.sound fun rest => ?_).length_eq
    rw [List.append_assoc, List.append_assoc, twins.same]

theorem cleanSubdirectory_agree (twins : Twins root place spot disk other)
    (placed : DirectoryPlaced disk root place dir) (name : String) :
    Agree Calm place spot disk other (dir.cleanSubdirectory disk name)
      (dir.cleanSubdirectory other name) := by
  rw [DirectoryView.cleanSubdirectory, DirectoryView.cleanSubdirectory, twins.reach_eq placed]
  exact twins.cleanWithin_agree placed _ name

theorem deleteTree_agree (twins : Twins root place spot disk other)
    (placed : DirectoryPlaced disk root place dir) (name : String) :
    Agree Calm place spot disk other (dir.deleteTree disk name) (dir.deleteTree other name) := by
  obtain ⟨done, middle, middle', left, right, alike⟩ := (twins.cleanSubdirectory_agree placed name).split
  simp only [DirectoryView.deleteTree, left, right]
  cases done with
  | false => exact ⟨rfl, alike⟩
  | true =>
    exact .onward alike ((twins.onward alike).deleteSubdirectory_agree (placed.calm alike.left) name)

theorem placeFile_agree (twins : Twins root place spot disk other)
    (placed : DirectoryPlaced disk root place dir) (name : String) (data : Bytes) :
    Agree Calm place spot disk other (dir.placeFile disk name data)
      (dir.placeFile other name data) := by
  obtain ⟨agree, made⟩ := twins.createFile_agree placed name
  obtain ⟨created, middle, middle', left, right, alike⟩ := agree.split
  simp only [DirectoryView.placeFile, left, right]
  cases created with
  | none => exact ⟨rfl, alike⟩
  | some copy =>
    have onward := twins.onward alike
    have copyPlaced := made copy (by rw [left])
    rw [left] at copyPlaced
    obtain ⟨resized, tame⟩ := onward.file_resize_agree (onward.file_tame copyPlaced) data.length
    obtain ⟨done, later, later', left, right, further⟩ := resized.split
    rw [left, right] at tame
    simp only [left, right]
    refine .onward alike ?_
    cases done with
    | false => exact ⟨rfl, further⟩
    | true =>
      exact .onward further (((onward.onward further).file_write_agree tame 0 data).1.map (· == data.length))

theorem copyTreeWithin_agree (twins : Twins root place spot disk other) (depth : Nat)
    {source target : DirectoryView DirectoryNode} (fromPlaced : DirectoryPlaced disk root place source)
    (toPlaced : DirectoryPlaced disk root place target) :
    Agree Calm place spot disk other (DirectoryView.copyTreeWithin depth disk source target)
      (DirectoryView.copyTreeWithin depth other source target) := by
  induction depth generalizing disk other source target with
  | zero => exact twins.still false
  | succ depth ih =>
    have files := twins.forEachUntil_agree
      (fun s file => target.placeFile s (file.name s) (file.readAll s)) (source.files disk)
      (Calm.refl place disk) (by
        intro before before' again calm file listed
        have tame := again.file_tame ((twins.placed_of_files fromPlaced listed).calm calm)
        rw [tame.readAll_eq]
        exact again.placeFile_agree (toPlaced.calm calm) _ _)
    obtain ⟨done, middle, middle', left, right, alike⟩ := files.split
    have onward := twins.onward alike
    have still := fromPlaced.calm alike.left
    simp only [DirectoryView.copyTreeWithin, twins.files_eq fromPlaced, left, right]
    refine .onward alike ?_
    cases done with
    | false => exact onward.still false
    | true =>
      simp only [onward.subdirectories_eq still]
      apply onward.forEachUntil_agree _ _ (Calm.refl place middle)
      intro before before' again calm sub listed
      have subPlaced := (onward.placed_of_subdirectories still listed).calm calm
      obtain ⟨agree, made⟩ :=
        again.createSubdirectory_agree ((toPlaced.calm alike.left).calm calm) (sub.name before)
      obtain ⟨created, later, later', left, right, further⟩ := agree.split
      have same : sub.name before' = sub.name before := rfl
      simp only [same, left, right]
      cases created with
      | none => exact ⟨rfl, further⟩
      | some copy =>
        have copyPlaced := made copy (by rw [left])
        rw [left] at copyPlaced
        exact .onward further (ih (again.onward further) (subPlaced.calm further.left) copyPlaced)

theorem copyTree_agree (twins : Twins root place spot disk other)
    {source target : DirectoryView DirectoryNode} (fromPlaced : DirectoryPlaced disk root place source)
    (toPlaced : DirectoryPlaced disk root place target) :
    Agree Calm place spot disk other (source.copyTree disk target)
      (source.copyTree other target) := by
  rw [DirectoryView.copyTree, DirectoryView.copyTree, twins.reach_eq fromPlaced]
  exact twins.copyTreeWithin_agree _ fromPlaced toPlaced

theorem fileSizes_eq (twins : Twins root place spot disk other)
    (placed : DirectoryPlaced disk root place dir) : dir.fileSizes other = dir.fileSizes disk := by
  rw [DirectoryView.fileSizes, DirectoryView.fileSizes, twins.files_eq placed]
  apply List.map_congr_left
  intro file listed
  rw [(twins.file_tame (twins.placed_of_files placed listed)).size_eq]
  rfl

theorem sameShapeWithin_eq (twins : Twins root place spot disk other) (depth : Nat)
    {a b : DirectoryView DirectoryNode} (first : DirectoryPlaced disk root place a)
    (second : DirectoryPlaced disk root place b) :
    DirectoryView.sameShapeWithin other depth a b = DirectoryView.sameShapeWithin disk depth a b := by
  induction depth generalizing a b with
  | zero => rfl
  | succ depth ih =>
    rw [DirectoryView.sameShapeWithin, DirectoryView.sameShapeWithin, twins.fileSizes_eq first,
      twins.fileSizes_eq second, twins.subdirectories_eq first, twins.subdirectories_eq second]
    congr 1
    rw [Bool.eq_iff_iff, List.all_eq_true, List.all_eq_true]
    refine forall₂_congr fun sub listed => ?_
    have same : sub.name other = sub.name disk := rfl
    rw [same, twins.subdirectory?_eq second]
    cases found : b.subdirectory? disk (sub.name disk) with
    | none => rfl
    | some twin =>
      have subPlaced := twins.placed_of_subdirectories first listed
      have twinPlaced := twins.placed_of_subdirectory? second found
      dsimp only
      rw [ih subPlaced twinPlaced]

theorem sameShape_eq (twins : Twins root place spot disk other) {a b : DirectoryView DirectoryNode}
    (first : DirectoryPlaced disk root place a) (second : DirectoryPlaced disk root place b) :
    a.sameShape other b = a.sameShape disk b := by
  rw [DirectoryView.sameShape, DirectoryView.sameShape, twins.reach_eq first]
  exact twins.sameShapeWithin_eq _ first second

end GuestStorage.Host.Disk.Twins
