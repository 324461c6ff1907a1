import GuestStorage.Proofs.Memory.Effects
import Mathlib.Data.List.Nodup
import Mathlib.Data.List.Perm.Basic

namespace GuestStorage.Memory.Store

def childNames (s : Store) (dir : DirectoryId) : List String :=
  (s.files dir).map s.fileName ++ (s.subdirectories dir).map s.directoryName

/-- A store of trees. Ranks grow from a directory to its subdirectories, so there are no cycles. -/
structure Sound (s : Store) : Prop where
  file_listed : ∀ file dir, file ∈ s.files dir ↔ s.fileParent? file = some dir
  directory_listed : ∀ sub dir, sub ∈ s.subdirectories dir ↔ s.directoryParent? sub = some dir
  names_nodup : ∀ dir, (s.childNames dir).Nodup
  ranked : ∃ rank : DirectoryId → Nat, ∀ sub dir, s.directoryParent? sub = some dir → rank dir < rank sub

variable {s s' : Store}

namespace Sound

theorem files_nodup (sound : s.Sound) (dir : DirectoryId) : (s.files dir).Nodup :=
  (List.nodup_append.mp (sound.names_nodup dir)).1.of_map _

theorem subdirectories_nodup (sound : s.Sound) (dir : DirectoryId) : (s.subdirectories dir).Nodup :=
  (List.nodup_append.mp (sound.names_nodup dir)).2.1.of_map _

theorem file_name_injective (sound : s.Sound) {dir : DirectoryId} {file other : FileId}
    (listed : file ∈ s.files dir) (also : other ∈ s.files dir)
    (same : s.fileName file = s.fileName other) : file = other :=
  List.inj_on_of_nodup_map (List.nodup_append.mp (sound.names_nodup dir)).1 listed also same

theorem directory_name_injective (sound : s.Sound) {dir sub other : DirectoryId}
    (listed : sub ∈ s.subdirectories dir) (also : other ∈ s.subdirectories dir)
    (same : s.directoryName sub = s.directoryName other) : sub = other :=
  List.inj_on_of_nodup_map (List.nodup_append.mp (sound.names_nodup dir)).2.1 listed also same

theorem names_apart (sound : s.Sound) {dir sub : DirectoryId} {file : FileId}
    (listed : file ∈ s.files dir) (also : sub ∈ s.subdirectories dir) :
    s.fileName file ≠ s.directoryName sub :=
  (List.nodup_append.mp (sound.names_nodup dir)).2.2 _ (List.mem_map_of_mem listed) _
    (List.mem_map_of_mem also)

end Sound

theorem file?_some {dir : DirectoryId} {name : String} {file : FileId}
    (found : s.file? dir name = some file) : file ∈ s.files dir ∧ s.fileName file = name :=
  ⟨List.mem_of_find?_eq_some found, by simpa using List.find?_some found⟩

theorem subdirectory?_some {dir sub : DirectoryId} {name : String}
    (found : s.subdirectory? dir name = some sub) :
    sub ∈ s.subdirectories dir ∧ s.directoryName sub = name :=
  ⟨List.mem_of_find?_eq_some found, by simpa using List.find?_some found⟩

theorem Sound.file?_eq_some (sound : s.Sound) {dir : DirectoryId} {name : String} {file : FileId} :
    s.file? dir name = some file ↔ file ∈ s.files dir ∧ s.fileName file = name := by
  constructor
  · exact file?_some
  · rintro ⟨listed, rfl⟩
    cases found : s.file? dir (s.fileName file) with
    | none =>
      have absent := List.find?_eq_none.mp found file listed
      simp at absent
    | some other =>
      have ⟨also, same⟩ := file?_some found
      rw [sound.file_name_injective also listed same]

theorem Sound.subdirectory?_eq_some (sound : s.Sound) {dir sub : DirectoryId} {name : String} :
    s.subdirectory? dir name = some sub ↔ sub ∈ s.subdirectories dir ∧ s.directoryName sub = name := by
  constructor
  · exact subdirectory?_some
  · rintro ⟨listed, rfl⟩
    cases found : s.subdirectory? dir (s.directoryName sub) with
    | none =>
      have absent := List.find?_eq_none.mp found sub listed
      simp at absent
    | some other =>
      have ⟨also, same⟩ := subdirectory?_some found
      rw [sound.directory_name_injective also listed same]

theorem hasChild_iff {dir : DirectoryId} {name : String} :
    s.hasChild dir name = true ↔ name ∈ s.childNames dir := by
  simp [hasChild, file?, subdirectory?, childNames, List.find?_isSome]

theorem held_of_file {dir : DirectoryId} {file : FileId} (listed : file ∈ s.files dir) :
    (s.directoryNode? dir).isSome := by
  cases node : s.directoryNode? dir with
  | none => simp [files, node] at listed
  | some node => rfl

theorem held_of_subdirectory {dir sub : DirectoryId} (listed : sub ∈ s.subdirectories dir) :
    (s.directoryNode? dir).isSome := by
  cases node : s.directoryNode? dir with
  | none => simp [subdirectories, node] at listed
  | some node => rfl

theorem Sound.listed_file_held (sound : s.Sound) {dir : DirectoryId} {file : FileId}
    (listed : file ∈ s.files dir) : (s.fileNode? file).isSome := by
  have parent := (sound.file_listed file dir).mp listed
  cases node : s.fileNode? file with
  | none => simp [fileParent?, node] at parent
  | some node => rfl

theorem Sound.listed_directory_held (sound : s.Sound) {dir sub : DirectoryId}
    (listed : sub ∈ s.subdirectories dir) : (s.directoryNode? sub).isSome := by
  have parent := (sound.directory_listed sub dir).mp listed
  cases node : s.directoryNode? sub with
  | none => simp [directoryParent?, node] at parent
  | some node => rfl

theorem Sound.fresh_file_unlisted (sound : s.Sound) {file : FileId} (fresh : s.fileNode? file = none)
    (dir : DirectoryId) : file ∉ s.files dir := by
  intro listed
  have held := sound.listed_file_held listed
  simp [fresh] at held

theorem Sound.fresh_directory_unlisted (sound : s.Sound) {sub : DirectoryId}
    (fresh : s.directoryNode? sub = none) (dir : DirectoryId) : sub ∉ s.subdirectories dir := by
  intro listed
  have held := sound.listed_directory_held listed
  simp [fresh] at held

section Changes

variable {dir sub : DirectoryId} {file : FileId} {name : String} {lostFiles : List FileId}
  {lost : List DirectoryId} {bytes : Bytes} {writable : Bool}

theorem AddsFile.childNames (effect : AddsFile s s' dir file name bytes writable) (sound : s.Sound)
    (other : DirectoryId) :
    s'.childNames other =
      (s.files other).map s.fileName ++ (if other = dir then [name] else [])
        ++ (s.subdirectories other).map s.directoryName := by
  have names : (s.files other).map s'.fileName = (s.files other).map s.fileName := by
    apply List.map_congr_left
    intro present listed
    rw [effect.fileName, if_neg]
    rintro rfl
    exact sound.fresh_file_unlisted effect.fresh other listed
  have dirNames : s'.directoryName = s.directoryName := funext effect.directoryName
  simp only [Store.childNames, effect.files, effect.subdirectories, List.map_append, names, dirNames]
  split <;> simp [effect.fileName]

theorem AddsFile.sound (effect : AddsFile s s' dir file name bytes writable) (sound : s.Sound)
    (free : name ∉ s.childNames dir) : s'.Sound := by
  refine ⟨?_, ?_, ?_, ?_⟩
  · intro other holder
    rw [effect.files, effect.fileParent?, List.mem_append, sound.file_listed]
    by_cases new : other = file
    · subst new
      have unowned := sound.fresh_file_unlisted effect.fresh holder
      rw [sound.file_listed] at unowned
      by_cases here : holder = dir
      · simp [here]
      · simp [here, unowned, Ne.symm here]
    · by_cases here : holder = dir <;> simp [new, here]
  · intro other holder
    rw [effect.subdirectories, effect.directoryParent?, sound.directory_listed]
  · intro holder
    rw [effect.childNames sound]
    have distinct := sound.names_nodup holder
    rw [Store.childNames] at distinct
    split
    · rename_i here
      subst here
      rw [Store.childNames] at free
      have moved : (s.files holder).map s.fileName ++ [name] ++
          (s.subdirectories holder).map s.directoryName |>.Perm
          (name :: ((s.files holder).map s.fileName ++ (s.subdirectories holder).map s.directoryName)) := by
        simp [List.perm_middle]
      exact moved.nodup_iff.mpr (List.nodup_cons.mpr ⟨free, distinct⟩)
    · simpa using distinct
  · obtain ⟨rank, grows⟩ := sound.ranked
    refine ⟨rank, ?_⟩
    intro other holder
    rw [effect.directoryParent?]
    exact grows other holder

theorem AddsDirectory.childNames (effect : AddsDirectory s s' dir sub name) (sound : s.Sound)
    (other : DirectoryId) :
    s'.childNames other = s.childNames other ++ if other = dir then [name] else [] := by
  have fileNames : s'.fileName = s.fileName := funext fun file => fileName_of_node (effect.fileNode file)
  have names : (s.subdirectories other).map s'.directoryName =
      (s.subdirectories other).map s.directoryName := by
    apply List.map_congr_left
    intro present listed
    rw [effect.directoryName, if_neg]
    rintro rfl
    exact sound.fresh_directory_unlisted effect.fresh other listed
  simp only [Store.childNames, effect.files, effect.subdirectories, List.map_append, names, fileNames]
  split <;> simp [effect.directoryName]

theorem AddsDirectory.sound (effect : AddsDirectory s s' dir sub name) (sound : s.Sound)
    (free : name ∉ s.childNames dir) : s'.Sound := by
  refine ⟨?_, ?_, ?_, ?_⟩
  · intro file holder
    rw [effect.files, fileParent?_of_node (effect.fileNode file), sound.file_listed]
  · intro other holder
    rw [effect.subdirectories, effect.directoryParent?, List.mem_append, sound.directory_listed]
    by_cases new : other = sub
    · subst new
      have unowned := sound.fresh_directory_unlisted effect.fresh holder
      rw [sound.directory_listed] at unowned
      by_cases here : holder = dir
      · simp [here]
      · simp [here, unowned, Ne.symm here]
    · by_cases here : holder = dir <;> simp [new, here]
  · intro holder
    rw [effect.childNames sound]
    split
    · rename_i here
      subst here
      exact List.nodup_append_comm.mpr (List.nodup_cons.mpr ⟨free, sound.names_nodup holder⟩)
    · simpa using sound.names_nodup holder
  · obtain ⟨rank, grows⟩ := sound.ranked
    refine ⟨fun other => if other = sub then rank dir + 1 else rank other, ?_⟩
    intro other holder owned
    have apart : dir ≠ sub := by
      rintro rfl
      simpa [effect.fresh] using effect.held
    rw [effect.directoryParent?] at owned
    split at owned
    · rename_i new
      obtain rfl := Option.some.inj owned
      simp [new, apart]
    · rename_i old
      have held := held_of_subdirectory ((sound.directory_listed other holder).mpr owned)
      have present : holder ≠ sub := by
        rintro rfl
        simp [effect.fresh] at held
      simpa [old, present] using grows other holder owned

theorem Drops.childNames_sublist (effect : Drops s s' lostFiles lost) (holder : DirectoryId) :
    (s'.childNames holder).Sublist (s.childNames holder) := by
  have fileNames : s'.fileName = s.fileName := funext effect.fileName
  have names : s'.directoryName = s.directoryName := funext effect.directoryName
  simp only [Store.childNames, effect.files, effect.subdirectories, fileNames, names]
  exact (List.filter_sublist.map _).append (List.filter_sublist.map _)

theorem Drops.sound (effect : Drops s s' lostFiles lost) (sound : s.Sound) : s'.Sound := by
  refine ⟨?_, ?_, ?_, ?_⟩
  · intro other holder
    rw [effect.files, effect.fileParent?, List.mem_filter, sound.file_listed]
    by_cases gone : other ∈ lostFiles <;> simp [gone]
  · intro other holder
    rw [effect.subdirectories, effect.directoryParent?, List.mem_filter, sound.directory_listed]
    by_cases gone : other ∈ lost <;> simp [gone]
  · intro holder
    exact (sound.names_nodup holder).sublist (effect.childNames_sublist holder)
  · obtain ⟨rank, grows⟩ := sound.ranked
    refine ⟨rank, ?_⟩
    intro other holder owned
    rw [effect.directoryParent?] at owned
    split at owned
    · cases owned
    · exact grows other holder owned

theorem nameIsFree_some {parent : DirectoryId} :
    s.nameIsFree (some parent) name = true ↔ name ∉ s.childNames parent := by
  rw [nameIsFree, Bool.not_eq_true', ← hasChild_iff, Bool.not_eq_true]

theorem nodup_map_replace {α : Type} [DecidableEq α] {items : List α} {names : α → String} {item : α}
    (distinct : (items.map names).Nodup) (free : item ∈ items → name ∉ items.map names) :
    (items.map fun other => if other = item then name else names other).Nodup := by
  refine distinct.of_map.map_on ?_
  intro x here y there same
  have apart := List.inj_on_of_nodup_map distinct here there
  have taken : ∀ z ∈ items, item ∈ items → name ≠ names z := by
    intro z listed present equal
    exact free present (equal ▸ List.mem_map_of_mem listed)
  by_cases first : x = item <;> by_cases second : y = item
  · rw [first, second]
  · simp only [first, second, if_true, if_false] at same
    exact absurd same (taken y there (first ▸ here))
  · simp only [first, second, if_true, if_false] at same
    exact absurd same.symm (taken x here (second ▸ there))
  · simp only [first, second, if_false] at same
    exact apart same

theorem nodup_map_replace_append {α : Type} [DecidableEq α] {items : List α} {names : α → String} {item : α}
    {others : List String} (distinct : (items.map names ++ others).Nodup)
    (free : item ∈ items → name ∉ items.map names ++ others) :
    ((items.map fun other => if other = item then name else names other) ++ others).Nodup := by
  by_cases listed : item ∈ items
  · have free := free listed
    rw [List.mem_append, not_or] at free
    obtain ⟨own, rest, across⟩ := List.nodup_append.mp distinct
    refine List.nodup_append.mpr ⟨nodup_map_replace own fun _ => free.1, rest, ?_⟩
    intro taken among other named
    obtain ⟨present, there, rfl⟩ := List.mem_map.mp among
    split
    · rintro rfl
      exact free.2 named
    · exact across _ (List.mem_map_of_mem there) _ named
  · rwa [List.map_congr_left fun other there => if_neg fun same : other = item => listed (same ▸ there)]

theorem Sound.of_sameParents (sound : s.Sound) (files : ∀ dir, s'.files dir = s.files dir)
    (subdirectories : ∀ dir, s'.subdirectories dir = s.subdirectories dir)
    (fileParents : ∀ file, s'.fileParent? file = s.fileParent? file)
    (directoryParents : ∀ dir, s'.directoryParent? dir = s.directoryParent? dir)
    (apart : ∀ dir, (s'.childNames dir).Nodup) : s'.Sound where
  file_listed file dir := by rw [files, fileParents, sound.file_listed]
  directory_listed sub dir := by rw [subdirectories, directoryParents, sound.directory_listed]
  names_nodup := apart
  ranked := by
    obtain ⟨rank, grows⟩ := sound.ranked
    exact ⟨rank, fun sub dir owned => grows sub dir (directoryParents sub ▸ owned)⟩

theorem RenamesFile.map_fileName (effect : RenamesFile s s' file name) (sound : s.Sound) (holder : DirectoryId) :
    (s.files holder).map s'.fileName =
      (s.files holder).map fun other => if other = file then name else s.fileName other := by
  refine List.map_congr_left fun other listed => ?_
  by_cases same : other = file
  · exact effect.fileName (same ▸ sound.listed_file_held listed) other
  · rw [if_neg same]
    exact fileName_of_node (by simp [effect.fileNode, same])

theorem RenamesFile.sound (effect : RenamesFile s s' file name) (sound : s.Sound)
    (free : s.nameIsFree (s.fileParent? file) name = true) : s'.Sound := by
  refine sound.of_sameParents (fun dir => files_of_node (effect.directoryNode dir))
    (fun dir => subdirectories_of_node (effect.directoryNode dir)) effect.fileParent?
    (fun dir => directoryParent?_of_node (effect.directoryNode dir)) fun holder => ?_
  have dirNames : s'.directoryName = s.directoryName :=
    funext fun other => directoryName_of_node (effect.directoryNode other)
  rw [Store.childNames, files_of_node (effect.directoryNode holder),
    subdirectories_of_node (effect.directoryNode holder), dirNames, effect.map_fileName sound]
  refine nodup_map_replace_append (sound.names_nodup holder) fun listed => ?_
  rwa [(sound.file_listed file holder).mp listed, nameIsFree_some] at free

theorem RenamesDirectory.map_directoryName (effect : RenamesDirectory s s' dir name) (sound : s.Sound)
    (holder : DirectoryId) :
    (s.subdirectories holder).map s'.directoryName =
      (s.subdirectories holder).map fun other => if other = dir then name else s.directoryName other := by
  refine List.map_congr_left fun other listed => ?_
  by_cases same : other = dir
  · exact effect.directoryName (same ▸ sound.listed_directory_held listed) other
  · rw [if_neg same]
    exact directoryName_of_node (by simp [effect.directoryNode, same])

theorem RenamesDirectory.sound (effect : RenamesDirectory s s' dir name) (sound : s.Sound)
    (free : s.nameIsFree (s.directoryParent? dir) name = true) : s'.Sound := by
  refine sound.of_sameParents effect.files effect.subdirectories
    (fun file => fileParent?_of_node (effect.fileNode file)) effect.directoryParent? fun holder => ?_
  have fileNames : s'.fileName = s.fileName := funext fun other => fileName_of_node (effect.fileNode other)
  rw [Store.childNames, effect.files, effect.subdirectories, fileNames, effect.map_directoryName sound]
  -- the names that change stand behind those of the files
  refine List.nodup_append_comm.mp (nodup_map_replace_append
    (List.nodup_append_comm.mp (sound.names_nodup holder)) fun listed among => ?_)
  rw [(sound.directory_listed dir holder).mp listed, nameIsFree_some] at free
  exact free (List.mem_append.mpr (List.mem_append.mp among).symm)

theorem FillsFile.sound {change : Bytes → Bytes} (effect : FillsFile s s' file change) (sound : s.Sound) :
    s'.Sound := by
  refine sound.of_sameParents (fun dir => files_of_node (effect.directoryNode dir))
    (fun dir => subdirectories_of_node (effect.directoryNode dir)) effect.fileParent?
    (fun dir => directoryParent?_of_node (effect.directoryNode dir)) fun holder => ?_
  have fileNames : s'.fileName = s.fileName := funext effect.fileName
  have names : s'.directoryName = s.directoryName :=
    funext fun other => directoryName_of_node (effect.directoryNode other)
  rw [Store.childNames, files_of_node (effect.directoryNode holder),
    subdirectories_of_node (effect.directoryNode holder), fileNames, names]
  exact sound.names_nodup holder

theorem erase_eq_filter {α : Type} [DecidableEq α] {items : List α} (distinct : items.Nodup) (item : α) :
    items.erase item = items.filter fun other => !decide (other = item) := by
  rw [distinct.erase_eq_filter]
  exact List.filter_congr fun other _ => by by_cases same : other = item <;> simp [same]

theorem filter_ne_of_notMem {α : Type} [DecidableEq α] {items : List α} {item : α}
    (absent : item ∉ items) : (items.filter fun other => !decide (other = item)) = items := by
  rw [List.filter_eq_self]
  intro other there
  have apart : other ≠ item := fun same => absent (same ▸ there)
  simp [apart]

theorem Sound.not_own_parent (sound : s.Sound) (dir : DirectoryId) : s.directoryParent? dir ≠ some dir := by
  obtain ⟨rank, grows⟩ := sound.ranked
  intro owned
  exact Nat.lt_irrefl _ (grows dir dir owned)

theorem Sound.unlisted_file (sound : s.Sound) {other : DirectoryId} {node : DirectoryNode}
    (held : s.directoryNode? other = some node) (listed : file ∈ s.files dir) (apart : other ≠ dir) :
    file ∉ node.files := by
  have filesOf : s.files other = node.files := by simp [files, held]
  rw [← filesOf, sound.file_listed, (sound.file_listed file dir).mp listed]
  exact fun same => apart (Option.some.inj same).symm

theorem Sound.unlisted_directory (sound : s.Sound) {other : DirectoryId} {node : DirectoryNode}
    (held : s.directoryNode? other = some node) (listed : sub ∈ s.subdirectories dir)
    (apart : other ≠ dir) : sub ∉ node.subdirectories := by
  have dirsOf : s.subdirectories other = node.subdirectories := by simp [subdirectories, held]
  rw [← dirsOf, sound.directory_listed, (sound.directory_listed sub dir).mp listed]
  exact fun same => apart (Option.some.inj same).symm

theorem Sound.deleteFile_drops (sound : s.Sound) (dir : DirectoryId) (name : String) :
    s.deleteFile dir name = (false, s) ∨
      ∃ file after, s.deleteFile dir name = (true, after) ∧ s.file? dir name = some file ∧
        Drops s after [file] [] := by
  unfold deleteFile
  split
  · cases found : s.file? dir name with
    | none => exact .inl rfl
    | some file =>
      refine .inr ⟨file, _, rfl, rfl, ?_, ?_⟩
      · intro other
        by_cases same : other = file <;> simp [fileNode?_modifyFile, same]
      · intro other
        have listed := (file?_some found).1
        simp only [directoryNode?_modifyFile, directoryNode?_modifyDirectory, List.mem_singleton,
          List.not_mem_nil, not_false_eq_true, decide_true, List.filter_true, if_false, decide_not]
        split
        · rename_i here
          subst here
          cases node : s.directoryNode? other with
          | none => rfl
          | some inner =>
            have distinct := sound.files_nodup other
            simp only [files, node, Option.map_some, Option.getD_some] at distinct
            simp [erase_eq_filter distinct]
        · rename_i here
          cases node : s.directoryNode? other with
          | none => rfl
          | some inner => simp [filter_ne_of_notMem (sound.unlisted_file node listed here)]
  · exact .inl rfl

theorem Sound.deleteSubdirectory_drops (sound : s.Sound) (dir : DirectoryId) (name : String) :
    s.deleteSubdirectory dir name = (false, s) ∨
      ∃ sub after, s.deleteSubdirectory dir name = (true, after) ∧
        s.subdirectory? dir name = some sub ∧ s.holdsNothing sub = true ∧ Drops s after [] [sub] := by
  unfold deleteSubdirectory
  split
  · cases found : s.subdirectory? dir name with
    | none => exact .inl rfl
    | some sub =>
      dsimp only
      split
      · rename_i bare
        refine .inr ⟨sub, _, rfl, rfl, bare, fun other => by simp, ?_⟩
        intro other
        have listed := (subdirectory?_some found).1
        have apart : sub ≠ dir := by
          rintro rfl
          exact sound.not_own_parent sub ((sound.directory_listed sub sub).mp listed)
        simp only [directoryNode?_modifyDirectory, List.mem_singleton, List.not_mem_nil,
          not_false_eq_true, decide_true, List.filter_true, decide_not, if_neg apart]
        split
        · rename_i here
          subst here
          cases node : s.directoryNode? other with
          | none => rfl
          | some inner => simp [filter_ne_of_notMem (sound.unlisted_directory node listed apart)]
        · split
          · rename_i here
            subst here
            cases node : s.directoryNode? other with
            | none => rfl
            | some inner =>
              have distinct := sound.subdirectories_nodup other
              simp only [subdirectories, node, Option.map_some, Option.getD_some] at distinct
              simp [erase_eq_filter distinct]
          · rename_i here
            cases node : s.directoryNode? other with
            | none => rfl
            | some inner => simp [filter_ne_of_notMem (sound.unlisted_directory node listed here)]
      · exact .inl rfl
  · exact .inl rfl

theorem free_of_accepts (accepts : s.acceptsChild dir name = true) : name ∉ s.childNames dir := by
  simp only [acceptsChild, Bool.and_eq_true, Bool.not_eq_true'] at accepts
  rw [← hasChild_iff, accepts.2]
  exact Bool.false_ne_true

theorem createFile_some (created : s.createFile dir name = (some file, s')) :
    name ∉ s.childNames dir ∧ AddsFile s s' dir file name [] true := by
  by_cases accepts : s.acceptsChild dir name = true
  · obtain ⟨new, after, same, effect⟩ := createFile_adds accepts
    rw [created] at same
    cases same
    exact ⟨free_of_accepts accepts, effect⟩
  · rw [createFile_refused (by simpa using accepts)] at created
    cases created

theorem createSubdirectory_some (created : s.createSubdirectory dir name = (some sub, s')) :
    name ∉ s.childNames dir ∧ AddsDirectory s s' dir sub name := by
  by_cases accepts : s.acceptsChild dir name = true
  · obtain ⟨new, after, same, effect⟩ := createSubdirectory_adds accepts
    rw [created] at same
    cases same
    exact ⟨free_of_accepts accepts, effect⟩
  · rw [createSubdirectory_refused (by simpa using accepts)] at created
    cases created

end Changes

end GuestStorage.Memory.Store
