import GuestStorage.Proofs.Save.Location
import GuestStorage.Proofs.Tree.Shelves
import GuestStorage.Save.Enumeration
import Mathlib.Data.List.Nodup

namespace GuestStorage.Save

open GuestStorage.Tree
open Wire (SaveDescriptor SaveInfo SaveDataType SaveDataSpace UserId)
open Wire.SaveDescriptor (hexId)

variable {σ F D : Type} [Backing σ F D]

section Sources

variable (s : σ) (space : SaveDataSpace)

def userSources (saveId : UInt64) (user : DirectoryView D) : List (DirectoryView D × SaveInfo) :=
  let userId := decodeUser (user.name s)
  if saveId = 0 then [(user, record space .systemSaveData userId saveId 0 (user.size s))]
  else
    let kind := if userId.isZero then SaveDataType.deviceSaveData else .saveData
    (user.subdirectories s).map fun title =>
      (title, record space kind userId saveId (decodeId (title.name s)) (title.size s))

def saveTreeSources (saves : DirectoryView D) : List (DirectoryView D × SaveInfo) :=
  (saves.subdirectories s).flatMap fun save =>
    (save.subdirectories s).flatMap (userSources s space (decodeId (save.name s)))

def temporarySources (save : DirectoryView D) : List (DirectoryView D × SaveInfo) :=
  (save.subdirectories s).flatMap fun user =>
    ((user.subdirectories s).filter fun title =>
      !((title.files s).isEmpty && (title.subdirectories s).isEmpty)).map fun title =>
        (title, record space .temporaryStorage (decodeUser (user.name s)) (decodeId (save.name s))
          (decodeId (title.name s)) (title.size s))

def spaceSources (root : DirectoryView D) : List (DirectoryView D × SaveInfo) :=
  (root.subdirectories s).flatMap fun first =>
    if first.name s = "save" then saveTreeSources s space first
    else if space = .temporaryStorage then temporarySources s space first
    else []

variable {s space}

theorem map_userSources (saveId : UInt64) (user : DirectoryView D) :
    (userSources s space saveId user).map (·.2) = userRecords s space saveId user := by
  simp only [userSources, userRecords]
  split
  · rfl
  · rw [List.map_map]
    rfl

theorem map_saveTreeSources (saves : DirectoryView D) :
    (saveTreeSources s space saves).map (·.2) = saveTreeRecords s space saves := by
  simp only [saveTreeSources, saveTreeRecords, List.map_flatMap, map_userSources]

theorem map_temporarySources (save : DirectoryView D) :
    (temporarySources s space save).map (·.2) = temporaryRecords s space save := by
  simp only [temporarySources, temporaryRecords, List.map_flatMap, List.map_map, Function.comp_def]

theorem map_spaceSources (root : DirectoryView D) :
    (spaceSources s space root).map (·.2) = spaceRecords s space root := by
  simp only [spaceSources, spaceRecords, List.map_flatMap]
  congr 1
  funext first
  split
  · exact map_saveTreeSources first
  · split
    · exact map_temporarySources first
    · rfl

end Sources

/-- The places that directories of saves which were asked for take, and those above them, where there is room. -/
def Made (room : List String → Prop) (asked : List SaveDescriptor) (names : List String) : Prop :=
  names ≠ [] ∧ room names ∧ ∃ descriptor ∈ asked, names <+: location descriptor

def Shelf (room : List String → Prop) (asked : List SaveDescriptor) (names : List String) : Prop :=
  names = [] ∨ room names ∧ ∃ descriptor ∈ asked, names <+: location descriptor ∧ names ≠ location descriptor

section Made

variable {room : List String → Prop} {asked : List SaveDescriptor} {descriptor : SaveDescriptor}
  {name save user : String}

theorem location_eq (descriptor : SaveDescriptor) : location descriptor =
    "save" :: hexId descriptor.saveId :: descriptor.userId.hex ::
      if descriptor.saveId = 0 then [] else [hexId descriptor.titleId] := by
  rw [location]
  split
  · rename_i zero
    simp [zero]
  · rfl

theorem made_top : Made room asked [name] ↔ room [name] ∧ name = "save" ∧ asked ≠ [] := by
  have some_ : (∃ descriptor, descriptor ∈ asked) ↔ asked ≠ [] :=
    ⟨fun among => List.ne_nil_of_mem among.choose_spec, List.exists_mem_of_ne_nil asked⟩
  simp [Made, location_eq, List.cons_prefix_cons, ← some_, and_comm]

theorem made_save : Made room asked ["save", name] ↔
    room ["save", name] ∧ ∃ descriptor ∈ asked, name = hexId descriptor.saveId := by
  simp [Made, location_eq, List.cons_prefix_cons]

theorem made_user : Made room asked ["save", save, name] ↔ room ["save", save, name] ∧
    ∃ descriptor ∈ asked, save = hexId descriptor.saveId ∧ name = descriptor.userId.hex := by
  simp [Made, location_eq, List.cons_prefix_cons]

theorem made_title : Made room asked ["save", save, user, name] ↔ room ["save", save, user, name] ∧
    ∃ descriptor ∈ asked, descriptor.saveId ≠ 0 ∧
      save = hexId descriptor.saveId ∧ user = descriptor.userId.hex ∧ name = hexId descriptor.titleId := by
  have last : ∀ descriptor : SaveDescriptor,
      [name] <+: (if descriptor.saveId = 0 then [] else [hexId descriptor.titleId]) ↔
        descriptor.saveId ≠ 0 ∧ name = hexId descriptor.titleId := by
    intro descriptor
    split <;> simp [*]
  simp only [Made, location_eq, List.cons_prefix_cons, last]
  grind

theorem shelf_save (fits : room ["save"]) (there : descriptor ∈ asked) : Shelf room asked ["save"] :=
  .inr ⟨fits, descriptor, there, by simp [location_eq], by simp [location_eq]⟩

theorem shelf_user (fits : room ["save", hexId descriptor.saveId]) (there : descriptor ∈ asked) :
    Shelf room asked ["save", hexId descriptor.saveId] :=
  .inr ⟨fits, descriptor, there, by simp [location_eq, List.cons_prefix_cons], by simp [location_eq]⟩

theorem shelf_title (fits : room ["save", hexId descriptor.saveId, descriptor.userId.hex]) (there : descriptor ∈ asked)
    (some_ : descriptor.saveId ≠ 0) : Shelf room asked ["save", hexId descriptor.saveId, descriptor.userId.hex] :=
  .inr ⟨fits, descriptor, there, by simp [location_eq, List.cons_prefix_cons], by simp [location_eq, some_]⟩

end Made

/-- What the record of a save says when the files of the save have so many bytes. -/
structure Describes (space : SaveDataSpace) (kind : SaveDataType) (userId : UserId) (saveId titleId : UInt64)
    (total : Nat) (info : SaveInfo) : Prop where
  space : info.space = space
  kind : info.kind = kind
  userId : info.userId = userId
  saveId : info.saveId = saveId
  titleId : info.titleId = titleId
  size : info.imageSize = UInt64.ofNat total
  exact : total < 2 ^ 64 → info.imageSize.toNat = total
  rest : info.saveIdUnknown = 0 ∧ info.index = 0 ∧ info.rank = .primary

def kindOf (saveId : UInt64) (userId : UserId) : SaveDataType :=
  if saveId = 0 then .systemSaveData else if userId.isZero then .deviceSaveData else .saveData

def ids (info : SaveInfo) : Key := ⟨info.saveId, info.userId, info.titleId⟩

def recordOf (space : SaveDataSpace) (descriptor : SaveDescriptor) (total : Nat) : SaveInfo :=
  record space (kindOf descriptor.saveId descriptor.userId) descriptor.userId descriptor.saveId
    (key descriptor).titleId total

section Created

variable {s : σ} {space : SaveDataSpace} {root dir : DirectoryView D} {asked : List SaveDescriptor}
  {ground : Ground σ root} {info : SaveInfo}

theorem recordOf_of_zero {descriptor : SaveDescriptor} (zero : descriptor.saveId = 0) (total : Nat) :
    recordOf space descriptor total = record space .systemSaveData descriptor.userId descriptor.saveId 0 total := by
  simp [recordOf, kindOf, key, zero]

theorem recordOf_of_ne_zero {descriptor : SaveDescriptor} (some_ : descriptor.saveId ≠ 0) (total : Nat) :
    recordOf space descriptor total =
      record space (if descriptor.userId.isZero then .deviceSaveData else .saveData) descriptor.userId
        descriptor.saveId descriptor.titleId total := by
  simp [recordOf, kindOf, key, some_]

section Listed

variable (shelves : Shelves root s (Made ground.room asked) (Shelf ground.room asked))
include shelves

theorem listed_in_root (listed : dir ∈ root.subdirectories s) :
    dir.name s = "save" ∧ root.descend? s ["save"] = some dir ∧ ground.room ["save"] ∧ asked ≠ [] := by
  obtain ⟨made, led⟩ := shelves.made_of_listed shelves.top rfl listed
  obtain ⟨fits, named, some_⟩ := made_top.mp made
  rw [List.nil_append, named] at led
  exact ⟨named, led, named ▸ fits, some_⟩

theorem listed_in_saves {saves : DirectoryView D} (fits : ground.room ["save"]) (some_ : asked ≠ [])
    (led : root.descend? s ["save"] = some saves) (listed : dir ∈ saves.subdirectories s) :
    ∃ descriptor ∈ asked, dir.name s = hexId descriptor.saveId ∧ ground.room ["save", hexId descriptor.saveId] ∧
      root.descend? s ["save", hexId descriptor.saveId] = some dir := by
  obtain ⟨first, there⟩ := List.exists_mem_of_ne_nil asked some_
  obtain ⟨made, led⟩ := shelves.made_of_listed (shelf_save fits there) led listed
  obtain ⟨fits, descriptor, there, named⟩ := made_save.mp made
  rw [named] at led fits
  exact ⟨descriptor, there, named, fits, led⟩

theorem listed_in_save {save : DirectoryView D} {descriptor : SaveDescriptor} (there : descriptor ∈ asked)
    (fits : ground.room ["save", hexId descriptor.saveId])
    (led : root.descend? s ["save", hexId descriptor.saveId] = some save)
    (listed : dir ∈ save.subdirectories s) :
    ∃ other ∈ asked, other.saveId = descriptor.saveId ∧ dir.name s = other.userId.hex ∧
      ground.room ["save", hexId other.saveId, other.userId.hex] ∧
      root.descend? s ["save", hexId other.saveId, other.userId.hex] = some dir := by
  obtain ⟨made, led⟩ := shelves.made_of_listed (shelf_user fits there) led listed
  obtain ⟨fits, other, there, same, named⟩ := made_user.mp made
  have sameSave := hexId_injective same
  rw [named, same] at led fits
  exact ⟨other, there, sameSave.symm, named, fits, led⟩

theorem listed_in_user {user : DirectoryView D} {descriptor : SaveDescriptor} (there : descriptor ∈ asked)
    (some_ : descriptor.saveId ≠ 0)
    (fits : ground.room ["save", hexId descriptor.saveId, descriptor.userId.hex])
    (led : root.descend? s ["save", hexId descriptor.saveId, descriptor.userId.hex] = some user)
    (listed : dir ∈ user.subdirectories s) :
    ∃ other ∈ asked, other.saveId = descriptor.saveId ∧ other.userId = descriptor.userId ∧
      dir.name s = hexId other.titleId ∧ ground.room (location other) ∧
      root.descend? s (location other) = some dir := by
  obtain ⟨made, led⟩ := shelves.made_of_listed (shelf_title fits there some_) led listed
  obtain ⟨fits, other, there, some_, sameSave, sameUser, named⟩ := made_title.mp made
  have whole : location other =
      ["save", hexId descriptor.saveId, descriptor.userId.hex] ++ [dir.name s] := by
    rw [location_eq, if_neg some_, ← sameSave, ← sameUser, ← named]
    rfl
  exact ⟨other, there, (hexId_injective sameSave).symm, (hex_injective sameUser).symm, named, whole ▸ fits,
    whole ▸ led⟩

end Listed

theorem asked_of_mem_spaceSources (shelves : Shelves root s (Made ground.room asked) (Shelf ground.room asked))
    (listed : (dir, info) ∈ spaceSources s space root) :
    ∃ descriptor ∈ asked, ground.room (location descriptor) ∧ root.descend? s (location descriptor) = some dir ∧
      info = recordOf space descriptor (dir.size s) := by
  obtain ⟨saves, first, among⟩ := List.mem_flatMap.mp listed
  obtain ⟨named, led, fits, some_⟩ := listed_in_root shelves first
  rw [if_pos named] at among
  obtain ⟨save, second, among⟩ := List.mem_flatMap.mp among
  obtain ⟨descriptor, there, saveName, fits, led⟩ := listed_in_saves shelves fits some_ led second
  obtain ⟨user, third, among⟩ := List.mem_flatMap.mp among
  obtain ⟨owner, there, sameSave, userName, fits, led⟩ := listed_in_save shelves there fits led third
  rw [saveName, decodeId_hexId, ← sameSave] at among
  -- below saves without an id, users are saves and hold what guests make; below others, titles are
  by_cases zero : owner.saveId = 0
  · simp only [userSources, userName, decodeUser_hex, if_pos zero, List.mem_singleton, Prod.mk.injEq] at among
    obtain ⟨rfl, rfl⟩ := among
    have whole : location owner = ["save", hexId owner.saveId, owner.userId.hex] := by rw [location_eq, if_pos zero]
    exact ⟨owner, there, whole ▸ fits, whole ▸ led, (recordOf_of_zero zero _).symm⟩
  · simp only [userSources, userName, decodeUser_hex, if_neg zero, List.mem_map, Prod.mk.injEq] at among
    obtain ⟨title, fourth, rfl, rfl⟩ := among
    obtain ⟨other, there, sameSave, sameUser, titleName, fits, led⟩ :=
      listed_in_user shelves there zero fits led fourth
    refine ⟨other, there, fits, led, ?_⟩
    rw [recordOf_of_ne_zero (sameSave ▸ zero), sameSave, sameUser, titleName, decodeId_hexId]

theorem mem_spaceSources_of_user (holds : ground.holds s) {save user : String} {source : DirectoryView D × SaveInfo}
    (led : root.descend? s ["save", save, user] = some dir) (among : source ∈ userSources s space (decodeId save) dir) :
    source ∈ spaceSources s space root := by
  obtain ⟨holder, ledSave, third, -⟩ := ground.descend?_concat_eq_some ["save", save] holds led
  obtain ⟨saves, ledTop, second, saveName⟩ := ground.descend?_concat_eq_some ["save"] holds ledSave
  obtain ⟨top, ledRoot, first, named⟩ := ground.descend?_concat_eq_some [] holds ledTop
  cases ledRoot
  refine List.mem_flatMap.mpr ⟨saves, first, ?_⟩
  rw [if_pos named]
  refine List.mem_flatMap.mpr ⟨holder, second, List.mem_flatMap.mpr ⟨dir, third, ?_⟩⟩
  rwa [saveName]

theorem mem_spaceSources_of_created (holds : ground.holds s) {descriptor : SaveDescriptor}
    (led : root.descend? s (location descriptor) = some dir) :
    (dir, recordOf space descriptor (dir.size s)) ∈ spaceSources s space root := by
  rw [location_eq] at led
  by_cases zero : descriptor.saveId = 0
  · rw [if_pos zero] at led
    obtain ⟨-, -, -, userName⟩ :=
      ground.descend?_concat_eq_some ["save", hexId descriptor.saveId] holds led
    refine mem_spaceSources_of_user holds led ?_
    simp [userSources, userName, decodeId_hexId, decodeUser_hex, zero, recordOf_of_zero]
  · rw [if_neg zero] at led
    obtain ⟨user, ledUser, fourth, titleName⟩ :=
      ground.descend?_concat_eq_some ["save", hexId descriptor.saveId, descriptor.userId.hex] holds led
    obtain ⟨-, -, -, userName⟩ :=
      ground.descend?_concat_eq_some ["save", hexId descriptor.saveId] holds ledUser
    refine mem_spaceSources_of_user holds ledUser ?_
    simp only [userSources, userName, decodeId_hexId, decodeUser_hex, if_neg zero]
    refine List.mem_map.mpr ⟨dir, fourth, ?_⟩
    rw [titleName, decodeId_hexId, recordOf_of_ne_zero zero]

theorem nodup_decoded {α : Type} {decode : String → α} {code : α → String} (back : ∀ x, decode (code x) = x)
    (names : ((dir.subdirectories s).map (·.name s)).Nodup)
    (coded : ∀ sub ∈ dir.subdirectories s, ∃ x, sub.name s = code x) :
    ((dir.subdirectories s).map fun sub => decode (sub.name s)).Nodup := by
  have again : ((dir.subdirectories s).map fun sub => decode (sub.name s)) =
      ((dir.subdirectories s).map (·.name s)).map decode := by
    rw [List.map_map]
    rfl
  rw [again]
  refine List.Nodup.map_on ?_ names
  intro name listed other also same
  obtain ⟨sub, among, rfl⟩ := List.mem_map.mp listed
  obtain ⟨sub', among', rfl⟩ := List.mem_map.mp also
  obtain ⟨x, coded₁⟩ := coded sub among
  obtain ⟨y, coded₂⟩ := coded sub' among'
  rw [coded₁, coded₂, back, back] at same
  rw [coded₁, coded₂, same]

/-- Directories that are told apart by something that all their records tell have no ids in common. -/
theorem nodup_flatMap {α : Type} {dirs : List (DirectoryView D)}
    {sources : DirectoryView D → List (DirectoryView D × SaveInfo)} {mark : DirectoryView D → α}
    (told : Key → α) (distinct : (dirs.map mark).Nodup)
    (each : ∀ dir ∈ dirs, ((sources dir).map (ids ·.2)).Nodup)
    (tells : ∀ dir ∈ dirs, ∀ source ∈ sources dir, told (ids source.2) = mark dir) :
    ((dirs.flatMap sources).map (ids ·.2)).Nodup := by
  rw [List.map_flatMap, List.nodup_flatMap]
  refine ⟨each, List.Pairwise.imp_of_mem ?_ (List.pairwise_map.mp distinct)⟩
  intro dir other there also apart
  refine List.disjoint_left.mpr fun key listed listed' => ?_
  obtain ⟨source, among, rfl⟩ := List.mem_map.mp listed
  obtain ⟨source', among', same⟩ := List.mem_map.mp listed'
  exact apart ((tells dir there source among).symm.trans (same ▸ tells other also source' among'))

theorem ids_of_mem_userSources {saveId : UInt64} {source : DirectoryView D × SaveInfo}
    (among : source ∈ userSources s space saveId dir) :
    (ids source.2).saveId = saveId ∧ (ids source.2).userId = decodeUser (dir.name s) := by
  simp only [userSources] at among
  split at among
  · obtain rfl := List.mem_singleton.mp among
    exact ⟨rfl, rfl⟩
  · obtain ⟨title, -, rfl⟩ := List.mem_map.mp among
    exact ⟨rfl, rfl⟩

theorem spaceSources_distinct (holds : ground.holds s)
    (shelves : Shelves root s (Made ground.room asked) (Shelf ground.room asked)) :
    ((spaceSources s space root).map (ids ·.2)).Nodup := by
  have names : ∀ way {dir}, root.descend? s way = some dir → ((dir.subdirectories s).map (·.name s)).Nodup :=
    fun _ _ led => ground.names_nodup holds led
  -- level by level: records from one directory tell the id that its name stands for
  refine nodup_flatMap (fun _ => "save") (names [] rfl) ?_ ?_
  · intro saves first
    obtain ⟨named, led, fits, some_⟩ := listed_in_root shelves first
    rw [if_pos named]
    refine nodup_flatMap Key.saveId (nodup_decoded decodeId_hexId (names _ led) ?_) ?_ ?_
    · intro save second
      obtain ⟨descriptor, -, saveName, -⟩ := listed_in_saves shelves fits some_ led second
      exact ⟨descriptor.saveId, saveName⟩
    · intro save second
      obtain ⟨descriptor, there, saveName, fits, led⟩ := listed_in_saves shelves fits some_ led second
      refine nodup_flatMap Key.userId (nodup_decoded decodeUser_hex (names _ led) ?_) ?_ ?_
      · intro user third
        obtain ⟨owner, -, -, userName, -⟩ := listed_in_save shelves there fits led third
        exact ⟨owner.userId, userName⟩
      · intro user third
        obtain ⟨owner, there, sameSave, userName, fits, led⟩ := listed_in_save shelves there fits led third
        rw [saveName, decodeId_hexId, ← sameSave, userSources]
        dsimp only
        split
        · exact List.nodup_singleton _
        · rename_i zero
          have titles := nodup_decoded decodeId_hexId (names _ led) fun title fourth => by
            obtain ⟨other, -, -, -, titleName, -⟩ := listed_in_user shelves there zero fits led fourth
            exact ⟨other.titleId, titleName⟩
          refine List.Nodup.of_map Key.titleId ?_
          rwa [List.map_map, List.map_map]
      · intro user _ source among
        exact (ids_of_mem_userSources among).2
    · intro save _ source among
      obtain ⟨user, -, among⟩ := List.mem_flatMap.mp among
      exact (ids_of_mem_userSources among).1
  · intro saves first _ _
    exact (listed_in_root shelves first).1.symm

end Created

end GuestStorage.Save
