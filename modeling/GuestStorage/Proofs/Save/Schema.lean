import GuestStorage.Proofs.Memory.Build
import GuestStorage.Proofs.Save.Names
import GuestStorage.Proofs.Save.Sources
import GuestStorage.Proofs.Tree.Volumes

namespace GuestStorage.Save

open GuestStorage.Tree
open Text.Hex (Numeral)
open Wire (SaveDataSpace SaveInfo)

variable {σ F D : Type} [Backing σ F D]

/-- The directories that make the last one of them a save of a space, and what is told of it. The save of a user
    whose bytes are all zero is that of the device. -/
inductive Qualifies (s : σ) (space : SaveDataSpace) : List (DirectoryView D) → SaveInfo → Prop
  | system {saves save user : DirectoryView D} {info : SaveInfo} : saves.name s = "save" →
      decodeId (save.name s) = 0 →
      Describes space .systemSaveData (decodeUser (user.name s)) 0 0 (user.size s) info →
      Qualifies s space [saves, save, user] info
  | device {saves save user title : DirectoryView D} {info : SaveInfo} : saves.name s = "save" →
      decodeId (save.name s) ≠ 0 → (∀ byte ∈ (decodeUser (user.name s)).toBytes, byte = 0) →
      Describes space .deviceSaveData (decodeUser (user.name s)) (decodeId (save.name s)) (decodeId (title.name s))
        (title.size s) info →
      Qualifies s space [saves, save, user, title] info
  | user {saves save user title : DirectoryView D} {info : SaveInfo} : saves.name s = "save" →
      decodeId (save.name s) ≠ 0 → (∃ byte ∈ (decodeUser (user.name s)).toBytes, byte ≠ 0) →
      Describes space .saveData (decodeUser (user.name s)) (decodeId (save.name s)) (decodeId (title.name s))
        (title.size s) info →
      Qualifies s space [saves, save, user, title] info
  | temporary {save user title : DirectoryView D} {info : SaveInfo} : space = .temporaryStorage →
      save.name s ≠ "save" → title.files s ≠ [] ∨ title.subdirectories s ≠ [] →
      Describes space .temporaryStorage (decodeUser (user.name s)) (decodeId (save.name s))
        (decodeId (title.name s)) (title.size s) info →
      Qualifies s space [save, user, title] info

theorem Qualifies.imageSize {s : σ} {space : SaveDataSpace} {passed : List (DirectoryView D)} {info : SaveInfo}
    (qualifies : Qualifies s space passed info) :
    ∃ dir, passed.getLast? = some dir ∧ info.imageSize = UInt64.ofNat (dir.size s) := by
  cases qualifies with
  | system _ _ told | device _ _ _ told | user _ _ _ told | temporary _ _ _ told => exact ⟨_, rfl, told.size⟩

/-- A save that was come upon: by the number of its space, on a way from the root of that. -/
structure Find (D : Type) where
  number : Nat
  way : Way D
  info : SaveInfo

namespace Find

variable {D : Type}

end Find

section Judge

variable (s : σ) (space : SaveDataSpace)

/-- What is told of the last of the directories that were passed, if it is a save. -/
def judge : List (DirectoryView D) → Option SaveInfo
  | [top, second, third] =>
    if top.name s = "save" then
      if decodeId (second.name s) = 0 then
        some (record space .systemSaveData (decodeUser (third.name s)) 0 0 (third.size s))
      else none
    else if space = .temporaryStorage && !((third.files s).isEmpty && (third.subdirectories s).isEmpty) then
      some (record space .temporaryStorage (decodeUser (second.name s)) (decodeId (top.name s))
        (decodeId (third.name s)) (third.size s))
    else none
  | [top, second, third, fourth] =>
    if top.name s = "save" ∧ decodeId (second.name s) ≠ 0 then
      some (record space (if (decodeUser (third.name s)).isZero then .deviceSaveData else .saveData)
        (decodeUser (third.name s)) (decodeId (second.name s)) (decodeId (fourth.name s)) (fourth.size s))
    else none
  | _ => none

variable {s space} {passed : List (DirectoryView D)} {info : SaveInfo}

section Survey

variable {top save user : DirectoryView D}

end Survey

end Judge

section Finds

variable (s : σ) (openSpace : SaveDataSpace → Except Error (DirectoryView D)) (spaces : List SaveDataSpace)

def spaceFinds (space : SaveDataSpace) (number : Nat) : List (Find D) :=
  match openSpace space with
  | .ok root => (root.walk s 4).filterMap fun way => (judge s space way.passed).map (⟨number, way, ·⟩)
  | .error _ => []

def finds : List (Find D) := spaces.zipIdx.flatMap fun (space, number) => spaceFinds s openSpace space number

variable {s openSpace spaces} {find : Find D} {space : SaveDataSpace} {number : Nat}

end Finds

section Volumes

variable (shelf : Tree.Shelf (Memory.Guarded ⊕ Host.Disk))
  (openSpace : SaveDataSpace → Except Error (DirectoryView (OnVolume (Memory.DirectoryId ⊕ Host.DirectoryNode))))
  (spaces : List SaveDataSpace)

end Volumes

section Cabinet

def drawer : Memory.Store :=
  (Memory.Store.empty.plant "user" false
    [.directory "save"
      [.file "0000000000000001" [9] false,
        .directory "nobody" [.directory "guest"
          [.file "f" [1, 2] false, .directory "0000000000000009" [.file "g" [3] false] false] false] false,
        .directory "0000000000000007"
          [.directory "guest" [.directory "000000000000000a" [.directory "deep" [.file "h" [4] false] false] false] false,
            .directory "00000000000000000000000000000002" [.directory "B" [] false] false] false] false,
      .directory "0000000000000002" [.directory "guest" [.directory "0000000000000003" [] false] false] false]).2

def tray : Host.Disk :=
  let user := "00000000000000000000000000000001"
  ⟨[(["tmp"], .directory), (["tmp", "0000000000000005"], .directory),
    (["tmp", "0000000000000005", user], .directory), (["tmp", "0000000000000005", user, "bare"], .directory),
    (["tmp", "0000000000000005", user, "full"], .directory),
    (["tmp", "0000000000000005", user, "full", "f"], .file [5, 6, 7])]⟩

def cabinet : Tree.Shelf (Memory.Guarded ⊕ Host.Disk) := ⟨#[.inl { store := drawer }, .inr tray]⟩

end Cabinet

end GuestStorage.Save
