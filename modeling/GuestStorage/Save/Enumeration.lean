import GuestStorage.Error
import GuestStorage.Path
import GuestStorage.Tree.Walk
import GuestStorage.Wire.Record

namespace GuestStorage.Save

open GuestStorage.Tree

/-- A name of exactly sixteen hexadecimal digits; any other name stands for zero. -/
def decodeId (name : String) : UInt64 :=
  match Text.Hex.bytes? name.toList with
  | none => 0
  | some bytes => if bytes.length = 8 then UInt64.ofNat (Bytes.toNat bytes.reverse) else 0

/-- A name of exactly 32 hexadecimal digits, last byte first; any other name stands for zero. -/
def decodeUser (name : String) : Wire.UserId :=
  match Text.Hex.bytes? name.toList with
  | none => .zero
  | some bytes => if bytes.length = 16 then .ofBytes bytes.reverse else .zero

/-- The components of a save's directory. A save without an id belongs to a user alone. -/
def location (descriptor : Wire.SaveDescriptor) : List String :=
  let hex := Wire.SaveDescriptor.hexId
  if descriptor.saveId = 0 then ["save", hex 0, descriptor.userId.hex]
  else ["save", hex descriptor.saveId, descriptor.userId.hex, hex descriptor.titleId]

def path (descriptor : Wire.SaveDescriptor) : String := Path.join (location descriptor)

variable {σ F D : Type} [Backing σ F D]

def record (space : Wire.SaveDataSpace) (kind : Wire.SaveDataType) (user : Wire.UserId)
    (saveId titleId : UInt64) (size : Nat) : Wire.SaveInfo where
  saveIdUnknown := 0
  space := space
  kind := kind
  userId := user
  saveId := saveId
  titleId := titleId
  imageSize := UInt64.ofNat size
  index := 0
  rank := .primary

/-- One record for each title of a user, or one for the user when the save has no id. -/
def userRecords (s : σ) (space : Wire.SaveDataSpace) (saveId : UInt64) (user : DirectoryView D) :
    List Wire.SaveInfo :=
  let userId := decodeUser (user.name s)
  if saveId = 0 then [record space .systemSaveData userId saveId 0 (user.size s)]
  else
    let kind := if userId.isZero then Wire.SaveDataType.deviceSaveData else .saveData
    (user.subdirectories s).map fun title =>
      record space kind userId saveId (decodeId (title.name s)) (title.size s)

def saveTreeRecords (s : σ) (space : Wire.SaveDataSpace) (saves : DirectoryView D) :
    List Wire.SaveInfo :=
  (saves.subdirectories s).flatMap fun save =>
    (save.subdirectories s).flatMap (userRecords s space (decodeId (save.name s)))

def temporaryRecords (s : σ) (space : Wire.SaveDataSpace) (save : DirectoryView D) :
    List Wire.SaveInfo :=
  (save.subdirectories s).flatMap fun user =>
    ((user.subdirectories s).filter fun title =>
      !((title.files s).isEmpty && (title.subdirectories s).isEmpty)).map fun title =>
        record space .temporaryStorage (decodeUser (user.name s)) (decodeId (save.name s))
          (decodeId (title.name s)) (title.size s)

def spaceRecords (s : σ) (space : Wire.SaveDataSpace) (root : DirectoryView D) :
    List Wire.SaveInfo :=
  (root.subdirectories s).flatMap fun first =>
    if first.name s = "save" then saveTreeRecords s space first
    else if space = .temporaryStorage then temporaryRecords s space first
    else []

/-- The records of several spaces in turn; a space that cannot be opened has none. -/
def enumerate (s : σ) (openSpace : Wire.SaveDataSpace → Except Error (DirectoryView D))
    (spaces : List Wire.SaveDataSpace) : List Wire.SaveInfo :=
  spaces.flatMap fun space =>
    match openSpace space with
    | .ok root => spaceRecords s space root
    | .error _ => []

end GuestStorage.Save
