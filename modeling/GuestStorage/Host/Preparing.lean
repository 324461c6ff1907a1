import GuestStorage.Host.Disk
import GuestStorage.Host.PathText

namespace GuestStorage.Host.Disk

def makeDirectory (disk : Disk) (names : Location) : Except Refusal Disk :=
  match names.getLast? with
  | none => .error .present
  | some last =>
    if last == "." || last == ".." then
      match disk.resolve names with
      | .error why => .error why
      | .ok _ => .error .present
    else disk.create names .directory

def leadsToDirectory (disk : Disk) (names : Location) : Bool := disk.targetAt? names == some .directory

def ensureDirectory (disk : Disk) (names : Location) : Except Refusal Disk :=
  match disk.makeDirectory names with
  | .ok disk => .ok disk
  | .error why => if disk.leadsToDirectory names then .ok disk else .error why

/-- Makes a directory and those above it that are missing. What was made before a refusal stays. -/
def ensureDirectories (disk : Disk) (start : Location) (path : PathText) : Except Refusal Unit × Disk :=
  if path.pieces.isEmpty then (.ok (), disk)
  else if !path.isSound then (.error .invalidArgument, disk)
  else if pathLimit < path.text.utf8ByteSize then (.error .nameTooLong, disk)
  else
    match disk.ensureDirectory (path.names start) with
    | .ok disk => (.ok (), disk)
    | .error .missing =>
      match _found : path.parent? with
      | none => (.error .missing, disk)
      | some parent =>
        match ensureDirectories disk start parent with
        | (.error why, disk) => (.error why, disk)
        | (.ok (), disk) =>
          match disk.ensureDirectory (path.names start) with
          | .ok disk => (.ok (), disk)
          | .error why => (.error why, disk)
    | .error why => (.error why, disk)
termination_by path.pieces.length
decreasing_by exact PathText.length_lt_of_parent? _found

/-- Makes an empty file where a path leads unless a file is there already, and answers its place. Links at
    the end are followed to the place that they name, for at most so many turns. -/
def ensureFile (disk : Disk) : Nat → Location → Except Refusal (Location × Disk)
  | 0, _ => .error .tooManyLinks
  | turns + 1, names =>
    match disk.resolve names with
    | .ok place => if disk.find? place == some .directory then .error .isADirectory else .ok (place, disk)
    | .error .missing =>
      if names.getLast? == some "." || names.getLast? == some ".." then .error .missing
      else
        match disk.resolveParent names with
        | .error why => .error why
        | .ok place =>
          match disk.find? place with
          | some (.link target) => ensureFile disk turns ((PathText.ofText target).names place.dropLast)
          | _ => (disk.create place (.file [])).map (place, ·)
    | .error why => .error why

end GuestStorage.Host.Disk
