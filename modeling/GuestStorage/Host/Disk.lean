import GuestStorage.Bytes
import GuestStorage.Host.PathText
import GuestStorage.Tree.Backing

namespace GuestStorage.Host

inductive Entry where
  | file (bytes : Bytes)
  | directory
  | link (target : String)
  deriving DecidableEq

/-- Why the host does not do what it is asked. -/
inductive Refusal where
  | missing
  | notADirectory
  | isADirectory
  | present
  | notEmpty
  | tooManyLinks
  | nameTooLong
  | invalidArgument
  deriving DecidableEq

def Refusal.text : Refusal → String
  | .missing => "No such file or directory (os error 2)"
  | .present => "File exists (os error 17)"
  | .notADirectory => "Not a directory (os error 20)"
  | .isADirectory => "Is a directory (os error 21)"
  | .invalidArgument => "Invalid argument (os error 22)"
  | .nameTooLong => "File name too long (os error 36)"
  | .notEmpty => "Directory not empty (os error 39)"
  | .tooManyLinks => "Too many levels of symbolic links (os error 40)"

abbrev Location := List String

/-- Every entry but the topmost directory, which is always there. A file stands at one location: hard links are not
    modelled. Nor are permission bits, so whatever stands somewhere can be read and changed. -/
structure Disk where
  entries : List (Location × Entry)
  deriving DecidableEq

namespace Disk

def empty : Disk := ⟨[]⟩

def find? (disk : Disk) : Location → Option Entry
  | [] => some .directory
  | place => (disk.entries.find? (·.1 == place)).map (·.2)

def nameLimit : Nat := 255

def nameAllowed (name : String) : Bool := !name.toList.contains '\x00'

/-- Where a path leads, or the first link on the way with the names that come after it. -/
inductive Progress where
  | arrived (place : Location)
  | refused (why : Refusal)
  | atLink (holder : Location) (target : String) (rest : List String)

/-- Goes from a location through names until a link or the end. -/
def advance (disk : Disk) (place : Location) : List String → Progress
  | [] => .arrived place
  | name :: rest =>
    match disk.find? place with
    | some .directory =>
      if name == "." then advance disk place rest
      else if name == ".." then advance disk place.dropLast rest
      else if nameLimit < name.utf8ByteSize then .refused .nameTooLong
      else
        match disk.find? (place ++ [name]) with
        | none => .refused .missing
        | some (.link target) => .atLink place target rest
        | some _ => advance disk (place ++ [name]) rest
    | _ => .refused .notADirectory

def linkLimit : Nat := 40

/-- Follows a path and at most so many links to the entry it leads to. -/
def follow (disk : Disk) : Nat → Location → List String → Except Refusal Location
  | links, place, names =>
    match disk.advance place names, links with
    | .arrived place, _ => .ok place
    | .refused why, _ => .error why
    | .atLink _ _ _, 0 => .error .tooManyLinks
    | .atLink holder target rest, links + 1 =>
      let path := PathText.ofText target
      follow disk links (if path.rooted then [] else holder) (path.given ++ rest)

/-- The location of what a path names, all links followed. -/
def resolve (disk : Disk) (path : Location) : Except Refusal Location := disk.follow linkLimit [] path

/-- The location where a path's last name stands or would stand; a link there is not followed. -/
def resolveParent (disk : Disk) (path : Location) : Except Refusal Location :=
  match path.getLast? with
  | none => .ok []
  | some name =>
    match disk.resolve path.dropLast with
    | .error why => .error why
    | .ok holder =>
      match disk.find? holder with
      | some .directory =>
        if nameLimit < name.utf8ByteSize then .error .nameTooLong
        else if nameAllowed name then .ok (holder ++ [name])
        else .error .invalidArgument
      | _ => .error .notADirectory

def entryAt? (disk : Disk) (path : Location) : Option Entry :=
  match disk.resolveParent path with
  | .ok place => disk.find? place
  | .error _ => none

def targetAt? (disk : Disk) (path : Location) : Option Entry :=
  match disk.resolve path with
  | .ok place => disk.find? place
  | .error _ => none

def isChildOf (holder place : Location) : Bool :=
  place.length == holder.length + 1 && holder.isPrefixOf place

def insertByName (child : String × Entry) : List (String × Entry) → List (String × Entry)
  | [] => [child]
  | next :: rest => if next.1 < child.1 then next :: insertByName child rest else child :: next :: rest

/-- The names and entries directly inside a location, in the order of their names. -/
def children (disk : Disk) (holder : Location) : List (String × Entry) :=
  ((disk.entries.filter fun e => isChildOf holder e.1).map fun e => (e.1.getLast?.getD "", e.2)).foldr
    insertByName []

def list (disk : Disk) (path : Location) : Except Refusal (List (String × Entry)) :=
  match disk.resolve path with
  | .error why => .error why
  | .ok place =>
    match disk.find? place with
    | some .directory => .ok (disk.children place)
    | _ => .error .notADirectory

def create (disk : Disk) (path : Location) (entry : Entry) : Except Refusal Disk :=
  match disk.resolveParent path with
  | .error why => .error why
  | .ok place =>
    match disk.find? place with
    | some _ => .error .present
    | none => .ok ⟨disk.entries ++ [(place, entry)]⟩

def erase (disk : Disk) (place : Location) : Disk := ⟨disk.entries.filter (·.1 != place)⟩

theorem find?_erase (disk : Disk) {place : Location} (below : place ≠ []) (other : Location) :
    (disk.erase place).find? other = if other = place then none else disk.find? other := by
  by_cases same : other = place
  · subst same
    simp [find?, erase]
  · by_cases top : other = []
    · simp [find?, top, Ne.symm below]
    · have wanted : (fun e : Location × Entry => !decide (e.1 = place) && decide (e.1 = other)) = (·.1 == other) := by
        funext e
        by_cases here : e.1 = other
        · simp [here, same]
        · simp [here]
      simp [find?, erase, same, List.find?_filter, wanted]

def removeFile (disk : Disk) (path : Location) : Except Refusal Disk :=
  match disk.resolveParent path with
  | .error why => .error why
  | .ok place =>
    match disk.find? place with
    | none => .error .missing
    | some .directory => .error .isADirectory
    | some _ => .ok (disk.erase place)

def removeDirectory (disk : Disk) (path : Location) : Except Refusal Disk :=
  match disk.resolveParent path with
  | .error why => .error why
  | .ok place =>
    match disk.find? place with
    | none => .error .missing
    | some .directory =>
      if disk.entries.any fun e => isChildOf place e.1 then .error .notEmpty else .ok (disk.erase place)
    | some _ => .error .notADirectory

def relocate (source target place : Location) : Location :=
  if source.isPrefixOf place then target ++ place.drop source.length else place

def move (disk : Disk) (source target : Location) : Except Refusal Disk :=
  match disk.resolveParent source, disk.resolveParent target with
  | .error why, _ => .error why
  | .ok _, .error why => .error why
  | .ok oldPlace, .ok newPlace =>
    match disk.find? oldPlace, disk.find? newPlace with
    | none, _ => .error .missing
    | some _, some _ => .error .present
    | some _, none =>
      if oldPlace.isPrefixOf newPlace then .error .invalidArgument
      else .ok ⟨disk.entries.map fun e => (relocate oldPlace newPlace e.1, e.2)⟩

def readFile (disk : Disk) (path : Location) : Except Refusal Bytes :=
  match disk.resolve path with
  | .error why => .error why
  | .ok place =>
    match disk.find? place with
    | some (.file bytes) => .ok bytes
    | _ => .error .isADirectory

def changeFile (disk : Disk) (path : Location) (change : Bytes → Bytes) : Except Refusal Disk :=
  match disk.resolve path with
  | .error why => .error why
  | .ok place =>
    match disk.find? place with
    | some (.file bytes) =>
      .ok ⟨disk.entries.map fun e => if e.1 == place then (place, .file (change bytes)) else e⟩
    | _ => .error .isADirectory

def append (disk : Disk) (place : Location) (more : Bytes) : Disk :=
  match disk.find? place with
  | some (.file bytes) =>
    ⟨disk.entries.map fun e => if e.1 == place then (place, .file (bytes ++ more)) else e⟩
  | _ => disk

mutual

/-- Adds a described entry at a location. Without permission bits nothing can be kept from being changed. -/
def place (disk : Disk) (holder : Location) : Tree.Layout → Disk
  | .file name data _ => ⟨disk.entries ++ [(holder ++ [name], .file data)]⟩
  | .directory name children _ =>
    fill ⟨disk.entries ++ [(holder ++ [name], .directory)]⟩ (holder ++ [name]) children
  | .link name target => ⟨disk.entries ++ [(holder ++ [name], .link target)]⟩
termination_by structural entry => entry

def fill (disk : Disk) (holder : Location) : List Tree.Layout → Disk
  | [] => disk
  | entry :: rest => fill (place disk holder entry) holder rest
termination_by structural entries => entries

end

end Disk

end GuestStorage.Host
