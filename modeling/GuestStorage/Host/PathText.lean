import GuestStorage.Path

namespace GuestStorage.Host

/-- How many bytes the text of a path may have. -/
def pathLimit : Nat := 4095

structure PathText where
  rooted : Bool
  /-- What stands between separators, last piece first. -/
  pieces : List String
  deriving DecidableEq

namespace PathText

def ofText (text : String) : PathText :=
  let pieces := ((Text.cut (· == '/') text.toList).map String.ofList).reverse
  match text.toList with
  | [] => ⟨false, []⟩
  | c :: _ => if c == '/' then ⟨true, pieces.dropLast⟩ else ⟨false, pieces⟩

def text (path : PathText) : String :=
  (if path.rooted then "/" else "") ++ "/".intercalate path.pieces.reverse

def trim (rooted : Bool) : List String → List String
  | [] => []
  | piece :: rest =>
    if piece == "" || piece == "." && (rooted || !rest.isEmpty) then trim rooted rest else piece :: rest

/-- The path without its last name; the empty path and the topmost directory have no parent. -/
def parent? (path : PathText) : Option PathText :=
  match trim path.rooted path.pieces with
  | [] => none
  | _ :: rest => some ⟨path.rooted, trim path.rooted rest⟩

theorem length_trim_le (rooted : Bool) (pieces : List String) :
    (trim rooted pieces).length ≤ pieces.length := by
  induction pieces with
  | nil => simp [trim]
  | cons piece rest ih =>
    rw [trim]
    split
    · simp only [List.length_cons]
      omega
    · exact Nat.le_refl _

theorem length_lt_of_parent? {path parent : PathText} (found : path.parent? = some parent) :
    parent.pieces.length < path.pieces.length := by
  unfold parent? at found
  have bound := length_trim_le path.rooted path.pieces
  split at found
  · cases found
  · rename_i piece rest trimmed
    cases found
    have shorter := length_trim_le path.rooted rest
    rw [trimmed, List.length_cons] at bound
    exact Nat.lt_of_le_of_lt shorter bound

/-- The last name of a path; a path that ends by leading upward has none. -/
def lastName? (path : PathText) : Option String :=
  match trim path.rooted path.pieces with
  | [] | "." :: _ | ".." :: _ => none
  | name :: _ => some name

def wantsDirectory (path : PathText) : Bool := path.pieces.head? == some ""

def given (path : PathText) : List String :=
  path.pieces.reverse.filter (· != "") ++ if path.wantsDirectory then ["."] else []

/-- The names to follow from the top of the file system, where a relative path starts at a given place. -/
def names (start : List String) (path : PathText) : List String :=
  (if path.rooted then [] else start) ++ path.given

def isSound (path : PathText) : Bool := !path.pieces.any (·.toList.contains '\x00')

def below (directory path : String) : String :=
  if directory == "" || path.toList.head? == some '/' then path
  else if directory.toList.getLast? == some '/' then directory ++ path
  else directory ++ "/" ++ path

end PathText

end GuestStorage.Host
