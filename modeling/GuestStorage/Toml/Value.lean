namespace GuestStorage.Toml

inductive Origin where
  /-- Between braces; nothing can be added to it. -/
  | inline
  /-- Under a header of its own, or at the top of the document. -/
  | header
  /-- As part of the header of a table below it. -/
  | implied
  /-- By a dotted key. -/
  | dotted
  deriving DecidableEq

/-- Floats and dates are told apart from other values but not kept. -/
inductive Value where
  | string (text : String)
  | integer (value : Int)
  | boolean (value : Bool)
  | float
  | date
  | array (items : List Value)
  | table (origin : Origin) (entries : List (String × Value))
  /-- The tables under headers in double brackets. -/
  | tables (elements : List (List (String × Value)))

abbrev Entries := List (String × Value)

namespace Entries

def get? (entries : Entries) (key : String) : Option Value := (entries.find? (·.1 == key)).map (·.2)

def alter (change : Option Value → Option Value) (key : String) : Entries → Option Entries
  | [] => (change none).map fun value => [(key, value)]
  | (k, value) :: rest =>
    if k == key then (change (some value)).map fun value => (k, value) :: rest
    else (alter change key rest).map ((k, value) :: ·)

def openToDots : Origin → Bool
  | .inline | .header => false
  | .implied | .dotted => true

/-- Changes the table at the end of a path, made of header keys or of dotted keys. Missing tables on
    the way are created, and of tables in double brackets the last one is meant. -/
def descend (dots : Bool) (change : Origin → Entries → Option Entries) :
    List String → Origin → Entries → Option Entries
  | [], origin, entries => change origin entries
  | key :: path, _, entries =>
    entries.alter (fun
      | none =>
        let origin := if dots then Origin.dotted else .implied
        (descend dots change path origin []).map (.table origin)
      | some (.table origin inner) =>
        if origin == .inline || dots && !openToDots origin then none
        else (descend dots change path origin inner).map (.table origin)
      | some (.tables elements) =>
        match elements.getLast? with
        | none => none
        | some last => (descend dots change path .header last).map fun last =>
            .tables (elements.dropLast ++ [last])
      | some _ => none) key

def setNew (key : String) (value : Value) (entries : Entries) : Option Entries :=
  entries.alter (fun present => if present.isSome then none else some value) key

/-- Sets a key below dotted keys; dotted keys add only to tables that dotted keys have made. -/
def setDotted (path : List String) (key : String) (value : Value) (origin : Origin)
    (entries : Entries) : Option Entries :=
  descend true (fun origin entries =>
    if (origin == .dotted) == path.isEmpty then none else entries.setNew key value) path origin entries

def setUnder (header path : List String) (key : String) (value : Value) (document : Entries) :
    Option Entries :=
  descend false (fun _ entries => entries.setDotted path key value .header) header .header document

/-- Begins the table under a header; only a table that other headers imply may be there already. -/
def beginTable (path : List String) (key : String) (document : Entries) : Option Entries :=
  descend false (fun _ entries =>
    entries.alter (fun
      | none => some (.table .header [])
      | some (.table .implied inner) => some (.table .header inner)
      | some _ => none) key) path .header document

def beginElement (path : List String) (key : String) (document : Entries) : Option Entries :=
  descend false (fun _ entries =>
    entries.alter (fun
      | none => some (.tables [[]])
      | some (.tables elements) => some (.tables (elements ++ [[]]))
      | some _ => none) key) path .header document

end Entries

end GuestStorage.Toml
