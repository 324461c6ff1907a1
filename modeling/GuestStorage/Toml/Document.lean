import GuestStorage.Toml.Scan
import GuestStorage.Toml.Value

namespace GuestStorage.Toml

namespace Scan

/-- Values between commas up to a closing bracket; a comma may stand behind the last one. -/
def arrayItems (value : Scan Value) : Nat → Scan (List Value)
  | 0, _ => none
  | more + 1, text => do
    let space := skipSpace (text.length + 1)
    match space text with
    | ']' :: rest => return ([], rest)
    | start =>
      let (first, rest) ← value start
      match space rest with
      | ']' :: rest => return ([first], rest)
      | ',' :: rest =>
        let (others, rest) ← arrayItems value more rest
        return (first :: others, rest)
      | _ => none

def keyValue (value : Scan Value) : Scan (List String × Value) := fun text => do
  let (key, rest) ← dottedKey (depthLimit - 1) text
  match rest with
  | '=' :: rest =>
    let (v, rest) ← value (skipBlanks rest)
    return ((key, v), rest)
  | _ => none

/-- Keys and values between commas up to a closing brace; no comma may stand behind the last. -/
def inlinePairs (value : Scan Value) : Nat → Scan (List (List String × Value))
  | 0, _ => none
  | more + 1, text => do
    let (pair, rest) ← keyValue value text
    match skipBlanks rest with
    | '\x7d' :: rest => return ([pair], rest)
    | ',' :: rest =>
      let (others, rest) ← inlinePairs value more rest
      return (pair :: others, rest)
    | _ => none

def inlineEntries (pairs : List (List String × Value)) : Option Entries :=
  pairs.foldlM (fun entries (key, value) =>
    entries.setDotted key.dropLast (key.getLastD "") value .inline) []

def inlineTable (value : Scan Value) : Scan Value := fun text =>
  match skipBlanks text with
  | '\x7d' :: rest => some (.table .inline [], rest)
  | _ => do
    let (pairs, rest) ← inlinePairs value (text.length + 1) text
    let entries ← inlineEntries pairs
    return (.table .inline entries, rest)

def word (letters : String) (v : Value) : Scan Value := fun text =>
  let cs := letters.toList
  if cs.isPrefixOf text then some (v, text.drop cs.length) else none

/-- Dates come before numbers with a point, and those before whole numbers. -/
def number : Scan Value := fun text =>
  match date text, float text, integer text with
  | some (_, rest), _, _ => some (.date, rest)
  | none, some (_, rest), _ => some (.float, rest)
  | none, none, some (n, rest) => some (.integer n, rest)
  | none, none, none => none

def value : Nat → Scan Value
  | 0, _ => none
  | depth + 1, text =>
    match text with
    | '"' :: _ | '\'' :: _ => (string text).map fun (s, rest) => (.string s, rest)
    | '[' :: rest =>
      if depth = 0 then none
      else (arrayItems (value depth) (rest.length + 1) rest).map fun (items, rest) => (.array items, rest)
    | '\x7b' :: rest => if depth = 0 then none else inlineTable (value depth) rest
    | 't' :: _ => word "true" (.boolean true) text
    | 'f' :: _ => word "false" (.boolean false) text
    | 'i' :: _ => word "inf" .float text
    | 'n' :: _ => word "nan" .float text
    | _ => number text

end Scan

/-- A document that has been read up to some line, and the header that line stands under. -/
structure Reading where
  document : Entries
  header : List String

namespace Reading

def readHeader (reading : Reading) (text : List Char) : Option (Reading × List Char) :=
  match text with
  | '[' :: text => do
    let (key, rest) ← Scan.dottedKey (Scan.depthLimit - 1) text
    let (_, rest) ← Scan.char ']' rest
    let (_, rest) ← Scan.char ']' rest
    let document ← reading.document.beginElement key.dropLast (key.getLastD "")
    return (⟨document, key⟩, rest)
  | _ => do
    let (key, rest) ← Scan.dottedKey (Scan.depthLimit - 1) text
    let (_, rest) ← Scan.char ']' rest
    let document ← reading.document.beginTable key.dropLast (key.getLastD "")
    return (⟨document, key⟩, rest)

def readPair (reading : Reading) (text : List Char) : Option (Reading × List Char) := do
  let ((key, value), rest) ← Scan.keyValue (Scan.value Scan.depthLimit) text
  let document ← reading.document.setUnder reading.header key.dropLast (key.getLastD "") value
  return ({ reading with document }, rest)

def readLines : Nat → Reading → List Char → Option Entries
  | 0, _, _ => none
  | more + 1, reading, text =>
    match Scan.skipBlanks text with
    | [] => some reading.document
    | '[' :: rest => do
      let (reading, rest) ← reading.readHeader rest
      readLines more reading (← Scan.endOfLine? rest)
    | start =>
      match Scan.endOfLine? start with
      | some rest => readLines more reading rest
      | none => do
        let (reading, rest) ← reading.readPair start
        readLines more reading (← Scan.endOfLine? rest)

end Reading

def withoutMark : List Char → List Char
  | '\uFEFF' :: rest => rest
  | text => text

def parse? (text : String) : Option Entries :=
  let chars := withoutMark text.toList
  Reading.readLines (chars.length + 1) ⟨[], []⟩ chars

end GuestStorage.Toml
