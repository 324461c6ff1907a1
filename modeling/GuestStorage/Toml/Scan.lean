import GuestStorage.Text.Digits

namespace GuestStorage.Toml

abbrev Scan (α : Type) := List Char → Option (α × List Char)

namespace Scan

def isBlank (c : Char) : Bool := c == ' ' || c == '\t'

def skipBlanks (text : List Char) : List Char := text.dropWhile isBlank

/-- Characters that may stand in comments and between quotes: tabs and all that is not a control. -/
def isPlain (c : Char) : Bool := c == '\t' || (0x20 ≤ c.toNat && c.toNat != 0x7F)

def lineEnd? : List Char → Option (List Char)
  | '\n' :: rest => some rest
  | '\r' :: '\n' :: rest => some rest
  | _ => none

def skipComment : List Char → List Char
  | '#' :: rest => rest.dropWhile isPlain
  | text => text

/-- Passes over blanks, a comment and the end of the line or of the text. -/
def endOfLine? (text : List Char) : Option (List Char) :=
  match skipComment (skipBlanks text) with
  | [] => some []
  | rest => lineEnd? rest

def skipSpace : Nat → List Char → List Char
  | 0, text => text
  | more + 1, text =>
    match text with
    | ' ' :: rest | '\t' :: rest => skipSpace more rest
    | '#' :: _ => skipSpace more (skipComment text)
    | _ =>
      match lineEnd? text with
      | some rest => skipSpace more rest
      | none => text

def exactly (isKind : Char → Bool) : Nat → Scan (List Char)
  | 0, text => some ([], text)
  | count + 1, c :: rest =>
    if isKind c then (exactly isKind count rest).map fun (others, rest) => (c :: others, rest) else none
  | _ + 1, [] => none

def isHexDigit (c : Char) : Bool := (Text.Hex.digitValue? c).isSome

def ofDigits (base : Nat) (digits : List Char) : Nat :=
  digits.foldl (fun n c => base * n + (Text.Hex.digitValue? c).getD 0) 0

/-- The character with a code of so many hexadecimal digits; surrogates are no characters. -/
def codePoint (width : Nat) : Scan Char := fun text => do
  let (digits, rest) ← exactly isHexDigit width text
  let code := ofDigits 16 digits
  if code < 0xD800 ∨ 0xE000 ≤ code ∧ code < 0x110000 then some (Char.ofNat code, rest) else none

def escape : Scan Char
  | 'b' :: rest => some ('\x08', rest)
  | 't' :: rest => some ('\t', rest)
  | 'n' :: rest => some ('\n', rest)
  | 'f' :: rest => some ('\x0c', rest)
  | 'r' :: rest => some ('\r', rest)
  | '"' :: rest => some ('"', rest)
  | '\\' :: rest => some ('\\', rest)
  | 'u' :: rest => codePoint 4 rest
  | 'U' :: rest => codePoint 8 rest
  | _ => none

def basic : Nat → Scan (List Char)
  | 0, _ => none
  | more + 1, text =>
    match text with
    | '"' :: rest => some ([], rest)
    | '\\' :: rest => do
      let (c, rest) ← escape rest
      let (others, rest) ← basic more rest
      return (c :: others, rest)
    | c :: rest => do
      if !isPlain c then none
      let (others, rest) ← basic more rest
      return (c :: others, rest)
    | [] => none

def literal : Scan (List Char)
  | [] => none
  | '\'' :: rest => some ([], rest)
  | c :: rest =>
    if isPlain c then (literal rest).map fun (others, rest) => (c :: others, rest) else none

def skipLines : List Char → List Char
  | ' ' :: rest | '\t' :: rest | '\n' :: rest | '\r' :: '\n' :: rest => skipLines rest
  | text => text

/-- A backslash at the end of a line passes over blanks and line ends up to the next other character. -/
def lineContinuation? (text : List Char) : Option (List Char) :=
  (lineEnd? (skipBlanks text)).map skipLines

/-- The closing quotes of a text over several lines; up to two more belong to the text. -/
def closing? (quote : Char) (text : List Char) : Option (List Char × List Char) :=
  let run := text.takeWhile (· == quote)
  let count := min run.length 5
  if count < 3 then none else some (List.replicate (count - 3) quote, text.drop count)

def multiline (quote : Char) (escapes : Bool) : Nat → Scan (List Char)
  | 0, _ => none
  | more + 1, text =>
    match closing? quote text with
    | some found => some found
    | none =>
      match lineEnd? text, text with
      | some rest, _ => (multiline quote escapes more rest).map fun (others, rest) => ('\n' :: others, rest)
      | none, [] => none
      | none, c :: rest =>
        if escapes && c == '\\' then
          match lineContinuation? rest with
          | some rest => multiline quote escapes more rest
          | none => do
            let (c, rest) ← escape rest
            let (others, rest) ← multiline quote escapes more rest
            return (c :: others, rest)
        else if isPlain c then
          (multiline quote escapes more rest).map fun (others, rest) => (c :: others, rest)
        else none

/-- A line end right behind the opening quotes does not belong to the text. -/
def afterOpening (text : List Char) : List Char := (lineEnd? text).getD text

def string : Scan String := fun text =>
  let fuel := text.length + 1
  let found := match text with
    | '"' :: '"' :: '"' :: rest => multiline '"' true fuel (afterOpening rest)
    | '\'' :: '\'' :: '\'' :: rest => multiline '\'' false fuel (afterOpening rest)
    | '"' :: rest => basic fuel rest
    | '\'' :: rest => literal rest
    | _ => none
  found.map fun (cs, rest) => (String.ofList cs, rest)

def isBareKeyChar (c : Char) : Bool := c.isAlphanum || c == '_' || c == '-'

def simpleKey : Scan String := fun text =>
  match text with
  | '"' :: rest => (basic (rest.length + 1) rest).map fun (cs, rest) => (String.ofList cs, rest)
  | '\'' :: rest => (literal rest).map fun (cs, rest) => (String.ofList cs, rest)
  | _ =>
    let key := text.takeWhile isBareKeyChar
    if key.isEmpty then none else some (String.ofList key, text.dropWhile isBareKeyChar)

def depthLimit : Nat := 80

def dottedKey : Nat → Scan (List String)
  | 0, _ => none
  | more + 1, text => do
    let (key, rest) ← simpleKey (skipBlanks text)
    match skipBlanks rest with
    | '.' :: rest =>
      let (others, rest) ← dottedKey more rest
      return (key :: others, rest)
    | rest => return ([key], rest)

def digitRun (isDigit : Char → Bool) : Bool → Scan (List Char)
  | afterDigit, c :: rest =>
    if isDigit c then (digitRun isDigit true rest).map fun (others, rest) => (c :: others, rest)
    else if c == '_' && afterDigit then digitRun isDigit false rest
    else if afterDigit then some ([], c :: rest) else none
  | afterDigit, [] => if afterDigit then some ([], []) else none

def isDecimalDigit (c : Char) : Bool := c.isDigit

def wholeNumber : Scan (List Char)
  | '0' :: rest => some (['0'], rest)
  | text => digitRun isDecimalDigit false text

def sign : List Char → Option Bool × List Char
  | '+' :: rest => (some false, rest)
  | '-' :: rest => (some true, rest)
  | text => (none, text)

def fitsInteger (n : Int) : Bool := -0x8000000000000000 ≤ n && n < 0x8000000000000000

def integer : Scan Int := fun text =>
  let based (base : Nat) (isDigit : Char → Bool) (rest : List Char) := do
    let (digits, rest) ← digitRun isDigit false rest
    return ((ofDigits base digits : Nat), rest)
  let found : Option (Int × List Char) := match text with
    | '0' :: 'x' :: rest => based 16 isHexDigit rest
    | '0' :: 'o' :: rest => based 8 (fun c => '0' ≤ c && c ≤ '7') rest
    | '0' :: 'b' :: rest => based 2 (fun c => c == '0' || c == '1') rest
    | _ => do
      let (negative, rest) := sign text
      let (digits, rest) ← wholeNumber rest
      let n : Int := ofDigits 10 digits
      return (if negative == some true then -n else n, rest)
  found.bind fun (n, rest) => if fitsInteger n then some (n, rest) else none

def fraction : Scan (List Char)
  | '.' :: rest => digitRun isDecimalDigit false rest
  | text => some ([], text)

def exponent : Scan (Option Int) := fun text =>
  match text with
  | 'e' :: rest | 'E' :: rest => do
    let (negative, rest) := sign rest
    let (digits, rest) ← digitRun isDecimalDigit false rest
    let n : Int := ofDigits 10 digits
    return (some (if negative == some true then -n else n), rest)
  | _ => some (none, text)

/-- Whether a decimal rounds to a double beyond the largest finite one. -/
def overflows (mantissa : Nat) (power : Int) : Bool :=
  let bound := Nat.pow 2 1024 - Nat.pow 2 970
  if mantissa = 0 then false
  else if 400 < power then true
  else if 0 ≤ power then bound ≤ mantissa * Nat.pow 10 power.toNat
  else if power < -400 - (mantissa.log2 : Int) then false
  else bound * Nat.pow 10 (-power).toNat ≤ mantissa

/-- A number with a point or an exponent, infinity or no number; one too large must be negative. -/
def float : Scan Unit := fun text =>
  let (negative, unsigned) := sign text
  match unsigned with
  | 'i' :: 'n' :: 'f' :: rest => some ((), rest)
  | 'n' :: 'a' :: 'n' :: rest => some ((), rest)
  | _ => do
    let (whole, rest) ← wholeNumber unsigned
    let (part, rest) ← fraction rest
    let (power, rest) ← exponent rest
    if part.isEmpty && power.isNone then none
    else if negative != some true && overflows (ofDigits 10 (whole ++ part)) (power.getD 0 - part.length) then none
    else some ((), rest)

def twoDigits (least most : Nat) : Scan Nat := fun text => do
  let (digits, rest) ← exactly isDecimalDigit 2 text
  let n := ofDigits 10 digits
  if least ≤ n ∧ n ≤ most then some (n, rest) else none

def char (c : Char) : Scan Unit
  | d :: rest => if c == d then some ((), rest) else none
  | [] => none

def isLeapYear (year : Nat) : Bool := year % 4 == 0 && (year % 100 != 0 || year % 400 == 0)

def daysIn (year month : Nat) : Nat :=
  if month = 2 then (if isLeapYear year then 29 else 28)
  else if month = 4 ∨ month = 6 ∨ month = 9 ∨ month = 11 then 30 else 31

def day : Scan Unit := fun text => do
  let (digits, rest) ← exactly isDecimalDigit 4 text
  let year := ofDigits 10 digits
  let (_, rest) ← char '-' rest
  let (month, rest) ← twoDigits 1 12 rest
  let (_, rest) ← char '-' rest
  let (_, rest) ← twoDigits 1 (daysIn year month) rest
  return ((), rest)

def time : Scan Unit := fun text => do
  let (_, rest) ← twoDigits 0 23 text
  let (_, rest) ← char ':' rest
  let (_, rest) ← twoDigits 0 59 rest
  let (_, rest) ← char ':' rest
  let (_, rest) ← twoDigits 0 60 rest
  match rest with
  | '.' :: rest =>
    if rest.head?.any isDecimalDigit then return ((), rest.dropWhile isDecimalDigit) else none
  | rest => return ((), rest)

def offset (text : List Char) : List Char :=
  match text with
  | 'Z' :: rest | 'z' :: rest => rest
  | '+' :: rest | '-' :: rest =>
    let found := do
      let (_, rest) ← twoDigits 0 23 rest
      let (_, rest) ← char ':' rest
      let (_, rest) ← twoDigits 0 59 rest
      return rest
    found.getD text
  | _ => text

def date : Scan Unit := fun text =>
  match day text with
  | none => time text
  | some (_, rest) =>
    match rest with
    | 'T' :: later | 't' :: later | ' ' :: later =>
      match time later with
      | some (_, rest) => some ((), offset rest)
      | none => some ((), rest)
    | _ => some ((), rest)

end Scan

end GuestStorage.Toml
