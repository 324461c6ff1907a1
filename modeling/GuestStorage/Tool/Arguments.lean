import GuestStorage.Config.Logging
import GuestStorage.Tool.Commands

namespace GuestStorage.Tool

/-- Why there is nothing to run: help or the version was asked for, or the arguments make no sense. -/
inductive Exit where
  | help
  | version
  | misused
  deriving DecidableEq

def Exit.code : Exit → Nat
  | .help | .version => 0
  | .misused => 2

structure Syntax where
  /-- Names of options, and the values they accept. -/
  options : List (String × (String → Bool))
  positionals : Nat
  commands : List String
  hasVersion : Bool

structure Scanned where
  values : List (String × String) := []
  positionals : List String := []
  /-- An option whose value is still to come or still to be checked. -/
  pending : Option (String × Option String) := none
  /-- Whether a double dash has ended the options. -/
  onlyPositionals : Bool := false

namespace Scanned

def value? (scanned : Scanned) (name : String) : Option String :=
  (scanned.values.find? (·.1 == name)).map (·.2)

def accept (rules : Syntax) (scanned : Scanned) (name value : String) : Except Exit Scanned :=
  if (scanned.value? name).isSome then .error .misused
  else
    match rules.options.find? (·.1 == name) with
    | some (_, accepts) =>
      if accepts value then .ok { scanned with values := (name, value) :: scanned.values }
      else .error .misused
    | none => .error .misused

def settle (rules : Syntax) (scanned : Scanned) : Except Exit Scanned :=
  match scanned.pending with
  | none => .ok scanned
  | some (_, none) => .error .misused
  | some (name, some value) => { scanned with pending := none }.accept rules name value

def awaitsValue (scanned : Scanned) : Bool := scanned.pending.any (·.2.isNone)

/-- Stops for a request that takes no value, once the option before it has been checked. -/
def stop (rules : Syntax) (scanned : Scanned) (exit : Exit) : Except Exit Scanned :=
  match scanned.settle rules with
  | .error e => .error e
  | .ok _ => .error exit

def positional (rules : Syntax) (scanned : Scanned) (argument : String) : Except Exit Scanned :=
  match scanned.settle rules with
  | .error e => .error e
  | .ok scanned =>
    if scanned.positionals.length < rules.positionals then
      .ok { scanned with positionals := scanned.positionals ++ [argument] }
    else .error .misused

/-- An argument behind two dashes, up to an equals sign and from there on. -/
def long (rules : Syntax) (scanned : Scanned) (name : String) (attached : Option String) :
    Except Exit Scanned :=
  if name == "help" || name == "version" && rules.hasVersion then
    if attached.isSome then .error .misused
    else scanned.stop rules (if name == "help" then .help else .version)
  else if rules.options.any (·.1 == name) then
    match scanned.settle rules with
    | .error e => .error e
    | .ok scanned =>
      match attached with
      | some value => scanned.accept rules name value
      | none => .ok { scanned with pending := some (name, none) }
  else .error .misused

def short (rules : Syntax) (scanned : Scanned) (letter : Char) : Except Exit Scanned :=
  if letter == 'h' then scanned.stop rules .help
  else if letter == 'V' && rules.hasVersion then scanned.stop rules .version
  else .error .misused

def cutValue (text : List Char) : String × Option String :=
  let name := String.ofList (text.takeWhile (· != '='))
  match text.dropWhile (· != '=') with
  | [] => (name, none)
  | _ :: value => (name, some (String.ofList value))

def argument (rules : Syntax) (scanned : Scanned) (text : String) : Except Exit Scanned :=
  if scanned.onlyPositionals then scanned.positional rules text
  else
    match text.toList with
    | ['-', '-'] => .ok { scanned with onlyPositionals := true }
    | '-' :: '-' :: rest =>
      let (name, attached) := cutValue rest
      scanned.long rules name attached
    | '-' :: letter :: _ => scanned.short rules letter
    | _ =>
      match scanned.pending with
      | some (name, none) => .ok { scanned with pending := some (name, some text) }
      | _ => scanned.positional rules text

/-- Goes through arguments up to a command, which is answered with the arguments behind it. -/
def scan (rules : Syntax) : Scanned → List String → Except Exit (Scanned × Option (String × List String))
  | scanned, [] => .ok (scanned, none)
  | scanned, text :: rest =>
    if !scanned.onlyPositionals && !scanned.awaitsValue && rules.commands.contains text then
      .ok (scanned, some (text, rest))
    else
      match scanned.argument rules text with
      | .error e => .error e
      | .ok scanned => scan rules scanned rest

end Scanned

inductive Command where
  | list (path : String) (place : Place)
  | concatenate (path : String) (place : Place)
  | saves (space : Option Wire.SaveDataSpace)
  | freeSpace
  deriving DecidableEq

structure Arguments where
  config : Option String
  root : Option String
  logging : Config.LoggingOptions
  command : Command
  deriving DecidableEq

def spaceOfName? : String → Option Wire.SaveDataSpace
  | "nand-system" => some .nandSystem
  | "nand-user" => some .nandUser
  | "temporary" => some .temporaryStorage
  | "sd-system" => some .sdCardSystem
  | "sd-user" => some .sdCardUser
  | _ => none

def placeOfName? (name : String) : Option Place :=
  if name == "sdmc" then some .sdCard else (spaceOfName? name).map .space

def commandNames : List String := ["ls", "cat", "saves", "df"]

def toolSyntax : Syntax where
  options := [
    ("config", (· != "")),
    ("root", (· != "")),
    ("log-level", fun text => (Config.LogLevel.ofName? text).isSome),
    ("log-format", fun text => (Config.LogFormat.ofName? text).isSome),
    ("log-dir", fun _ => true),
    ("log-file", fun _ => true)]
  positionals := 0
  commands := "help" :: commandNames
  hasVersion := true

def browseSyntax : Syntax :=
  ⟨[("mount", fun text => (placeOfName? text).isSome)], 1, [], false⟩

def savesSyntax : Syntax := ⟨[("space", fun text => (spaceOfName? text).isSome)], 0, [], false⟩

def plainSyntax : Syntax := ⟨[], 0, [], false⟩

def scanCommand (rules : Syntax) (arguments : List String) : Except Exit Scanned :=
  match Scanned.scan rules {} arguments with
  | .error e => .error e
  | .ok (scanned, _) => scanned.settle rules

def placeOf (scanned : Scanned) : Place := ((scanned.value? "mount").bind placeOfName?).getD .sdCard

def helpExit : List String → Exit
  | [] => .help
  | [name] => if commandNames.contains name || name == "help" then .help else .misused
  | _ => .misused

def parseCommand (name : String) (arguments : List String) : Except Exit Command :=
  match name with
  | "ls" => (scanCommand browseSyntax arguments).map fun scanned =>
      .list (scanned.positionals.headD "/") (placeOf scanned)
  | "cat" =>
    match scanCommand browseSyntax arguments with
    | .error e => .error e
    | .ok scanned =>
      match scanned.positionals with
      | [] => .error .misused
      | path :: _ => .ok (.concatenate path (placeOf scanned))
  | "saves" => (scanCommand savesSyntax arguments).map fun scanned =>
      .saves ((scanned.value? "space").bind spaceOfName?)
  | "df" => (scanCommand plainSyntax arguments).map fun _ => .freeSpace
  | _ => .error (helpExit arguments)

/-- The last option before a command is checked after the command's own arguments. -/
def Arguments.parse (arguments : List String) : Except Exit Arguments :=
  match Scanned.scan toolSyntax {} arguments with
  | .error e => .error e
  | .ok (_, none) => .error .misused
  | .ok (scanned, some (name, rest)) =>
    match parseCommand name rest with
    | .error e => .error e
    | .ok command =>
      match scanned.settle toolSyntax with
      | .error e => .error e
      | .ok scanned =>
        .ok {
          config := scanned.value? "config"
          root := scanned.value? "root"
          logging := {
            level := (scanned.value? "log-level").bind Config.LogLevel.ofName?
            format := (scanned.value? "log-format").bind Config.LogFormat.ofName?
            directory := scanned.value? "log-dir"
            file := scanned.value? "log-file" }
          command }

end GuestStorage.Tool
