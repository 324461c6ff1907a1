import GuestStorage.Config.Logging
import GuestStorage.Service.Controller
import GuestStorage.Service.Roots
import GuestStorage.Toml.Document

namespace GuestStorage.Config

open Toml

structure ToolConfig where
  service : ServiceConfig := {}
  storage : Service.Roots := {}
  logging : LoggingConfig := {}
  deriving DecidableEq

inductive ConfigError where
  | unreadable
  | noSpaces
  deriving DecidableEq

def ConfigError.message : ConfigError → String
  | .unreadable => "parsing config"
  | .noSpaces => noSpacesMessage

/-- A value of a closed set: its name, or a table that holds nothing but an empty table, or where it
    is allowed an empty array, under that name. -/
def choice {α : Type} (ofName? : String → Option α) (allowArray : Bool) : Value → Option α
  | .string name => ofName? name
  | .table _ [(name, .table _ [])] => ofName? name
  | .table _ [(name, .array [])] => if allowArray then ofName? name else none
  | _ => none

def setting {α : Type} (entries : Entries) (key : String) (default : α) (read : Value → Option α) :
    Option α :=
  match entries.get? key with
  | none => some default
  | some value => read value

def index? : Value → Option UInt32
  | .integer n => if 0 ≤ n ∧ n < 0x100000000 then some (UInt32.ofNat n.toNat) else none
  | _ => none

def spaces? (allowArray : Bool) : Value → Option (List Wire.SaveDataSpace)
  | .array items => items.mapM (choice Wire.ofName? allowArray)
  | .tables elements => elements.mapM fun entries => choice Wire.ofName? allowArray (.table .header entries)
  | _ => none

def ServiceConfig.read? (allowArray : Bool) (entries : Entries) : Option ServiceConfig := do
  let standard : ServiceConfig := {}
  let logMode ← setting entries "log-mode" standard.logMode (choice Wire.ofName? allowArray)
  let index ← setting entries "access-log-program-index" standard.accessLogProgramIndex index?
  let spaces ← setting entries "info-reader-spaces" standard.infoReaderSpaces (spaces? allowArray)
  return ⟨logMode, index, spaces⟩

def text? : Value → Option String
  | .string text => some text
  | _ => none

/-- The texts under several keys; of an array they are the first items in turn. A date has no keys. -/
def texts? (keys : List String) : Value → Option (List (Option String))
  | .table _ entries => keys.mapM fun key => setting entries key none fun value => (text? value).map some
  | .array items => do
    let given ← (items.take keys.length).mapM text?
    return given.map some ++ List.replicate (keys.length - given.length) none
  | .date => some (keys.map fun _ => none)
  | _ => none

def rootKeys : List String :=
  ["nand-system", "nand-user", "temporary", "sd-system", "sd-user", "sdmc", "bis-system", "bis-user"]

def roots? (value : Value) : Option Service.Roots :=
  match texts? rootKeys value with
  | some [nandSystem, nandUser, temporary, sdSystem, sdUser, sdmc, bisSystem, bisUser] =>
    some { nandSystem, nandUser, temporary, sdSystem, sdUser, sdmc, bisSystem, bisUser }
  | _ => none

def level? (value : Value) : Option (Option LogLevel) := (choice LogLevel.ofName? true value).map some

def format? (value : Value) : Option (Option LogFormat) := (choice LogFormat.ofName? true value).map some

/-- Logging settings by key, or all three as the first items of an array. -/
def logging? : Value → Option LoggingConfig
  | .table _ entries => do
    let level ← setting entries "log-level" none level?
    let format ← setting entries "log-format" none format?
    let directory ← setting entries "log-dir" none fun value => (text? value).map some
    return { level, format, directory }
  | .array (level :: format :: directory :: _) => do
    let level ← level? level
    let format ← format? format
    let directory ← text? directory
    return { level, format, directory := some directory }
  | .date => some {}
  | _ => none

def ServiceConfig.validate (config : ServiceConfig) : Except ConfigError Unit :=
  if config.isValid then .ok () else .error .noSpaces

def ServiceConfig.parse (document : String) : Except ConfigError ServiceConfig :=
  match (Toml.parse? document).bind (ServiceConfig.read? true) with
  | none => .error .unreadable
  | some config => config.validate.map fun _ => config

def ToolConfig.read? (entries : Entries) : Option ToolConfig := do
  let service ← ServiceConfig.read? false entries
  let storage ← setting entries "storage" {} roots?
  let logging ← setting entries "logging" {} logging?
  return { service, storage, logging }

/-- Reads the settings of the tool, among which those of the service stand at the top. -/
def ToolConfig.parse (document : String) : Except ConfigError ToolConfig :=
  match (Toml.parse? document).bind ToolConfig.read? with
  | none => .error .unreadable
  | some config => config.service.validate.map fun _ => config

end GuestStorage.Config
