import GuestStorage.Host.PathText
import GuestStorage.Text.Quoted

namespace GuestStorage.Config

inductive LogFormat where
  | plaintext
  | json
  deriving DecidableEq

inductive LogLevel where
  | error
  | warn
  | info
  | debug
  | trace
  deriving DecidableEq

def sameLetters (a b : String) : Bool := a.toList.map Char.toLower == b.toList.map Char.toLower

namespace LogFormat

def values : List LogFormat := [.plaintext, .json]

def name : LogFormat → String
  | .plaintext => "plaintext"
  | .json => "json"

def ofName? (name : String) : Option LogFormat := values.find? (·.name == name)

/-- Reads a format in letters of any case; the error is the message for other text. -/
def parse (text : String) : Except String LogFormat :=
  match values.find? (sameLetters ·.name text) with
  | some format => .ok format
  | none => .error ("unknown log format " ++ Text.Quoted.quote text ++ ", expected plaintext or json")

end LogFormat

namespace LogLevel

def values : List LogLevel := [.error, .warn, .info, .debug, .trace]

def name : LogLevel → String
  | .error => "error"
  | .warn => "warn"
  | .info => "info"
  | .debug => "debug"
  | .trace => "trace"

def ofName? (name : String) : Option LogLevel := values.find? (·.name == name)

def parse? (text : String) : Option LogLevel := values.find? (sameLetters ·.name text)

def label (level : LogLevel) : String := String.ofList (level.name.toList.map Char.toUpper)

end LogLevel

structure LoggingConfig where
  level : Option LogLevel := none
  format : Option LogFormat := none
  directory : Option String := none
  deriving DecidableEq

structure LoggingOptions where
  level : Option LogLevel := none
  format : Option LogFormat := none
  directory : Option String := none
  file : Option String := none
  deriving DecidableEq

def componentName : String := "fsproxy"

def logFileName (component : String) : String := component ++ ".log"

/-- Where a component's log stands below the directory that a user keeps for the state of programs. -/
def standardLogPath (stateDirectory component : String) : String :=
  Host.PathText.below (Host.PathText.below stateDirectory componentName) (logFileName component)

namespace LoggingOptions

def merge (options : LoggingOptions) (config : LoggingConfig) : LoggingOptions :=
  { options with
    level := options.level.or config.level
    format := options.format.or config.format
    directory := options.directory.or config.directory }

def isEmpty (options : LoggingOptions) : Bool := options == {}

def logsToFile (options : LoggingOptions) : Bool := options.file.isSome || options.directory.isSome

/-- The file to log to, if any. A relative file stands in the directory, if one is given. -/
def logPath? (options : LoggingOptions) (component : String) : Option String :=
  match options.file, options.directory with
  | some file, some directory => some (Host.PathText.below directory file)
  | some file, none => some file
  | none, some directory => some (Host.PathText.below directory (logFileName component))
  | none, none => none

/-- The options that are set, under the names that the command line gives them. -/
def settings (options : LoggingOptions) : List (String × String) :=
  [("log-level", options.level.map (·.name)), ("log-format", options.format.map (·.name)),
    ("log-dir", options.directory), ("log-file", options.file)].filterMap
    fun (key, value) => value.map (key, ·)

end LoggingOptions

end GuestStorage.Config
