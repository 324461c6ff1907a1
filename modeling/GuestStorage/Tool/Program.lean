import GuestStorage.Config.Tool
import GuestStorage.Host.Node
import GuestStorage.Host.Preparing
import GuestStorage.Tool.Arguments

namespace GuestStorage.Tool

open Host

/-- Where a run takes place. -/
structure Surroundings where
  disk : Disk
  /-- The directory where relative paths start. -/
  start : Location
  meter : Service.Roots.SpaceMeter
  /-- How long a file may become. -/
  fileLimit : Nat
  /-- What is written to the log before each moment at which a command looks at the disk. -/
  lines : Nat → Bytes

inductive Outcome where
  /-- Nothing was run. -/
  | stopped (exit : Exit)
  | failed (message : String)
  | finished (output : Bytes)
  deriving DecidableEq

def Outcome.code : Outcome → Nat
  | .stopped exit => exit.code
  | .failed _ => 1
  | .finished _ => 0

def readText? (disk : Disk) (start : Location) (path : String) : Option String :=
  if pathLimit < path.utf8ByteSize then none
  else
    match disk.readFile ((PathText.ofText path).names start) with
    | .error _ => none
    | .ok bytes => Text.Utf8.decode? bytes

def loadConfig (disk : Disk) (start : Location) : Option String → Except String Config.ToolConfig
  | none => .ok {}
  | some path =>
    match readText? disk start path with
    | none => .error ("reading config file " ++ path)
    | some document => (Config.ToolConfig.parse document).mapError (·.message)

def makeLogDirectory (disk : Disk) (start : Location) : Option PathText → Except String Unit × Disk
  | none => (.ok (), disk)
  | some directory =>
    match disk.ensureDirectories start directory with
    | (.ok (), disk) => (.ok (), disk)
    | (.error _, disk) => (.error ("creating log directory " ++ directory.text), disk)

/-- Makes the log file ready at a path, together with the directories above it, and answers its place. -/
def openLog (disk : Disk) (start : Location) (path : String) : Except String Location × Disk :=
  let log := PathText.ofText path
  let failure := "opening log file " ++ path
  match makeLogDirectory disk start log.parent? with
  | (.error message, disk) => (.error message, disk)
  | (.ok (), disk) =>
    if pathLimit < path.utf8ByteSize then (.error failure, disk)
    else
      match disk.ensureFile (Disk.linkLimit + 1) (log.names start) with
      | .error _ => (.error failure, disk)
      | .ok (place, disk) => (.ok place, disk)

/-- The place of the log, unless nothing is logged to a file. -/
def startLogging (disk : Disk) (start : Location) (options : Config.LoggingOptions) :
    Except String (Option Location) × Disk :=
  match options.logPath? Config.componentName with
  | none => (.ok none, disk)
  | some path =>
    let (opened, disk) := openLog disk start path
    (opened.map some, disk)

/-- The disk at the moments of a command; the log has grown before each of them. -/
def diskAt (log : Option Location) (lines : Nat → Bytes) (disk : Disk) : Nat → Disk
  | 0 => (log.map fun place => disk.append place (lines 0)).getD disk
  | moment + 1 =>
    let disk := diskAt log lines disk moment
    (log.map fun place => disk.append place (lines (moment + 1))).getD disk

/-- What a command prints, and the moment at which it is done, if it ever is. -/
def commandOutput {σ F D : Type} [Tree.Backing σ F D] (outside : Service.Collaborators σ F D)
    (config : Config.ServiceConfig) (now : Nat → σ) : Command → Option (Except String Bytes × Nat)
  | .list path place => some ((list outside now place path).map Text.Utf8.encode, 2)
  | .concatenate path place => concatenate outside now place path
  | .saves space => some (.ok (Text.Utf8.encode (saves outside config (now 0) space)), 1)
  | .freeSpace => some (.ok (Text.Utf8.encode (freeSpace outside)), 0)

/-- The mounts of a host under given roots, where nothing is installed. -/
def hostCollaborators (start : Location) (meter : Service.Roots.SpaceMeter) (fileLimit : Nat)
    (roots : Service.Roots) : Service.Collaborators Disk FileNode DirectoryNode :=
  ⟨roots.controller (fun disk path => disk.openRoot fileLimit start path) meter, .nothing⟩

/-- A root on the command line replaces all roots of the configuration. -/
def rootsFor (arguments : Arguments) (config : Config.ToolConfig) : Service.Roots :=
  match arguments.root with
  | none => config.storage
  | some root => .under root

def rootsUsed (roots : Service.Roots) (config : Config.ServiceConfig) : Command → List String
  | .list _ .sdCard | .concatenate _ .sdCard => roots.sdmc.toList
  | .list _ (.space space) | .concatenate _ (.space space) => (roots.space? space).toList
  | .saves space => ((space.map ([·])).getD config.infoReaderSpaces).filterMap roots.space?
  | .freeSpace => []

/-- Nothing is answered for a command that never ends. -/
def execute (world : Surroundings) (arguments : Arguments) : Option (Outcome × Disk) :=
  match loadConfig world.disk world.start arguments.config with
  | .error message => some (.failed message, world.disk)
  | .ok config =>
    match startLogging world.disk world.start (arguments.logging.merge config.logging) with
    | (.error message, disk) => some (.failed message, disk)
    | (.ok log, disk) =>
      let outside := hostCollaborators world.start world.meter world.fileLimit (rootsFor arguments config)
      let now := diskAt log world.lines disk
      match commandOutput outside config.service now arguments.command with
      | none => none
      | some (.error message, last) => some (.failed message, now last)
      | some (.ok output, last) => some (.finished output, now last)

/-- Runs the tool with its arguments; the disk is answered as the run leaves it. -/
def run (world : Surroundings) (arguments : List String) : Option (Outcome × Disk) :=
  match Arguments.parse arguments with
  | .error exit => some (.stopped exit, world.disk)
  | .ok arguments => execute world arguments

end GuestStorage.Tool
