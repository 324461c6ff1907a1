import GuestStorage.Tool.Program

namespace GuestStorage.Tool

open Host

def lookUp (place : Location) : IO (Option Entry) := do
  let path := (← IO.currentDir) / pathText place
  try
    match (← path.symlinkMetadata).type with
    | .dir => return some .directory
    | .file => return some (.file (← IO.FS.readBinFile path).toList)
    | .symlink => return some (.link (← IO.FS.realPath path).toString)
    | .other => return none
  catch _ => return none

def record (disk : Disk) (place : Location) (entry : Entry) : Disk :=
  if (disk.find? place).isSome then disk else ⟨disk.entries ++ [(place, entry)]⟩

/-- Adds what a path leads through, up to a name that is missing. -/
partial def addPath (disk : Disk) (place : Location) : List String → IO Disk
  | [] => return disk
  | "." :: rest => addPath disk place rest
  | ".." :: rest => addPath disk place.dropLast rest
  | name :: rest => do
    let here := place ++ [name]
    match ← lookUp here with
    | none => return disk
    | some (.link target) =>
      addPath (record disk here (.link target)) [] ((PathText.ofText target).names [] ++ rest)
    | some entry => addPath (record disk here entry) here rest

partial def addBelow (disk : Disk) (place : Location) : IO Disk := do
  let path := (← IO.currentDir) / pathText place
  let mut disk := disk
  for found in ← (try path.readDir catch _ => pure #[]) do
    let here := place ++ [found.fileName]
    if let some entry ← lookUp here then
      disk := record disk here entry
      if entry == .directory then disk ← addBelow disk here
  return disk

def addTree (disk : Disk) (start : Location) (path : String) : IO Disk := do
  let names := (PathText.ofText path).names start
  let disk ← addPath disk [] names
  match disk.resolve names with
  | .ok place => addBelow disk place
  | .error _ => return disk

def makeAdded (earlier later : Disk) : IO Unit := do
  for (place, entry) in later.entries do
    if (earlier.find? place).isNone then
      let path := (← IO.currentDir) / pathText place
      match entry with
      | .directory => IO.FS.createDir path
      | .file bytes => IO.FS.writeBinFile path (ByteArray.mk bytes.toArray)
      | .link _ => pure ()

def picture (start : Location) (arguments : Arguments) : IO Disk := do
  let mut disk ← addPath .empty [] start
  if let some path := arguments.config then
    disk ← addPath disk [] ((PathText.ofText path).names start)
  match loadConfig disk start arguments.config with
  | .error _ => return disk
  | .ok config =>
    if let some path := (arguments.logging.merge config.logging).logPath? Config.componentName then
      disk ← addPath disk [] ((PathText.ofText path).names start)
    for path in rootsUsed (rootsFor arguments config) config.service arguments.command do
      disk ← addTree disk start path
    return disk

def fileLimit : Nat := 0x100000000000 - 4096

def usage : String := "Usage: fsproxy [OPTIONS] <COMMAND>

Commands:
  ls [--mount <MOUNT>] [PATH]    List a directory
  cat [--mount <MOUNT>] <PATH>   Print a file to stdout
  saves [--space <SPACE>]        List save data, one record per line
  df                             Free and total bytes per storage class
  help [COMMAND]                 Print this message

Options:
  --config <FILE>                TOML config file with service, storage and logging sections
  --root <DIRECTORY>             Use the conventional nand/ and sdmc/ layout below this directory
  --log-level <LEVEL>            error, warn, info, debug or trace
  --log-format <FORMAT>          plaintext or json
  --log-dir <DIRECTORY>          Write fsproxy.log into this directory
  --log-file <FILE>              Write to this file, relative to --log-dir when both are given
  -h, --help                     Print help
  -V, --version                  Print version"

def report : Outcome → IO Unit
  | .stopped .help => IO.println usage
  | .stopped .version => IO.println "fsproxy 0.1.0"
  | .stopped .misused => IO.eprintln usage
  | .failed message => IO.eprintln ("Error: " ++ message)
  | .finished output => do
    let stdout ← IO.getStdout
    stdout.write (ByteArray.mk output.toArray)
    stdout.flush

end GuestStorage.Tool

open GuestStorage Tool in
/-- Runs the tool once and logs nothing; sizes of storage that the machine does not tell are zero. -/
def main (arguments : List String) : IO UInt32 := do
  let start := (Host.PathText.ofText (← IO.currentDir).toString).names []
  let disk ← match Arguments.parse arguments with
    | .error _ => pure Host.Disk.empty
    | .ok read => picture start read
  match run ⟨disk, start, fun _ => (0, 0), fileLimit, fun _ => []⟩ arguments with
  | none => return 1
  | some (outcome, later) =>
    makeAdded disk later
    report outcome
    return UInt32.ofNat outcome.code
