import GuestStorage.Host.PathText
import GuestStorage.Save.Enumeration
import GuestStorage.Service.Controller
import GuestStorage.Tree.Walk

namespace GuestStorage.Service

open GuestStorage.Tree

/-- The directories behind each mount point; a mount without one is missing. -/
structure Roots where
  nandSystem : Option String := none
  nandUser : Option String := none
  temporary : Option String := none
  sdSystem : Option String := none
  sdUser : Option String := none
  sdmc : Option String := none
  bisSystem : Option String := none
  bisUser : Option String := none
  deriving DecidableEq

namespace Roots

def under (base : String) : Roots where
  nandSystem := Host.PathText.below base "nand/system"
  nandUser := Host.PathText.below base "nand/user"
  temporary := Host.PathText.below base "nand/temp"
  sdSystem := Host.PathText.below base "sdmc/Nintendo/save/system"
  sdUser := Host.PathText.below base "sdmc/Nintendo/save/user"
  sdmc := Host.PathText.below base "sdmc"
  bisSystem := Host.PathText.below base "nand/system"
  bisUser := Host.PathText.below base "nand/user"

def space? (roots : Roots) : Wire.SaveDataSpace → Option String
  | .nandSystem | .properSystem => roots.nandSystem
  | .nandUser => roots.nandUser
  | .temporaryStorage => roots.temporary
  | .sdCardSystem => roots.sdSystem
  | .sdCardUser => roots.sdUser
  | .safeMode => none

def partition? (roots : Roots) : Wire.BisPartition → Option String
  | .system => roots.bisSystem
  | .user => roots.bisUser
  | _ => none

def storage? (roots : Roots) : Wire.StorageClass → Option String
  | .nandSystem => roots.nandSystem
  | .nandUser => roots.nandUser
  | .sdCard => roots.sdmc
  | .unclassified | .host | .gameCard => none

variable {σ F D : Type} [Backing σ F D]

abbrev Opener (σ D : Type) := σ → String → Except Error D

def openRoot (opener : Opener σ D) (s : σ) (root : Option String) : Except Error (DirectoryView D) :=
  match root with
  | none => .error .entityNotFound
  | some path => (opener s path).map .direct

def openBelow? (opener : Opener σ D) (s : σ) (root : Option String) (path : String) :
    Option (DirectoryView D) :=
  match openRoot opener s root with
  | .error _ => none
  | .ok dir => dir.directoryAt? s path

abbrev SpaceMeter := String → Nat × Nat

def controller (opener : Opener σ D) (meter : SpaceMeter) (roots : Roots) : Controller σ F D where
  openSpace s space := openRoot opener s (roots.space? space)
  openSave s space descriptor :=
    match openRoot opener s (roots.space? space) with
    | .error e => .error e
    | .ok dir =>
      match dir.directoryAt? s (Save.path descriptor) with
      | none => .error .entityNotFound
      | some save => .ok save
  createSave s space descriptor :=
    match openRoot opener s (roots.space? space) with
    | .error e => (.error e, s)
    | .ok dir =>
      if (dir.directoryAt? s (Save.path descriptor)).isSome then (.error .pathAlreadyExists, s)
      else
        match dir.createDirectoryAt s (Save.path descriptor) with
        | (none, s) => (.error .permissionDenied, s)
        | (some save, s) => (.ok save, s)
  openSdCard s := (openRoot opener s roots.sdmc).mapError fun _ => .sdCardNotFound
  openPartition s partition := openRoot opener s (roots.partition? partition)
  openPartitionStorage _ _ := .error .entityNotFound
  imageDirectory? s
    | .nand => openBelow? opener s roots.nandUser "Album"
    | .sdCard => openBelow? opener s roots.sdmc "Nintendo/Album"
  contentDirectory? s
    | .system => openBelow? opener s roots.nandSystem "Contents/registered"
    | .user => openBelow? opener s roots.nandUser "Contents/registered"
    | .sdCard => openBelow? opener s roots.sdmc "Nintendo/Contents/registered"
  openOwnArchive _ := .error .entityNotFound
  openArchive _ _ _ _ := .error .entityNotFound
  freeSpace storage := ((roots.storage? storage).map fun path => (meter path).1).getD 0
  totalSpace storage := ((roots.storage? storage).map fun path => (meter path).2).getD 0

end Roots

end GuestStorage.Service
