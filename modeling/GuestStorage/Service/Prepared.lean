import GuestStorage.Save.Enumeration
import GuestStorage.Service.Controller
import GuestStorage.Tree.Walk

namespace GuestStorage.Service

open GuestStorage.Tree

/-- An installed archive and what it is asked for by. -/
structure Archive (F : Type) where
  title : UInt64
  storage : Nat
  record : Nat
  file : FileView F

structure Section (D : Type) where
  title : UInt64
  kind : Nat
  record : Nat
  root : DirectoryView D

structure Patch where
  title : UInt64
  record : Nat
  data : Bytes

structure Prepared (σ F D : Type) where
  spaces : List (Nat × Except Error (DirectoryView D)) := []
  sdCard : Except Error (DirectoryView D) := .error .entityNotFound
  partitions : List (Nat × Except Error (DirectoryView D)) := []
  partitionStorages : List (Nat × FileView F) := []
  images : List (Nat × Except Error (DirectoryView D)) := []
  contents : List (Nat × Except Error (DirectoryView D)) := []
  ownArchive : Option (FileView F) := none
  archives : List (Archive F) := []
  sections : List (Section D) := []
  patches : List Patch := []
  replacements : List (UInt64 × FileView F) := []
  free : List (Nat × Nat) := []
  total : List (Nat × Nat) := []
  /-- Adds a file with given bytes to the storage. -/
  addFile : σ → Bytes → FileView F × σ

namespace Prepared

variable {σ F D : Type} [Backing σ F D]

def first? {α : Type} (entries : List (Nat × α)) (raw : Nat) : Option α :=
  (entries.find? (·.1 == raw)).map (·.2)

def mount (entries : List (Nat × Except Error (DirectoryView D))) (raw : Nat) :
    Except Error (DirectoryView D) :=
  (first? entries raw).getD (.error .entityNotFound)

def mount? (entries : List (Nat × Except Error (DirectoryView D))) (raw : Nat) :
    Option (DirectoryView D) :=
  match mount entries raw with
  | .ok dir => some dir
  | .error _ => none

def orMissing {α : Type} : Option α → Except Error α
  | some value => .ok value
  | none => .error .entityNotFound

def controller (prepared : Prepared σ F D) : Controller σ F D where
  openSpace _ space := mount prepared.spaces space.raw
  openSave s space descriptor :=
    match mount prepared.spaces space.raw with
    | .error e => .error e
    | .ok root => orMissing (root.directoryAt? s (Save.path descriptor))
  createSave s space descriptor :=
    match mount prepared.spaces space.raw with
    | .error e => (.error e, s)
    | .ok root =>
      match root.createDirectoryAt s (Save.path descriptor) with
      | (none, s) => (.error .permissionDenied, s)
      | (some save, s) => (.ok save, s)
  openSdCard _ := prepared.sdCard
  openPartition _ partition := mount prepared.partitions partition.raw
  openPartitionStorage _ partition := orMissing (first? prepared.partitionStorages partition.raw)
  imageDirectory? _ id := mount? prepared.images id.raw
  contentDirectory? _ id := mount? prepared.contents id.raw
  openOwnArchive _ := orMissing prepared.ownArchive
  openArchive _ title storage record :=
    orMissing ((prepared.archives.find? fun archive =>
      archive.title == title && archive.storage == storage.raw && archive.record == record.raw).map
        (·.file))
  freeSpace storage := (first? prepared.free storage.raw).getD 0
  totalSpace storage := (first? prepared.total storage.raw).getD 0

def content (prepared : Prepared σ F D) : ContentProvider σ F D where
  patchedSection? _ title kind record :=
    (prepared.sections.find? fun part =>
      part.title == title && part.kind == kind.raw && part.record == record.raw).map (·.root)
  patchArchive s title base record :=
    match prepared.patches.find? fun patch => patch.title == title && patch.record == record.raw with
    | none => (base, s)
    | some patch => prepared.addFile s (base.readAll s ++ patch.data)
  synthesizeArchive? _ title := (prepared.replacements.find? (·.1 == title)).map (·.2)

end Prepared

end GuestStorage.Service
