import GuestStorage.Error
import GuestStorage.Tree.View
import GuestStorage.Wire.Ids
import GuestStorage.Wire.Record

namespace GuestStorage.Config

structure ServiceConfig where
  logMode : Wire.LogMode := .logToSdCard
  /-- Reported beside the version of the access log. -/
  accessLogProgramIndex : UInt32 := 0
  /-- The spaces an info reader walks, in order. -/
  infoReaderSpaces : List Wire.SaveDataSpace := [.nandSystem, .nandUser, .temporaryStorage, .sdCardUser]
  deriving DecidableEq

def ServiceConfig.isValid (config : ServiceConfig) : Bool := !config.infoReaderSpaces.isEmpty

def noSpacesMessage : String := "info reader needs at least one save-data space"

end GuestStorage.Config

namespace GuestStorage.Service

open GuestStorage.Tree

structure Controller (σ F D : Type) where
  openSpace : σ → Wire.SaveDataSpace → Except Error (DirectoryView D)
  openSave : σ → Wire.SaveDataSpace → Wire.SaveDescriptor → Except Error (DirectoryView D)
  createSave : σ → Wire.SaveDataSpace → Wire.SaveDescriptor → Except Error (DirectoryView D) × σ
  openSdCard : σ → Except Error (DirectoryView D)
  openPartition : σ → Wire.BisPartition → Except Error (DirectoryView D)
  openPartitionStorage : σ → Wire.BisPartition → Except Error (FileView F)
  imageDirectory? : σ → Wire.ImageDirectory → Option (DirectoryView D)
  contentDirectory? : σ → Wire.ContentStorage → Option (DirectoryView D)
  /-- The data archive of the calling process. -/
  openOwnArchive : σ → Except Error (FileView F)
  openArchive : σ → UInt64 → Wire.StorageClass → Wire.ContentRecordType → Except Error (FileView F)
  freeSpace : Wire.StorageClass → Nat
  totalSpace : Wire.StorageClass → Nat

structure ContentProvider (σ F D : Type) where
  /-- A section of an installed title with its updates applied. -/
  patchedSection? : σ → UInt64 → Wire.FileSystemType → Wire.ContentRecordType → Option (DirectoryView D)
  /-- Applies updates to an archive; without updates the archive stays as it is. -/
  patchArchive : σ → UInt64 → FileView F → Wire.ContentRecordType → FileView F × σ
  /-- A replacement for a system archive that is not installed. -/
  synthesizeArchive? : σ → UInt64 → Option (FileView F)

def ContentProvider.nothing {σ F D : Type} : ContentProvider σ F D where
  patchedSection? _ _ _ _ := none
  patchArchive s _ base _ := (base, s)
  synthesizeArchive? _ _ := none

end GuestStorage.Service
