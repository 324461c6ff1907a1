import GuestStorage.Wire.Coded

namespace GuestStorage.Wire

inductive SaveDataSpace where
  | nandSystem
  | nandUser
  | sdCardSystem
  | temporaryStorage
  | sdCardUser
  | properSystem
  | safeMode
  deriving DecidableEq

namespace SaveDataSpace

def raw : SaveDataSpace → Nat
  | .nandSystem => 0
  | .nandUser => 1
  | .sdCardSystem => 2
  | .temporaryStorage => 3
  | .sdCardUser => 4
  | .properSystem => 100
  | .safeMode => 101

def name : SaveDataSpace → String
  | .nandSystem => "NandSystem"
  | .nandUser => "NandUser"
  | .sdCardSystem => "SdCardSystem"
  | .temporaryStorage => "TemporaryStorage"
  | .sdCardUser => "SdCardUser"
  | .properSystem => "ProperSystem"
  | .safeMode => "SafeMode"

instance : Coded SaveDataSpace where
  kind := "SaveDataSpaceId"
  values := [.nandSystem, .nandUser, .sdCardSystem, .temporaryStorage, .sdCardUser,
    .properSystem, .safeMode]
  raw := raw
  name := name

end SaveDataSpace

/-- Physical storage whose free and total sizes are reported. -/
inductive StorageClass where
  | unclassified
  | host
  | gameCard
  | nandSystem
  | nandUser
  | sdCard
  deriving DecidableEq

namespace StorageClass

def raw : StorageClass → Nat
  | .unclassified => 0
  | .host => 1
  | .gameCard => 2
  | .nandSystem => 3
  | .nandUser => 4
  | .sdCard => 5

def name : StorageClass → String
  | .unclassified => "None"
  | .host => "Host"
  | .gameCard => "GameCard"
  | .nandSystem => "NandSystem"
  | .nandUser => "NandUser"
  | .sdCard => "SdCard"

instance : Coded StorageClass where
  kind := "StorageId"
  values := [.unclassified, .host, .gameCard, .nandSystem, .nandUser, .sdCard]
  raw := raw
  name := name

end StorageClass

inductive SaveDataType where
  | systemSaveData
  | saveData
  | bcatDeliveryCacheStorage
  | deviceSaveData
  | temporaryStorage
  | cacheStorage
  deriving DecidableEq

namespace SaveDataType

def raw : SaveDataType → Nat
  | .systemSaveData => 0
  | .saveData => 1
  | .bcatDeliveryCacheStorage => 2
  | .deviceSaveData => 3
  | .temporaryStorage => 4
  | .cacheStorage => 5

def name : SaveDataType → String
  | .systemSaveData => "SystemSaveData"
  | .saveData => "SaveData"
  | .bcatDeliveryCacheStorage => "BcatDeliveryCacheStorage"
  | .deviceSaveData => "DeviceSaveData"
  | .temporaryStorage => "TemporaryStorage"
  | .cacheStorage => "CacheStorage"

instance : Coded SaveDataType where
  kind := "SaveDataType"
  values := [.systemSaveData, .saveData, .bcatDeliveryCacheStorage, .deviceSaveData,
    .temporaryStorage, .cacheStorage]
  raw := raw
  name := name

end SaveDataType

inductive SaveDataRank where
  | primary
  | secondary
  deriving DecidableEq

namespace SaveDataRank

def raw : SaveDataRank → Nat
  | .primary => 0
  | .secondary => 1

def name : SaveDataRank → String
  | .primary => "Primary"
  | .secondary => "Secondary"

instance : Coded SaveDataRank where
  kind := "SaveDataRank"
  values := [.primary, .secondary]
  raw := raw
  name := name

end SaveDataRank

inductive OpenMode where
  | read
  | write
  | readWrite
  | append
  | writeAppend
  deriving DecidableEq

namespace OpenMode

def raw : OpenMode → Nat
  | .read => 1
  | .write => 2
  | .readWrite => 3
  | .append => 4
  | .writeAppend => 6

def name : OpenMode → String
  | .read => "Read"
  | .write => "Write"
  | .readWrite => "ReadWrite"
  | .append => "Append"
  | .writeAppend => "WriteAppend"

instance : Coded OpenMode where
  kind := "OpenMode"
  values := [.read, .write, .readWrite, .append, .writeAppend]
  raw := raw
  name := name

def needsRead (mode : OpenMode) : Bool := mode.raw % 2 == 1

def needsWrite (mode : OpenMode) : Bool := mode.raw / 2 != 0

end OpenMode

inductive EntryType where
  | directory
  | file
  deriving DecidableEq

namespace EntryType

def raw : EntryType → Nat
  | .directory => 0
  | .file => 1

def name : EntryType → String
  | .directory => "Directory"
  | .file => "File"

instance : Coded EntryType where
  kind := "EntryType"
  values := [.directory, .file]
  raw := raw
  name := name

end EntryType

inductive FileSystemType where
  | logo
  | contentControl
  | contentManual
  | contentMeta
  | contentData
  | applicationPackage
  deriving DecidableEq

namespace FileSystemType

def raw : FileSystemType → Nat
  | .logo => 2
  | .contentControl => 3
  | .contentManual => 4
  | .contentMeta => 5
  | .contentData => 6
  | .applicationPackage => 7

def name : FileSystemType → String
  | .logo => "Logo"
  | .contentControl => "ContentControl"
  | .contentManual => "ContentManual"
  | .contentMeta => "ContentMeta"
  | .contentData => "ContentData"
  | .applicationPackage => "ApplicationPackage"

instance : Coded FileSystemType where
  kind := "FileSystemType"
  values := [.logo, .contentControl, .contentManual, .contentMeta, .contentData,
    .applicationPackage]
  raw := raw
  name := name

end FileSystemType

inductive ContentRecordType where
  | metadata
  | program
  | data
  | control
  | htmlDocument
  | legalInformation
  | deltaFragment
  deriving DecidableEq

namespace ContentRecordType

def raw : ContentRecordType → Nat
  | .metadata => 0
  | .program => 1
  | .data => 2
  | .control => 3
  | .htmlDocument => 4
  | .legalInformation => 5
  | .deltaFragment => 6

def name : ContentRecordType → String
  | .metadata => "Meta"
  | .program => "Program"
  | .data => "Data"
  | .control => "Control"
  | .htmlDocument => "HtmlDocument"
  | .legalInformation => "LegalInformation"
  | .deltaFragment => "DeltaFragment"

instance : Coded ContentRecordType where
  kind := "ContentRecordType"
  values := [.metadata, .program, .data, .control, .htmlDocument, .legalInformation, .deltaFragment]
  raw := raw
  name := name

end ContentRecordType

inductive ImageDirectory where
  | nand
  | sdCard
  deriving DecidableEq

namespace ImageDirectory

def raw : ImageDirectory → Nat
  | .nand => 0
  | .sdCard => 1

def name : ImageDirectory → String
  | .nand => "Nand"
  | .sdCard => "SdCard"

instance : Coded ImageDirectory where
  kind := "ImageDirectoryId"
  values := [.nand, .sdCard]
  raw := raw
  name := name

end ImageDirectory

inductive ContentStorage where
  | system
  | user
  | sdCard
  deriving DecidableEq

namespace ContentStorage

def raw : ContentStorage → Nat
  | .system => 0
  | .user => 1
  | .sdCard => 2

def name : ContentStorage → String
  | .system => "System"
  | .user => "User"
  | .sdCard => "SdCard"

instance : Coded ContentStorage where
  kind := "ContentStorageId"
  values := [.system, .user, .sdCard]
  raw := raw
  name := name

end ContentStorage

/-- What becomes of access-log lines; the last mode is both of the two before it. -/
inductive LogMode where
  | off
  | log
  | redirectToSdCard
  | logToSdCard
  deriving DecidableEq

namespace LogMode

def raw : LogMode → Nat
  | .off => 0
  | .log => 1
  | .redirectToSdCard => 2
  | .logToSdCard => 3

def name : LogMode → String
  | .off => "Off"
  | .log => "Log"
  | .redirectToSdCard => "RedirectToSdCard"
  | .logToSdCard => "LogToSdCard"

instance : Coded LogMode where
  kind := "LogMode"
  values := [.off, .log, .redirectToSdCard, .logToSdCard]
  raw := raw
  name := name

end LogMode

inductive AccessLogVersion where
  | v7
  deriving DecidableEq

namespace AccessLogVersion

def raw : AccessLogVersion → Nat
  | .v7 => 2

def name : AccessLogVersion → String
  | .v7 => "V7_0_0"

instance : Coded AccessLogVersion where
  kind := "AccessLogVersion"
  values := [.v7]
  raw := raw
  name := name

end AccessLogVersion

inductive BisPartition where
  | bootPartition1Root
  | bootPartition2Root
  | userDataRoot
  | bootConfigAndPackage2Part1
  | bootConfigAndPackage2Part2
  | bootConfigAndPackage2Part3
  | bootConfigAndPackage2Part4
  | bootConfigAndPackage2Part5
  | bootConfigAndPackage2Part6
  | calibrationBinary
  | calibrationFile
  | safeMode
  | user
  | system
  | systemProperEncryption
  | systemProperPartition
  deriving DecidableEq

namespace BisPartition

def raw : BisPartition → Nat
  | .bootPartition1Root => 0
  | .bootPartition2Root => 10
  | .userDataRoot => 20
  | .bootConfigAndPackage2Part1 => 21
  | .bootConfigAndPackage2Part2 => 22
  | .bootConfigAndPackage2Part3 => 23
  | .bootConfigAndPackage2Part4 => 24
  | .bootConfigAndPackage2Part5 => 25
  | .bootConfigAndPackage2Part6 => 26
  | .calibrationBinary => 27
  | .calibrationFile => 28
  | .safeMode => 29
  | .user => 30
  | .system => 31
  | .systemProperEncryption => 32
  | .systemProperPartition => 33

def name : BisPartition → String
  | .bootPartition1Root => "BootPartition1Root"
  | .bootPartition2Root => "BootPartition2Root"
  | .userDataRoot => "UserDataRoot"
  | .bootConfigAndPackage2Part1 => "BootConfigAndPackage2Part1"
  | .bootConfigAndPackage2Part2 => "BootConfigAndPackage2Part2"
  | .bootConfigAndPackage2Part3 => "BootConfigAndPackage2Part3"
  | .bootConfigAndPackage2Part4 => "BootConfigAndPackage2Part4"
  | .bootConfigAndPackage2Part5 => "BootConfigAndPackage2Part5"
  | .bootConfigAndPackage2Part6 => "BootConfigAndPackage2Part6"
  | .calibrationBinary => "CalibrationBinary"
  | .calibrationFile => "CalibrationFile"
  | .safeMode => "SafeMode"
  | .user => "User"
  | .system => "System"
  | .systemProperEncryption => "SystemProperEncryption"
  | .systemProperPartition => "SystemProperPartition"

instance : Coded BisPartition where
  kind := "BisPartitionId"
  values := [.bootPartition1Root, .bootPartition2Root, .userDataRoot,
    .bootConfigAndPackage2Part1, .bootConfigAndPackage2Part2, .bootConfigAndPackage2Part3,
    .bootConfigAndPackage2Part4, .bootConfigAndPackage2Part5, .bootConfigAndPackage2Part6,
    .calibrationBinary, .calibrationFile, .safeMode, .user, .system, .systemProperEncryption,
    .systemProperPartition]
  raw := raw
  name := name

end BisPartition

def FileSystemType.contentRecord : FileSystemType → ContentRecordType
  | .logo | .applicationPackage => .program
  | .contentControl => .control
  | .contentManual => .htmlDocument
  | .contentMeta => .metadata
  | .contentData => .data

def SaveDataSpace.storageClass : SaveDataSpace → StorageClass
  | .nandSystem | .properSystem | .temporaryStorage => .nandSystem
  | .nandUser => .nandUser
  | .sdCardSystem | .sdCardUser => .sdCard
  | .safeMode => .unclassified

def AccessLogVersion.latest : AccessLogVersion := .v7

end GuestStorage.Wire
