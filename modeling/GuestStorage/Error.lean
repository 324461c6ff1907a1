import GuestStorage.Text.Digits
import GuestStorage.Wire.Coded

namespace GuestStorage.Wire

structure ResultCode where
  raw : UInt32
  deriving DecidableEq

namespace ResultCode

def fileSystemModule : UInt32 := 2

def fileSystem (description : UInt32) : ResultCode := ⟨fileSystemModule ||| description <<< 9⟩

def success : ResultCode := ⟨0⟩

def unknown : ResultCode := ⟨0xFFFFFFFF⟩

def pathAlreadyExists : ResultCode := fileSystem 2
def entityNotFound : ResultCode := fileSystem 1002
def sdCardNotFound : ResultCode := fileSystem 2001
def invalidArgument : ResultCode := fileSystem 6001
def invalidOffset : ResultCode := fileSystem 6061
def invalidSize : ResultCode := fileSystem 6062
def permissionDenied : ResultCode := fileSystem 6400

def moduleNumber (code : ResultCode) : Nat := (code.raw &&& 0x1FF).toNat

def description (code : ResultCode) : Nat := ((code.raw >>> 9) &&& 0x1FFF).toNat

def isSuccess (code : ResultCode) : Bool := code == success

def text (code : ResultCode) : String :=
  if code = unknown then "unknown (0xFFFFFFFF)"
  else
    Text.Decimal.padded 4 (2000 + code.moduleNumber) ++ "-" ++ Text.Decimal.padded 4 code.description
      ++ " (0x" ++ String.ofList (Text.Hex.fixed .lower 8 code.raw.toNat) ++ ")"

end ResultCode

end GuestStorage.Wire

namespace GuestStorage

inductive Error where
  | invalidOffset
  | invalidSize
  | invalidArgument
  | entityNotFound
  | pathAlreadyExists
  | permissionDenied
  | sdCardNotFound
  | operationFailed
  | malformed (cause : Wire.DecodeError)
  | io (description : String)
  deriving DecidableEq

namespace Error

def message : Error → String
  | invalidOffset => "invalid offset"
  | invalidSize => "invalid size"
  | invalidArgument => "invalid argument"
  | entityNotFound => "entity not found"
  | pathAlreadyExists => "path already exists"
  | permissionDenied => "permission denied"
  | sdCardNotFound => "sd card not found"
  | operationFailed => "operation failed"
  | malformed cause => "malformed request: " ++ cause.message
  | io description => "io error: " ++ description

def code : Error → Wire.ResultCode
  | invalidOffset => .invalidOffset
  | invalidSize => .invalidSize
  | invalidArgument | malformed _ => .invalidArgument
  | entityNotFound => .entityNotFound
  | pathAlreadyExists => .pathAlreadyExists
  | permissionDenied => .permissionDenied
  | sdCardNotFound => .sdCardNotFound
  | operationFailed | io _ => .unknown

/-- A refusal by a node that could have been changed is a failure, by any other a missing permission. -/
def ofRefusal (writable : Bool) : Error := if writable then operationFailed else permissionDenied

end Error

end GuestStorage
