import GuestStorage.Text.Utf8
import GuestStorage.Wire.Ids

namespace GuestStorage.Wire

structure UserId where
  bytes : Vector UInt8 16
  deriving DecidableEq

namespace UserId

def zero : UserId := ⟨Vector.replicate 16 0⟩

/-- The first sixteen bytes of a byte string, with zeros where it is shorter. -/
def ofBytes (bytes : Bytes) : UserId := ⟨Vector.ofFn fun i => bytes.getD i.val 0⟩

def toBytes (user : UserId) : Bytes := user.bytes.toList

def isZero (user : UserId) : Bool := user.toBytes.all (· == 0)

/-- Two little-endian words, the high word printed first. -/
def hex (user : UserId) : String :=
  let word (start : Nat) := Text.Hex.fixed .upper 16 (Bytes.toNat (user.toBytes.slice start 8))
  String.ofList (word 8 ++ word 0)

end UserId

def requireLength (kind : String) (expected : Nat) (bytes : Bytes) : Except DecodeError Unit :=
  if bytes.length < expected then .error (.truncated kind expected bytes.length) else .ok ()

def byteAt (bytes : Bytes) (offset : Nat) : Nat := (bytes.getD offset 0).toNat

def wordAt (bytes : Bytes) (offset : Nat) : UInt64 :=
  UInt64.ofNat (Bytes.toNat (bytes.slice offset 8))

def halfAt (bytes : Bytes) (offset : Nat) : UInt16 :=
  UInt16.ofNat (Bytes.toNat (bytes.slice offset 2))

def userAt (bytes : Bytes) (offset : Nat) : UserId := UserId.ofBytes (bytes.slice offset 16)

structure DirectoryEntry where
  name : String
  kind : EntryType
  size : UInt64
  deriving DecidableEq

namespace DirectoryEntry

def recordSize : Nat := 0x310
def nameField : Nat := 0x301

/-- A name is cut where the field would have no room for its terminator. -/
def encode (entry : DirectoryEntry) : Bytes :=
  Bytes.resize ((Text.Utf8.encode entry.name).take (nameField - 1)) nameField ++ Bytes.zeros 3
    ++ [UInt8.ofNat entry.kind.raw] ++ Bytes.zeros 3 ++ Bytes.ofNat 8 entry.size.toNat

def decode (bytes : Bytes) : Except DecodeError DirectoryEntry := do
  requireLength "DirectoryEntry" recordSize bytes
  let kind ← ofRaw (byteAt bytes 0x304)
  return {
    name := Text.Utf8.decodeTerminated (bytes.take nameField)
    kind
    size := wordAt bytes 0x308 }

end DirectoryEntry

structure SaveInfo where
  saveIdUnknown : UInt64
  space : SaveDataSpace
  kind : SaveDataType
  userId : UserId
  saveId : UInt64
  titleId : UInt64
  imageSize : UInt64
  index : UInt16
  rank : SaveDataRank
  deriving DecidableEq

namespace SaveInfo

def recordSize : Nat := 0x60

def encode (info : SaveInfo) : Bytes :=
  Bytes.ofNat 8 info.saveIdUnknown.toNat
    ++ [UInt8.ofNat info.space.raw, UInt8.ofNat info.kind.raw] ++ Bytes.zeros 6
    ++ info.userId.toBytes
    ++ Bytes.ofNat 8 info.saveId.toNat ++ Bytes.ofNat 8 info.titleId.toNat
    ++ Bytes.ofNat 8 info.imageSize.toNat ++ Bytes.ofNat 2 info.index.toNat
    ++ [UInt8.ofNat info.rank.raw] ++ Bytes.zeros 37

def decode (bytes : Bytes) : Except DecodeError SaveInfo := do
  requireLength "SaveDataInfo" recordSize bytes
  let space ← ofRaw (byteAt bytes 0x08)
  let kind ← ofRaw (byteAt bytes 0x09)
  let rank ← ofRaw (byteAt bytes 0x3A)
  return {
    saveIdUnknown := wordAt bytes 0x00
    space, kind
    userId := userAt bytes 0x10
    saveId := wordAt bytes 0x20
    titleId := wordAt bytes 0x28
    imageSize := wordAt bytes 0x30
    index := halfAt bytes 0x38
    rank }

end SaveInfo

/-- Names a save in requests that create or open it. -/
structure SaveDescriptor where
  titleId : UInt64
  userId : UserId
  saveId : UInt64
  kind : SaveDataType
  rank : SaveDataRank
  index : UInt16
  deriving DecidableEq

namespace SaveDescriptor

def recordSize : Nat := 0x40

def encode (descriptor : SaveDescriptor) : Bytes :=
  Bytes.ofNat 8 descriptor.titleId.toNat ++ descriptor.userId.toBytes
    ++ Bytes.ofNat 8 descriptor.saveId.toNat
    ++ [UInt8.ofNat descriptor.kind.raw, UInt8.ofNat descriptor.rank.raw]
    ++ Bytes.ofNat 2 descriptor.index.toNat ++ Bytes.zeros 28

def decode (bytes : Bytes) : Except DecodeError SaveDescriptor := do
  requireLength "SaveDataDescriptor" recordSize bytes
  let kind ← ofRaw (byteAt bytes 0x20)
  let rank ← ofRaw (byteAt bytes 0x21)
  return {
    titleId := wordAt bytes 0x00
    userId := userAt bytes 0x08
    saveId := wordAt bytes 0x18
    kind, rank
    index := halfAt bytes 0x22 }

def hexId (id : UInt64) : String := String.ofList (Text.Hex.fixed .upper 16 id.toNat)

def text (descriptor : SaveDescriptor) : String :=
  "[title_id=" ++ hexId descriptor.titleId ++ ", user_id=" ++ descriptor.userId.hex
    ++ ", save_id=" ++ hexId descriptor.saveId ++ ", type=" ++ descriptor.kind.name
    ++ ", rank=" ++ descriptor.rank.name ++ ", index=" ++ toString descriptor.index.toNat ++ "]"

end SaveDescriptor

end GuestStorage.Wire
