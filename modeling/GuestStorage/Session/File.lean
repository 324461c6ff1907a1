import GuestStorage.Error
import GuestStorage.Tree.View
import GuestStorage.Wire.Ids

namespace GuestStorage.Session

structure Extent where
  offset : Nat
  length : Nat
  deriving DecidableEq

/-- A negative length is reported before a negative offset. -/
def Extent.check (offset length : Int64) : Except Error Extent :=
  if length < 0 then .error .invalidSize
  else if offset < 0 then .error .invalidOffset
  else .ok ⟨offset.toInt.toNat, length.toInt.toNat⟩

theorem Extent.check_eq_ok_iff {offset length : Int64} {extent : Extent} :
    Extent.check offset length = .ok extent ↔
      0 ≤ length ∧ 0 ≤ offset ∧ extent = ⟨offset.toInt.toNat, length.toInt.toNat⟩ := by
  unfold Extent.check
  split
  · rename_i negative
    simp [Int64.not_le.mpr negative]
  · rename_i fits
    split
    · rename_i negative
      simp [Int64.not_le.mpr negative]
    · rename_i starts
      simp [Int64.not_lt.mp fits, Int64.not_lt.mp starts, eq_comm]

structure OpenFile (F : Type) where
  file : Tree.FileView F
  mode : Wire.OpenMode
  deriving DecidableEq

/-- What a guest and a node can disagree about when bytes are written. -/
inductive WriteViolation where
  | bufferTooLong (buffer declared : Nat)
  | shortWrite (written declared : Nat)
  deriving DecidableEq

def WriteViolation.message : WriteViolation → String
  | .bufferTooLong buffer declared =>
    "write buffer of " ++ toString buffer ++ " bytes exceeds declared length " ++ toString declared
  | .shortWrite written declared =>
    "backend wrote " ++ toString written ++ " of " ++ toString declared ++ " bytes"

/-- A write is refused with an error, or broken off because its terms were violated. -/
inductive WriteFailure where
  | refused (error : Error)
  | violated (violation : WriteViolation)
  deriving DecidableEq

namespace OpenFile

variable {σ F D : Type} [Tree.Backing σ F D]

def paddingChunk : Nat := 0x1000

def mayWrite (s : σ) (opened : OpenFile F) : Bool :=
  opened.mode.needsWrite && opened.file.isWritable s

def read (s : σ) (opened : OpenFile F) (offset length : Int64) (capacity : Nat) : Except Error Bytes :=
  (Extent.check offset length).map fun extent =>
    opened.file.read s extent.offset (min extent.length capacity)

/-- Writes zeros behind what was written so far, until the length is reached or a write falls short. -/
def pad (file : Tree.FileView F) (extent : Extent) : Nat → σ → Nat → Nat × σ
  | 0, s, written => (written, s)
  | rounds + 1, s, written =>
    if written < extent.length then
      let chunk := min (extent.length - written) paddingChunk
      let (count, s) := file.write s (extent.offset + written) (Bytes.zeros chunk)
      if count < chunk then (written + count, s) else pad file extent rounds s (written + count)
    else (written, s)

def writePadded (s : σ) (file : Tree.FileView F) (extent : Extent) (data : Bytes) : Nat × σ :=
  let (written, s) := file.write s extent.offset data
  if written == data.length then pad file extent extent.length s written else (written, s)

/-- Writes data padded with zeros to the declared length. -/
def write (s : σ) (opened : OpenFile F) (offset length : Int64) (data : Bytes) :
    Except WriteFailure Unit × σ :=
  match Extent.check offset length with
  | .error e => (.error (.refused e), s)
  | .ok extent =>
    if !opened.mayWrite s then (.error (.refused .permissionDenied), s)
    else if extent.length < data.length then
      (.error (.violated (.bufferTooLong data.length extent.length)), s)
    else
      let (written, s) := writePadded s opened.file extent data
      if written == extent.length then (.ok (), s)
      else (.error (.violated (.shortWrite written extent.length)), s)

def setSize (s : σ) (opened : OpenFile F) (size : Nat) : Except Error Unit × σ :=
  if !opened.mayWrite s then (.error .permissionDenied, s)
  else
    match opened.file.resize s size with
    | (true, s) => (.ok (), s)
    | (false, s) => (.error .operationFailed, s)

def size (s : σ) (opened : OpenFile F) : Nat := opened.file.size s

end OpenFile

structure Storage (F : Type) where
  file : Tree.FileView F
  deriving DecidableEq

namespace Storage

variable {σ F D : Type} [Tree.Backing σ F D]

def read (s : σ) (storage : Storage F) (offset length : Int64) (capacity : Nat) : Except Error Bytes :=
  (Extent.check offset length).map fun extent =>
    storage.file.read s extent.offset (min extent.length capacity)

def size (s : σ) (storage : Storage F) : Nat := storage.file.size s

end Storage

end GuestStorage.Session
