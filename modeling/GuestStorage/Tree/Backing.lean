import GuestStorage.Bytes

namespace GuestStorage.Tree

/-- States `σ` that hold files named by `F` and directories named by `D`. -/
class Backing (σ : Type) (F D : outParam Type) where
  fileName : σ → F → String
  fileSize : σ → F → Nat
  filePath : σ → F → String
  fileParent? : σ → F → Option D
  fileReadable : σ → F → Bool
  fileWritable : σ → F → Bool
  /-- The bytes from an offset on, at most as many as asked for. -/
  read : σ → F → (offset length : Nat) → Bytes
  /-- Answers how many bytes were taken. -/
  write : σ → F → (offset : Nat) → Bytes → Nat × σ
  resize : σ → F → Nat → Bool × σ
  /-- Answers the file under its new name. -/
  renameFile : σ → F → String → Option F × σ
  directoryName : σ → D → String
  directoryPath : σ → D → String
  parent? : σ → D → Option D
  directoryReadable : σ → D → Bool
  directoryWritable : σ → D → Bool
  files : σ → D → List F
  subdirectories : σ → D → List D
  file? : σ → D → String → Option F
  subdirectory? : σ → D → String → Option D
  createFile : σ → D → String → Option F × σ
  createSubdirectory : σ → D → String → Option D × σ
  deleteFile : σ → D → String → Bool × σ
  /-- Removes a subdirectory that holds nothing. -/
  deleteSubdirectory : σ → D → String → Bool × σ
  /-- Answers the directory under its new name. -/
  renameDirectory : σ → D → String → Option D × σ
  /-- Lets go of directories that are not held and lie in none that is held; what they list belongs
      to no directory from then on. -/
  release : σ → (held : List D) → σ
  /-- More than the number of steps any walk up or down from a directory can take. -/
  reach : σ → D → Nat

inductive Layout where
  | file (name : String) (data : Bytes) (readOnly : Bool)
  | directory (name : String) (children : List Layout) (readOnly : Bool)
  | link (name target : String)
  deriving Inhabited

end GuestStorage.Tree
