import GuestStorage.Bytes
import GuestStorage.Tree.Walk
import GuestStorage.Wire.Record

namespace GuestStorage.Session

structure Cursor (α : Type) where
  remaining : List α
  deriving DecidableEq

namespace Cursor

variable {α : Type}

def count (cursor : Cursor α) : Nat := cursor.remaining.length

def advance (cursor : Cursor α) (records : Nat) : Cursor α := ⟨cursor.remaining.drop records⟩

def take (cursor : Cursor α) (most : Nat) : List α × Cursor α :=
  (cursor.remaining.take most, cursor.advance most)

@[simp] theorem count_advance (cursor : Cursor α) (records : Nat) :
    (cursor.advance records).count = cursor.count - records := by
  simp [count, advance]

theorem take_append_remaining (cursor : Cursor α) (most : Nat) :
    (cursor.take most).1 ++ (cursor.take most).2.remaining = cursor.remaining :=
  List.take_append_drop most cursor.remaining

/-- What a buffer holds after encoded records were written to its front. -/
def fill (encode : α → Bytes) (records : List α) (buffer : Bytes) : Bytes :=
  let written := records.flatMap encode
  written ++ buffer.drop written.length

theorem length_flatMap_encode {recordSize : Nat} {encode : α → Bytes}
    (even : ∀ record, (encode record).length = recordSize) (records : List α) :
    (records.flatMap encode).length = records.length * recordSize := by
  induction records with
  | nil => simp
  | cons record rest ih =>
    rw [List.flatMap_cons, List.length_append, even, ih, List.length_cons, Nat.succ_mul]
    omega

/-- Writes as many whole records as a buffer has room for and counts them. -/
def pack (cursor : Cursor α) (recordSize : Nat) (encode : α → Bytes) (buffer : Bytes) :
    Nat × Bytes × Cursor α :=
  let records := cursor.remaining.take (buffer.length / recordSize)
  (records.length, fill encode records buffer, cursor.advance records.length)

end Cursor

abbrev Listing := Cursor Wire.DirectoryEntry

namespace Listing

variable {σ F D : Type} [Tree.Backing σ F D]

def directoryFlag : Nat := 1
def fileFlag : Nat := 2

/-- Whether a filter selects a kind of entry; a filter that selects neither kind selects both. -/
def selects (filter : UInt32) (flag : Nat) : Bool :=
  let wanted := filter.toNat % 4
  wanted == 0 || wanted &&& flag != 0

theorem selects_iff (filter flag : UInt32) (bit : flag.toNat &&& 3 = flag.toNat) :
    selects filter flag.toNat = true ↔ filter &&& 3 = 0 ∨ filter &&& flag ≠ 0 := by
  have low : filter.toNat % 4 = filter.toNat &&& 3 := (Nat.and_two_pow_sub_one_eq_mod filter.toNat 2).symm
  have one : filter.toNat &&& 3 &&& flag.toNat = filter.toNat &&& flag.toNat := by
    rw [Nat.and_assoc, Nat.and_comm 3, bit]
  have zero : filter &&& 3 = 0 ↔ filter.toNat &&& 3 = 0 := by
    rw [← UInt32.toNat_inj, UInt32.toNat_and]
    rfl
  have unset : filter &&& flag = 0 ↔ filter.toNat &&& flag.toNat = 0 := by
    rw [← UInt32.toNat_inj, UInt32.toNat_and]
    rfl
  rw [selects, Bool.or_eq_true, beq_iff_eq, bne_iff_ne, low, one, zero, Ne, Ne, unset]

def fileEntries (s : σ) (dir : Tree.DirectoryView D) : List Wire.DirectoryEntry :=
  (dir.files s).map fun file => ⟨file.name s, .file, UInt64.ofNat (file.size s)⟩

def directoryEntries (s : σ) (dir : Tree.DirectoryView D) : List Wire.DirectoryEntry :=
  (dir.subdirectories s).map fun sub => ⟨sub.name s, .directory, UInt64.ofNat (sub.size s)⟩

/-- Files first, then subdirectories, each in the order of the directory. -/
def ofDirectory (s : σ) (dir : Tree.DirectoryView D) (filter : UInt32) : Listing :=
  ⟨(if selects filter fileFlag then fileEntries s dir else [])
    ++ (if selects filter directoryFlag then directoryEntries s dir else [])⟩

theorem remaining_ofDirectory (s : σ) (dir : Tree.DirectoryView D) (filter : UInt32) :
    (ofDirectory s dir filter).remaining =
      (if filter &&& 3 = 0 ∨ filter &&& 2 ≠ 0 then fileEntries s dir else []) ++
        if filter &&& 3 = 0 ∨ filter &&& 1 ≠ 0 then directoryEntries s dir else [] := by
  have files := selects_iff filter 2 rfl
  have directories := selects_iff filter 1 rfl
  simp only [ofDirectory, fileFlag, directoryFlag]
  congr 1
  · simp only [← files]
    rfl
  · simp only [← directories]
    rfl

def read (listing : Listing) (buffer : Bytes) : Nat × Bytes × Listing :=
  listing.pack Wire.DirectoryEntry.recordSize Wire.DirectoryEntry.encode buffer

end Listing

abbrev SaveInfoReader := Cursor Wire.SaveInfo

namespace SaveInfoReader

def read (reader : SaveInfoReader) (buffer : Bytes) : UInt32 × Bytes × SaveInfoReader :=
  let (count, filled, rest) := reader.pack Wire.SaveInfo.recordSize Wire.SaveInfo.encode buffer
  (UInt32.ofNat count, filled, rest)

end SaveInfoReader

end GuestStorage.Session
