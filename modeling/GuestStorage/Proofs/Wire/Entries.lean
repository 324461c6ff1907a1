import Mathlib.Data.List.TakeWhile
import GuestStorage.Proofs.Text.Utf8
import GuestStorage.Proofs.Wire.Records

namespace GuestStorage.Wire

theorem EntryType.fitsByte : FitsByte EntryType :=
  ⟨fun kind => by cases kind <;> rfl, fun kind => by cases kind <;> decide⟩

namespace DirectoryEntry

open Text

def nameRoom : Nat := nameField - 1

/-- A name that comes back is cut between characters, at its first zero character or where its room ends. -/
structure KeepsName (name shown : String) : Prop where
  isPrefix : shown.toList <+: name.toList
  fits : shown.utf8ByteSize ≤ nameRoom
  whole : '\x00' ∉ name.toList → name.utf8ByteSize ≤ nameRoom → shown = name
  terminated : ∀ before behind, name.toList = before ++ '\x00' :: behind → '\x00' ∉ before →
    (String.ofList before).utf8ByteSize ≤ nameRoom → shown = String.ofList before
  longest : ∀ c, c ≠ '\x00' → shown.toList ++ [c] <+: name.toList → nameRoom < shown.utf8ByteSize + c.utf8Size

/-- Whether a character of a name starts inside its room and ends outside. -/
structure Straddles (name : String) (before : List Char) (c : Char) : Prop where
  isPrefix : before ++ [c] <+: name.toList
  unterminated : '\x00' ∉ before
  begun : (String.ofList before).utf8ByteSize < nameRoom
  lacks : nameRoom < (String.ofList before).utf8ByteSize + c.utf8Size

def visible (name : String) : List Char := name.toList.takeWhile (· != '\x00')

section Bytes

variable (entry : DirectoryEntry)

theorem takeWhile_append_zeros (bytes : Bytes) {count : Nat} (room : 0 < count) :
    (bytes ++ Bytes.zeros count).takeWhile (· != 0) = bytes.takeWhile (· != 0) := by
  obtain ⟨less, rfl⟩ : ∃ less, count = less + 1 := ⟨count - 1, by omega⟩
  induction bytes with
  | nil => rfl
  | cons b bytes ih =>
    rw [List.cons_append, List.takeWhile_cons, List.takeWhile_cons, ih]

theorem takeWhile_take {α : Type} (keep : α → Bool) (count : Nat) (list : List α) :
    (list.take count).takeWhile keep = (list.takeWhile keep).take count := by
  induction list generalizing count with
  | nil => simp
  | cons a list ih =>
    cases count with
    | zero => rfl
    | succ count =>
      rw [List.take_succ_cons, List.takeWhile_cons, List.takeWhile_cons, ih]
      split <;> rfl

theorem length_encode : (encode entry).length = recordSize := by
  simp [encode, nameField, recordSize]

theorem decodeTerminated_encode : Utf8.decodeTerminated ((encode entry).take nameField) =
    Utf8.decodeLossy (((visible entry.name).flatMap String.utf8EncodeChar).take nameRoom) := by
  have field : (encode entry).take nameField =
      Bytes.resize ((Utf8.encode entry.name).take (nameField - 1)) nameField := by
    rw [encode, List.append_assoc, List.append_assoc, List.append_assoc, List.take_left' (Bytes.length_resize _ _)]
  have short : ((Utf8.encode entry.name).take nameRoom).length ≤ nameRoom := List.length_take_le _ _
  rw [Utf8.decodeTerminated, field, Bytes.resize, takeWhile_append_zeros, List.take_of_length_le, takeWhile_take,
    Utf8.encode, Utf8.takeWhile_flatMap]
  · rfl
  · exact Nat.le_trans short (by decide)
  · have room : nameRoom < nameField := by decide
    exact Nat.sub_pos_of_lt (Nat.lt_of_le_of_lt short room)

theorem decode_encode : decode (encode entry) = .ok { entry with
    name := Utf8.decodeLossy (((visible entry.name).flatMap String.utf8EncodeChar).take nameRoom) } := by
  have kind : (encode entry).slice 0x304 1 = [UInt8.ofNat entry.kind.raw] := by
    simp [encode, nameField]
  have last : (Bytes.ofNat 8 entry.size.toNat).slice 0 8 = Bytes.ofNat 8 entry.size.toNat :=
    List.take_of_length_le (Nat.le_of_eq (Bytes.length_ofNat 8 _))
  have size : wordAt (encode entry) 0x308 = entry.size := by
    apply wordAt_of_slice
    simp [encode, nameField, last]
  rw [decode, requireLength, if_neg (length_encode entry ▸ Nat.lt_irrefl _),
    EntryType.fitsByte.ofRaw_of_slice kind, decodeTerminated_encode, size]
  rfl

end Bytes

section Names

variable {name : String} {before behind : List Char} {c : Char}

theorem forall_bne (clean : '\x00' ∉ before) : ∀ c ∈ before, (c != '\x00') = true := by
  intro c listed
  rw [bne_iff_ne]
  rintro rfl
  exact clean listed

theorem visible_isPrefix (name : String) : visible name <+: name.toList := List.takeWhile_prefix _

theorem not_mem_visible (name : String) : '\x00' ∉ visible name := fun listed => by
  simpa using List.mem_takeWhile_imp listed

theorem visible_of_append (split : name.toList = before ++ '\x00' :: behind) (clean : '\x00' ∉ before) :
    visible name = before := by
  rw [visible, split, List.takeWhile_append_of_pos (forall_bne clean)]
  simp

theorem visible_of_not_mem (clean : '\x00' ∉ name.toList) : visible name = name.toList :=
  List.takeWhile_eq_self_iff.mpr (forall_bne clean)

theorem isPrefix_visible (part : before <+: name.toList) (clean : '\x00' ∉ before) : before <+: visible name := by
  obtain ⟨behind, split⟩ := part
  rw [visible, ← split, List.takeWhile_append_of_pos (forall_bne clean)]
  exact List.prefix_append _ _

theorem Straddles.cut (straddles : Straddles name before c) : Utf8.Cut nameRoom (visible name) before c where
  isPrefix := by
    refine isPrefix_visible straddles.isPrefix fun listed => ?_
    rcases List.mem_append.mp listed with listed | last
    · exact straddles.unterminated listed
    -- A zero character is a single byte, which cannot be cut in two.
    · have begun := straddles.begun
      have lacks := straddles.lacks
      rw [← List.mem_singleton.mp last, show '\x00'.utf8Size = 1 from rfl] at lacks
      omega
  fits := Nat.le_of_lt straddles.begun
  lacks := straddles.lacks

theorem straddles_of_cut (cut : Utf8.Cut nameRoom (visible name) before c)
    (begun : (String.ofList before).utf8ByteSize < nameRoom) : Straddles name before c where
  isPrefix := cut.isPrefix.trans (visible_isPrefix name)
  unterminated := fun listed =>
    not_mem_visible name (cut.isPrefix.subset (List.mem_append_left _ listed))
  begun := begun
  lacks := cut.lacks

theorem keepsName_of_isPrefix (part : before <+: visible name) (fits : (String.ofList before).utf8ByteSize ≤ nameRoom)
    (full : before = visible name ∨
      ∃ c, before ++ [c] <+: visible name ∧ nameRoom < (String.ofList before).utf8ByteSize + c.utf8Size) :
    KeepsName name (String.ofList before) := by
  have all : ∀ {front}, visible name = front → (String.ofList front).utf8ByteSize ≤ nameRoom → before = front := by
    rintro front rfl room
    rcases full with all | ⟨c, further, lacks⟩
    · exact all
    · have cut : Utf8.Cut nameRoom (visible name) before c := ⟨further, fits, lacks⟩
      exact absurd cut.lt_utf8ByteSize (Nat.not_lt.mpr room)
  refine ⟨?_, fits, fun clean room => ?_, fun front behind split clean room => ?_, fun c nonzero further => ?_⟩
  · rw [String.toList_ofList]
    exact part.trans (visible_isPrefix name)
  · rw [all (visible_of_not_mem clean) (by rwa [String.ofList_toList]), String.ofList_toList]
  · rw [all (visible_of_append split clean) room]
  · rw [String.toList_ofList] at further
    have clean : '\x00' ∉ before ++ [c] := by
      rw [List.mem_append, List.mem_singleton, not_or]
      exact ⟨fun listed => not_mem_visible name (part.subset listed), Ne.symm nonzero⟩
    have inside := isPrefix_visible further clean
    rcases full with rfl | ⟨c', further', lacks⟩
    · have longer := inside.length_le
      rw [List.length_append, List.length_singleton] at longer
      omega
    · have same : before ++ [c] = before ++ [c'] :=
        (List.prefix_of_prefix_length_le inside further' (by simp)).eq_of_length (by simp)
      rw [List.append_cancel_left_eq, List.cons.injEq] at same
      rwa [same.1]

end Names

section Straddling

variable {name shown : String} {before : List Char} {c : Char}

theorem Straddles.not_kept (straddles : Straddles name before c)
    (read : shown = String.ofList (before ++ [Utf8.replacement])) :
    ¬(shown.toList <+: name.toList ∧ shown.utf8ByteSize ≤ nameRoom) := by
  rintro ⟨part, fits⟩
  subst read
  rw [String.toList_ofList] at part
  have same : before ++ [Utf8.replacement] = before ++ [c] :=
    (List.prefix_of_prefix_length_le part straddles.isPrefix (by simp)).eq_of_length (by simp)
  rw [same, Utf8.utf8ByteSize_append_singleton] at fits
  exact absurd straddles.lacks (Nat.not_lt.mpr fits)

end Straddling

theorem exists_straddles : ∃ name before c, Straddles name before c := by
  refine ⟨String.ofList (List.replicate 767 'x' ++ ['é']), List.replicate 767 'x', 'é', ?_, ?_, ?_, ?_⟩
  · exact (congrArg (List.IsPrefix _) String.toList_ofList).mpr (List.prefix_refl _)
  · rw [List.mem_replicate]
    decide
  · decide +kernel
  · decide +kernel

/-- The type and the size of an entry come back, and its name exactly when none of its characters straddles the end
    of the room for names. Of a character that does, a replacement character comes back. -/
theorem name_kept_iff (entry : DirectoryEntry) :
    (encode entry).length = 0x310 ∧ ∃ shown, decode (encode entry) = .ok { entry with name := shown } ∧
      (KeepsName entry.name shown ↔ ∀ before c, ¬Straddles entry.name before c) ∧
      ∀ before c, Straddles entry.name before c →
        shown = String.ofList (before ++ [Utf8.replacement]) ∧
          ¬(shown.toList <+: entry.name.toList ∧ shown.utf8ByteSize ≤ nameRoom) := by
  refine ⟨length_encode entry, _, decode_encode entry, ?_⟩
  rcases Utf8.fits_or_cut (visible entry.name) nameRoom with fits | ⟨before, c, cut⟩
  · have none : ∀ before c, ¬Straddles entry.name before c := fun before c straddles =>
      absurd straddles.cut.lt_utf8ByteSize (Nat.not_lt.mpr fits)
    rw [Utf8.decodeLossy_take_of_fits fits]
    exact ⟨iff_of_true (keepsName_of_isPrefix (List.prefix_refl _) fits (.inl rfl)) none,
      fun before c straddles => absurd straddles (none before c)⟩
  · rw [Utf8.decodeLossy_take_of_cut cut]
    split
    · rename_i begun
      have straddles := straddles_of_cut cut begun
      have lost := straddles.not_kept rfl
      refine ⟨iff_of_false (fun kept => lost ⟨kept.isPrefix, kept.fits⟩) fun none => none before c straddles, ?_⟩
      rintro before' c' straddles'
      obtain ⟨rfl, rfl⟩ := cut.unique straddles'.cut
      exact ⟨rfl, lost⟩
    · rename_i full
      have none : ∀ before c, ¬Straddles entry.name before c := by
        intro before' c' straddles'
        obtain ⟨rfl, rfl⟩ := cut.unique straddles'.cut
        exact full straddles'.begun
      rw [List.append_nil]
      exact ⟨iff_of_true (keepsName_of_isPrefix ((List.prefix_append before [c]).trans cut.isPrefix) cut.fits
        (.inr ⟨c, cut.isPrefix, cut.lacks⟩)) none, fun before c straddles => absurd straddles (none before c)⟩

end DirectoryEntry

end GuestStorage.Wire
