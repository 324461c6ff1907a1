import Mathlib.Algebra.GroupWithZero.Nat
import Mathlib.Data.List.Find
import GuestStorage.Wire.Record

namespace GuestStorage

namespace Bytes

def blank (offsets : Nat → Bool) (bytes : Bytes) : Bytes :=
  bytes.mapIdx fun offset byte => if offsets offset then 0 else byte

variable {offsets : Nat → Bool} {bytes : Bytes} {start count : Nat}

@[simp] theorem length_blank (offsets : Nat → Bool) (bytes : Bytes) : (blank offsets bytes).length = bytes.length :=
  List.length_mapIdx

theorem blank_append (offsets : Nat → Bool) (front back : Bytes) :
    blank offsets (front ++ back) =
      blank offsets front ++ blank (fun offset => offsets (offset + front.length)) back :=
  List.mapIdx_append

theorem blank_eq_self (none : ∀ offset < bytes.length, offsets offset = false) : blank offsets bytes = bytes := by
  refine List.ext_getElem (length_blank offsets bytes) fun offset _ within => ?_
  simp [blank, none offset within]

theorem blank_eq_zeros (all : ∀ offset < bytes.length, offsets offset = true) :
    blank offsets bytes = zeros bytes.length := by
  refine List.ext_getElem (by simp) fun offset within _ => ?_
  rw [length_blank] at within
  simp [blank, zeros, all offset within]

theorem blank_congr {other : Bytes} (length : bytes.length = other.length)
    (agree : ∀ offset < bytes.length, offsets offset = false → bytes[offset]? = other[offset]?) :
    blank offsets bytes = blank offsets other := by
  refine List.ext_getElem (by simpa using length) fun offset within within' => ?_
  simp only [length_blank] at within within'
  simp only [blank, List.getElem_mapIdx]
  split
  · rfl
  · rename_i owned
    have same := agree offset within (by simpa using owned)
    rwa [List.getElem?_eq_getElem within, List.getElem?_eq_getElem within', Option.some.injEq] at same

theorem toNat_lt (bytes : Bytes) : toNat bytes < 256 ^ bytes.length := by
  have whole := toNat_ofNat bytes.length (toNat bytes)
  rw [ofNat_toNat] at whole
  rw [whole]
  exact Nat.mod_lt _ (Nat.pow_pos (by decide))

theorem length_slice (fits : start + count ≤ bytes.length) : (bytes.slice start count).length = count := by
  rw [slice, List.length_take, List.length_drop]
  omega

@[simp] theorem slice_append_of_le (front back : Bytes) (count : Nat) (past : front.length ≤ start) :
    slice (front ++ back) start count = slice back (start - front.length) count := by
  rw [slice, slice, List.drop_append, List.drop_of_length_le past, List.nil_append]

@[simp] theorem slice_cons_of_pos (byte : UInt8) (bytes : Bytes) (count : Nat) (past : 1 ≤ start) :
    slice (byte :: bytes) start count = slice bytes (start - 1) count :=
  slice_append_of_le [byte] bytes count past

@[simp] theorem slice_append_front (front back : Bytes) (whole : front.length = count) :
    slice (front ++ back) 0 count = front := by
  rw [slice, List.drop_zero, ← whole, List.take_left]

@[simp] theorem slice_cons_one (byte : UInt8) (bytes : Bytes) : slice (byte :: bytes) 0 1 = [byte] := rfl

end Bytes

namespace Wire

/-- A stretch of a record: a field, or bytes that belong to none. -/
inductive Part where
  | field (width : Nat)
  | padding (width : Nat)

namespace Part

def width : Part → Nat
  | field width | padding width => width

def isPadding : Part → Bool
  | field _ => false
  | padding _ => true

def ofBytes (bytes : Bytes) : Part → Bytes
  | field width => bytes.take width
  | padding width => Bytes.zeros width

theorem blank_take (part : Part) {offsets : Nat → Bool} {bytes : Bytes} (fits : part.width ≤ bytes.length)
    (own : ∀ offset < part.width, offsets offset = part.isPadding) :
    Bytes.blank offsets (bytes.take part.width) = part.ofBytes bytes := by
  have length : (bytes.take part.width).length = part.width := List.length_take_of_le fits
  cases part with
  | field width => exact Bytes.blank_eq_self fun offset within => own offset (length ▸ within)
  | padding width =>
    rw [Bytes.blank_eq_zeros fun offset within => own offset (length ▸ within), length]
    rfl

end Part

abbrev Layout := List Part

namespace Layout

def size (layout : Layout) : Nat := (layout.map Part.width).sum

def isPadding : Layout → Nat → Bool
  | [], _ => false
  | part :: rest, offset => if offset < part.width then part.isPadding else isPadding rest (offset - part.width)

def ofBytes : Layout → Bytes → Bytes
  | [], _ => []
  | part :: rest, bytes => part.ofBytes bytes ++ ofBytes rest (bytes.drop part.width)

theorem blank_take_size (layout : Layout) {bytes : Bytes} (fits : layout.size ≤ bytes.length) :
    Bytes.blank layout.isPadding (bytes.take layout.size) = layout.ofBytes bytes := by
  induction layout generalizing bytes with
  | nil => rfl
  | cons part rest ih =>
    have sum : size (part :: rest) = part.width + size rest := rfl
    rw [sum] at fits
    have first : part.width ≤ bytes.length := Nat.le_of_add_right_le fits
    have further : size rest ≤ (bytes.drop part.width).length := by
      rw [List.length_drop]
      omega
    have later : (fun offset => isPadding (part :: rest) (offset + part.width)) = isPadding rest := by
      funext offset
      rw [isPadding, if_neg (by omega), Nat.add_sub_cancel]
    have own : ∀ offset < part.width, isPadding (part :: rest) offset = part.isPadding := fun _ within => if_pos within
    rw [sum, List.take_add, Bytes.blank_append, List.length_take_of_le first, later, ih further,
      part.blank_take first own, ofBytes]

end Layout

section Fields

variable {bytes : Bytes} {offset : Nat}

theorem ofNat_wordAt (fits : offset + 8 ≤ bytes.length) :
    Bytes.ofNat 8 (wordAt bytes offset).toNat = bytes.slice offset 8 := by
  have length := Bytes.length_slice fits
  have bound := Bytes.toNat_lt (bytes.slice offset 8)
  have whole := Bytes.ofNat_toNat (bytes.slice offset 8)
  rw [length] at bound whole
  rwa [wordAt, UInt64.toNat_ofNat_of_lt' bound]

theorem ofNat_halfAt (fits : offset + 2 ≤ bytes.length) :
    Bytes.ofNat 2 (halfAt bytes offset).toNat = bytes.slice offset 2 := by
  have length := Bytes.length_slice fits
  have bound := Bytes.toNat_lt (bytes.slice offset 2)
  have whole := Bytes.ofNat_toNat (bytes.slice offset 2)
  rw [length] at bound whole
  rwa [halfAt, UInt16.toNat_ofNat_of_lt' bound]

theorem toBytes_userAt (fits : offset + 16 ≤ bytes.length) :
    (userAt bytes offset).toBytes = bytes.slice offset 16 := by
  have length := Bytes.length_slice fits
  refine List.ext_getElem (by simp [UserId.toBytes, length]) fun index _ within => ?_
  simp [userAt, UserId.ofBytes, UserId.toBytes, within]

theorem wordAt_of_slice {word : UInt64} (stored : bytes.slice offset 8 = Bytes.ofNat 8 word.toNat) :
    wordAt bytes offset = word := by
  rw [wordAt, stored, Bytes.toNat_ofNat, Nat.mod_eq_of_lt word.toNat_lt, UInt64.ofNat_toNat]

theorem halfAt_of_slice {half : UInt16} (stored : bytes.slice offset 2 = Bytes.ofNat 2 half.toNat) :
    halfAt bytes offset = half := by
  rw [halfAt, stored, Bytes.toNat_ofNat, Nat.mod_eq_of_lt half.toNat_lt, UInt16.ofNat_toNat]

theorem userAt_of_slice {user : UserId} (stored : bytes.slice offset 16 = user.toBytes) :
    userAt bytes offset = user := by
  rw [userAt, stored]
  cases user
  simp [UserId.ofBytes, UserId.toBytes]

theorem slice_one (fits : offset + 1 ≤ bytes.length) :
    bytes.slice offset 1 = [UInt8.ofNat (byteAt bytes offset)] := by
  have byte : bytes.getD offset 0 = bytes[offset] := by simp [List.getElem?_eq_getElem fits]
  rw [Bytes.slice, List.drop_eq_getElem_cons fits, List.take_succ_cons, List.take_zero, byteAt, byte,
    UInt8.ofNat_toNat]

end Fields

section Codes

variable {α : Type} [Coded α] {bytes : Bytes} {offset : Nat}

/-- Every value of a closed set has its own number, and the number fits into a byte. -/
structure FitsByte (α : Type) [Coded α] : Prop where
  read : ∀ value : α, ofRaw (Coded.raw value) = .ok value
  small : ∀ value : α, Coded.raw value < 256

theorem SaveDataSpace.fitsByte : FitsByte SaveDataSpace :=
  ⟨fun space => by cases space <;> rfl, fun space => by cases space <;> decide⟩

theorem SaveDataType.fitsByte : FitsByte SaveDataType :=
  ⟨fun kind => by cases kind <;> rfl, fun kind => by cases kind <;> decide⟩

theorem SaveDataRank.fitsByte : FitsByte SaveDataRank :=
  ⟨fun rank => by cases rank <;> rfl, fun rank => by cases rank <;> decide⟩

theorem FitsByte.ofRaw_of_slice (fits : FitsByte α) {value : α}
    (stored : bytes.slice offset 1 = [UInt8.ofNat (Coded.raw value)]) : ofRaw (byteAt bytes offset) = .ok value := by
  have byte : bytes.getD offset 0 = UInt8.ofNat (Coded.raw value) := by
    have first := congrArg (·.getD 0 0) stored
    simpa [Bytes.slice] using first
  rw [byteAt, byte, UInt8.toNat_ofNat_of_lt' (fits.small value), fits.read]

theorem slice_of_ofRaw (within : offset + 1 ≤ bytes.length) {value : α}
    (read : ofRaw (byteAt bytes offset) = .ok value) :
    [UInt8.ofNat (Coded.raw value)] = bytes.slice offset 1 := by rw [slice_one within, raw_of_ofRaw read]

/-- A byte that has to hold one of the numbers of a closed set. -/
structure CodeByte where
  offset : Nat
  kind : String
  numbers : List Nat

namespace CodeByte

def of (α : Type) [Coded α] (offset : Nat) : CodeByte :=
  ⟨offset, Coded.kind α, (Coded.values : List α).map Coded.raw⟩

def holds (bytes : Bytes) (code : CodeByte) : Bool := code.numbers.contains (byteAt bytes code.offset)

theorem exists_of_holds (known : (of α offset).holds bytes = true) :
    ∃ value : α, ofRaw (byteAt bytes offset) = .ok value := by
  cases read : (ofRaw (byteAt bytes offset) : Except DecodeError α) with
  | ok value => exact ⟨value, rfl⟩
  | error cause =>
    obtain ⟨-, absent⟩ := ofRaw_eq_error_iff.mp read
    simp only [holds, of, List.contains_eq_mem, List.mem_map, decide_eq_true_eq] at known
    obtain ⟨value, listed, carried⟩ := known
    exact absurd carried (absent value listed)

theorem ofRaw_of_not_holds (unknown : (of α offset).holds bytes = false) :
    (ofRaw (byteAt bytes offset) : Except DecodeError α) =
      .error (.unknownValue (Coded.kind α) (byteAt bytes offset)) := by
  refine ofRaw_eq_error_iff.mpr ⟨rfl, fun value listed carried => ?_⟩
  simp only [holds, of, List.contains_eq_mem, decide_eq_false_iff_not] at unknown
  exact unknown (carried ▸ List.mem_map_of_mem listed)

end CodeByte

end Codes

/-- Records of a fixed size are read exactly as they are written: what is written is read back, and any bytes
    are read if there are enough of them and those that hold codes hold known ones. The first unknown code is
    reported, in the order in which the codes are given. -/
structure Exact {α : Type} (encode : α → Bytes) (decode : Bytes → Except DecodeError α) (kind : String)
    (recordSize : Nat) (layout : Layout) (codes : List CodeByte) : Prop where
  size : layout.size = recordSize
  decode_encode : ∀ record, decode (encode record) = .ok record
  decodes_iff : ∀ bytes,
    (∃ record, decode bytes = .ok record) ↔ recordSize ≤ bytes.length ∧ ∀ code ∈ codes, code.holds bytes = true
  encode_of_decode : ∀ bytes record, decode bytes = .ok record →
    encode record = Bytes.blank layout.isPadding (bytes.take recordSize)
  decode_congr : ∀ bytes other, recordSize ≤ bytes.length → recordSize ≤ other.length →
    (∀ offset < recordSize, layout.isPadding offset = false → bytes[offset]? = other[offset]?) →
      decode bytes = decode other
  truncated : ∀ bytes, bytes.length < recordSize →
    decode bytes = .error (.truncated kind recordSize bytes.length)
  unknown : ∀ bytes code, recordSize ≤ bytes.length → codes.find? (fun code => !code.holds bytes) = some code →
    decode bytes = .error (.unknownValue code.kind (byteAt bytes code.offset))

section Reading

variable {α : Type} {encode : α → Bytes} {decode : Bytes → Except DecodeError α} {kind : String}
  {recordSize : Nat} {layout : Layout} {codes : List CodeByte}

section Fields

variable {bytes other : Bytes}
  (agree : ∀ offset < recordSize, layout.isPadding offset = false → bytes[offset]? = other[offset]?)
include agree

theorem Layout.blank_take_congr (fits : recordSize ≤ bytes.length) (fits' : recordSize ≤ other.length) :
    Bytes.blank layout.isPadding (bytes.take recordSize) = Bytes.blank layout.isPadding (other.take recordSize) := by
  refine Bytes.blank_congr (by simp; omega) fun offset within field => ?_
  have bound : offset < recordSize := by
    rw [List.length_take] at within
    omega
  rw [List.getElem?_take_of_lt bound, List.getElem?_take_of_lt bound, agree offset bound field]

theorem CodeByte.byteAt_congr {code : CodeByte}
    (owned : code.offset < recordSize ∧ layout.isPadding code.offset = false) :
    byteAt bytes code.offset = byteAt other code.offset := by
  rw [byteAt, byteAt, List.getD_eq_getElem?_getD, List.getD_eq_getElem?_getD, agree _ owned.1 owned.2]

theorem CodeByte.find?_unknown_congr
    (owned : ∀ code ∈ codes, code.offset < recordSize ∧ layout.isPadding code.offset = false) :
    codes.find? (fun code => !code.holds bytes) = codes.find? (fun code => !code.holds other) :=
  List.find?_congr fun code listed => by rw [holds, holds, byteAt_congr agree (owned code listed)]

end Fields

theorem exact_of_reads (size : layout.size = recordSize)
    (owned : ∀ code ∈ codes, code.offset < recordSize ∧ layout.isPadding code.offset = false)
    (decode_encode : ∀ record, decode (encode record) = .ok record)
    (encode_of_decode : ∀ bytes record, recordSize ≤ bytes.length → decode bytes = .ok record →
      encode record = layout.ofBytes bytes)
    (truncated : ∀ bytes, bytes.length < recordSize →
      decode bytes = .error (.truncated kind recordSize bytes.length))
    (known : ∀ bytes, recordSize ≤ bytes.length → (∀ code ∈ codes, code.holds bytes = true) →
      ∃ record, decode bytes = .ok record)
    (unknown : ∀ bytes code, recordSize ≤ bytes.length →
      codes.find? (fun code => !code.holds bytes) = some code →
        decode bytes = .error (.unknownValue code.kind (byteAt bytes code.offset))) :
    Exact encode decode kind recordSize layout codes := by
  have long : ∀ {bytes record}, decode bytes = .ok record → recordSize ≤ bytes.length := by
    intro bytes record done
    refine Nat.not_lt.mp fun short => ?_
    rw [truncated bytes short] at done
    cases done
  have written : ∀ bytes record, decode bytes = .ok record →
      encode record = Bytes.blank layout.isPadding (bytes.take recordSize) := by
    intro bytes record done
    rw [encode_of_decode bytes record (long done) done, ← size, layout.blank_take_size (size ▸ long done)]
  refine ⟨size, decode_encode, fun bytes => ⟨?_, fun ⟨fits, all⟩ => known bytes fits all⟩, written, ?_,
    truncated, unknown⟩
  · rintro ⟨record, done⟩
    have fits := long done
    cases first : codes.find? (fun code => !code.holds bytes) with
    | none => exact ⟨fits, by simpa using first⟩
    | some code =>
      rw [unknown bytes code fits first] at done
      cases done
  · intro bytes other fits fits' agree
    have firstAgrees := CodeByte.find?_unknown_congr agree owned
    cases first : codes.find? (fun code => !code.holds bytes) with
    | some code =>
      rw [unknown bytes code fits first, unknown other code fits' (firstAgrees ▸ first),
        CodeByte.byteAt_congr agree (owned code (List.mem_of_find?_eq_some first))]
    | none =>
      obtain ⟨record, done⟩ := known bytes fits (by simpa using first)
      obtain ⟨record', done'⟩ := known other fits' (by simpa using firstAgrees.symm.trans first)
      -- both are written the same, and what is written tells the record
      have alike : encode record = encode record' := by
        rw [written bytes record done, written other record' done', Layout.blank_take_congr agree fits fits']
      have again := decode_encode record
      rw [alike, decode_encode record'] at again
      rw [done, done', again]

end Reading

theorem CodeByte.find?_cons_eq_some {bytes : Bytes} {code first : CodeByte} {rest : List CodeByte}
    (found : (first :: rest).find? (fun code => !code.holds bytes) = some code) :
    (first.holds bytes = false ∧ code = first) ∨
      (first.holds bytes = true ∧ rest.find? (fun code => !code.holds bytes) = some code) := by
  cases known : first.holds bytes with
  | false => exact .inl ⟨rfl, by simpa [known] using found.symm⟩
  | true => exact .inr ⟨rfl, by simpa [known] using found⟩

theorem bind_eq_ok {ε α β : Type} {first : Except ε α} {next : α → Except ε β} {result : β} :
    first >>= next = .ok result ↔ ∃ value, first = .ok value ∧ next value = .ok result := by
  cases first <;> simp [bind, Except.bind]

namespace SaveInfo

def layout : Layout :=
  [.field 8, .field 1, .field 1, .padding 6, .field 16, .field 8, .field 8, .field 8, .field 2, .field 1, .padding 37]

def codes : List CodeByte := [.of SaveDataSpace 0x08, .of SaveDataType 0x09, .of SaveDataRank 0x3A]

def withCodes (bytes : Bytes) (space : SaveDataSpace) (kind : SaveDataType) (rank : SaveDataRank) : SaveInfo :=
  ⟨wordAt bytes 0x00, space, kind, userAt bytes 0x10, wordAt bytes 0x20, wordAt bytes 0x28, wordAt bytes 0x30,
    halfAt bytes 0x38, rank⟩

theorem decode_of_lt {bytes : Bytes} (short : bytes.length < recordSize) :
    decode bytes = .error (.truncated "SaveDataInfo" recordSize bytes.length) := by
  rw [decode, requireLength, if_pos short]
  rfl

theorem decode_of_le {bytes : Bytes} (fits : recordSize ≤ bytes.length) : decode bytes =
    (do
      let space ← ofRaw (byteAt bytes 0x08)
      let kind ← ofRaw (byteAt bytes 0x09)
      let rank ← ofRaw (byteAt bytes 0x3A)
      return withCodes bytes space kind rank) := by
  rw [decode, requireLength, if_neg (Nat.not_lt.mpr fits)]
  rfl

section Encoded

variable (info : SaveInfo)

theorem slice_encode_codes :
    (encode info).slice 0x08 1 = [UInt8.ofNat info.space.raw] ∧
      (encode info).slice 0x09 1 = [UInt8.ofNat info.kind.raw] ∧
      (encode info).slice 0x3A 1 = [UInt8.ofNat info.rank.raw] := by
  refine ⟨?_, ?_, ?_⟩ <;>
    simp [encode, UserId.toBytes]

theorem withCodes_encode : withCodes (encode info) info.space info.kind info.rank = info := by
  have first : wordAt (encode info) 0x00 = info.saveIdUnknown := by
    apply wordAt_of_slice
    simp [encode]
  have user : userAt (encode info) 0x10 = info.userId := by
    apply userAt_of_slice
    simp [encode, UserId.toBytes]
  have save : wordAt (encode info) 0x20 = info.saveId := by
    apply wordAt_of_slice
    simp [encode, UserId.toBytes]
  have title : wordAt (encode info) 0x28 = info.titleId := by
    apply wordAt_of_slice
    simp [encode, UserId.toBytes]
  have size : wordAt (encode info) 0x30 = info.imageSize := by
    apply wordAt_of_slice
    simp [encode, UserId.toBytes]
  have index : halfAt (encode info) 0x38 = info.index := by
    apply halfAt_of_slice
    simp [encode, UserId.toBytes]
  rw [withCodes, first, user, save, title, size, index]

theorem decode_encode : decode (encode info) = .ok info := by
  obtain ⟨space, kind, rank⟩ := slice_encode_codes info
  have fits : recordSize ≤ (encode info).length := by simp [encode, recordSize, UserId.toBytes]
  rw [decode_of_le fits, SaveDataSpace.fitsByte.ofRaw_of_slice space, SaveDataType.fitsByte.ofRaw_of_slice kind,
    SaveDataRank.fitsByte.ofRaw_of_slice rank]
  exact congrArg Except.ok (withCodes_encode info)

end Encoded

section Decoded

variable {bytes : Bytes} {info : SaveInfo}

theorem decode_eq_ok (fits : recordSize ≤ bytes.length) (done : decode bytes = .ok info) :
    ofRaw (byteAt bytes 0x08) = .ok info.space ∧ ofRaw (byteAt bytes 0x09) = .ok info.kind ∧
      ofRaw (byteAt bytes 0x3A) = .ok info.rank ∧ info = withCodes bytes info.space info.kind info.rank := by
  rw [decode_of_le fits] at done
  obtain ⟨space, hasSpace, done⟩ := bind_eq_ok.mp done
  obtain ⟨kind, hasKind, done⟩ := bind_eq_ok.mp done
  obtain ⟨rank, hasRank, done⟩ := bind_eq_ok.mp done
  cases done
  exact ⟨hasSpace, hasKind, hasRank, rfl⟩

theorem encode_of_decode (fits : recordSize ≤ bytes.length) (done : decode bytes = .ok info) :
    encode info = layout.ofBytes bytes := by
  obtain ⟨space, kind, rank, words⟩ := decode_eq_ok fits done
  have long : 0x60 ≤ bytes.length := fits
  have spaceByte : [UInt8.ofNat info.space.raw] = bytes.slice 0x08 1 := slice_of_ofRaw (by omega) space
  have kindByte : [UInt8.ofNat info.kind.raw] = bytes.slice 0x09 1 := slice_of_ofRaw (by omega) kind
  have rankByte : [UInt8.ofNat info.rank.raw] = bytes.slice 0x3A 1 := slice_of_ofRaw (by omega) rank
  have pair : [UInt8.ofNat info.space.raw, UInt8.ofNat info.kind.raw] =
      bytes.slice 0x08 1 ++ bytes.slice 0x09 1 := by
    rw [← spaceByte, ← kindByte]
    rfl
  rw [words, encode, withCodes]
  simp only [pair, rankByte]
  rw [ofNat_wordAt (by omega), ofNat_wordAt (by omega), ofNat_wordAt (by omega), ofNat_wordAt (by omega),
    ofNat_halfAt (by omega), toBytes_userAt (by omega)]
  simp [Bytes.slice, layout, Layout.ofBytes, Part.ofBytes, Part.width]

theorem exists_of_codes (fits : recordSize ≤ bytes.length) (all : ∀ code ∈ codes, code.holds bytes = true) :
    ∃ info, decode bytes = .ok info := by
  obtain ⟨space, hasSpace⟩ := CodeByte.exists_of_holds (all (.of SaveDataSpace 0x08) (by simp [codes]))
  obtain ⟨kind, hasKind⟩ := CodeByte.exists_of_holds (all (.of SaveDataType 0x09) (by simp [codes]))
  obtain ⟨rank, hasRank⟩ := CodeByte.exists_of_holds (all (.of SaveDataRank 0x3A) (by simp [codes]))
  exact ⟨withCodes bytes space kind rank, by rw [decode_of_le fits, hasSpace, hasKind, hasRank]; rfl⟩

theorem decode_of_unknown {code : CodeByte} (fits : recordSize ≤ bytes.length)
    (found : codes.find? (fun code => !code.holds bytes) = some code) :
    decode bytes = .error (.unknownValue code.kind (byteAt bytes code.offset)) := by
  rw [decode_of_le fits]
  obtain ⟨noSpace, rfl⟩ | ⟨space, found⟩ := CodeByte.find?_cons_eq_some found
  · rw [CodeByte.ofRaw_of_not_holds noSpace]
    rfl
  obtain ⟨space, hasSpace⟩ := CodeByte.exists_of_holds space
  obtain ⟨noKind, rfl⟩ | ⟨kind, found⟩ := CodeByte.find?_cons_eq_some found
  · rw [hasSpace, CodeByte.ofRaw_of_not_holds noKind]
    rfl
  obtain ⟨kind, hasKind⟩ := CodeByte.exists_of_holds kind
  obtain ⟨noRank, rfl⟩ | ⟨rank, found⟩ := CodeByte.find?_cons_eq_some found
  · rw [hasSpace, hasKind, CodeByte.ofRaw_of_not_holds noRank]
    rfl
  · cases found

end Decoded

theorem exact : Exact encode decode "SaveDataInfo" recordSize layout codes :=
  exact_of_reads rfl (by decide) decode_encode (fun _ _ => encode_of_decode) (fun _ => decode_of_lt)
    (fun _ => exists_of_codes) (fun _ _ => decode_of_unknown)

end SaveInfo

namespace SaveDescriptor

def layout : Layout := [.field 8, .field 16, .field 8, .field 1, .field 1, .field 2, .padding 28]

def codes : List CodeByte := [.of SaveDataType 0x20, .of SaveDataRank 0x21]

def withCodes (bytes : Bytes) (kind : SaveDataType) (rank : SaveDataRank) : SaveDescriptor :=
  ⟨wordAt bytes 0x00, userAt bytes 0x08, wordAt bytes 0x18, kind, rank, halfAt bytes 0x22⟩

theorem decode_of_lt {bytes : Bytes} (short : bytes.length < recordSize) :
    decode bytes = .error (.truncated "SaveDataDescriptor" recordSize bytes.length) := by
  rw [decode, requireLength, if_pos short]
  rfl

theorem decode_of_le {bytes : Bytes} (fits : recordSize ≤ bytes.length) : decode bytes =
    (do
      let kind ← ofRaw (byteAt bytes 0x20)
      let rank ← ofRaw (byteAt bytes 0x21)
      return withCodes bytes kind rank) := by
  rw [decode, requireLength, if_neg (Nat.not_lt.mpr fits)]
  rfl

section Encoded

variable (descriptor : SaveDescriptor)

theorem slice_encode_codes :
    (encode descriptor).slice 0x20 1 = [UInt8.ofNat descriptor.kind.raw] ∧
      (encode descriptor).slice 0x21 1 = [UInt8.ofNat descriptor.rank.raw] := by
  refine ⟨?_, ?_⟩ <;> simp [encode, UserId.toBytes]

theorem withCodes_encode : withCodes (encode descriptor) descriptor.kind descriptor.rank = descriptor := by
  have title : wordAt (encode descriptor) 0x00 = descriptor.titleId := by
    apply wordAt_of_slice
    simp [encode]
  have user : userAt (encode descriptor) 0x08 = descriptor.userId := by
    apply userAt_of_slice
    simp [encode, UserId.toBytes]
  have save : wordAt (encode descriptor) 0x18 = descriptor.saveId := by
    apply wordAt_of_slice
    simp [encode, UserId.toBytes]
  have index : halfAt (encode descriptor) 0x22 = descriptor.index := by
    apply halfAt_of_slice
    simp [encode, UserId.toBytes]
  rw [withCodes, title, user, save, index]

theorem decode_encode : decode (encode descriptor) = .ok descriptor := by
  obtain ⟨kind, rank⟩ := slice_encode_codes descriptor
  have fits : recordSize ≤ (encode descriptor).length := by simp [encode, recordSize, UserId.toBytes]
  rw [decode_of_le fits, SaveDataType.fitsByte.ofRaw_of_slice kind, SaveDataRank.fitsByte.ofRaw_of_slice rank]
  exact congrArg Except.ok (withCodes_encode descriptor)

end Encoded

section Decoded

variable {bytes : Bytes} {descriptor : SaveDescriptor}

theorem decode_eq_ok (fits : recordSize ≤ bytes.length) (done : decode bytes = .ok descriptor) :
    ofRaw (byteAt bytes 0x20) = .ok descriptor.kind ∧ ofRaw (byteAt bytes 0x21) = .ok descriptor.rank ∧
      descriptor = withCodes bytes descriptor.kind descriptor.rank := by
  rw [decode_of_le fits] at done
  obtain ⟨kind, hasKind, done⟩ := bind_eq_ok.mp done
  obtain ⟨rank, hasRank, done⟩ := bind_eq_ok.mp done
  cases done
  exact ⟨hasKind, hasRank, rfl⟩

theorem encode_of_decode (fits : recordSize ≤ bytes.length) (done : decode bytes = .ok descriptor) :
    encode descriptor = layout.ofBytes bytes := by
  obtain ⟨kind, rank, words⟩ := decode_eq_ok fits done
  have long : 0x40 ≤ bytes.length := fits
  have kindByte : [UInt8.ofNat descriptor.kind.raw] = bytes.slice 0x20 1 := slice_of_ofRaw (by omega) kind
  have rankByte : [UInt8.ofNat descriptor.rank.raw] = bytes.slice 0x21 1 := slice_of_ofRaw (by omega) rank
  have pair : [UInt8.ofNat descriptor.kind.raw, UInt8.ofNat descriptor.rank.raw] =
      bytes.slice 0x20 1 ++ bytes.slice 0x21 1 := by
    rw [← kindByte, ← rankByte]
    rfl
  rw [words, encode, withCodes]
  simp only [pair]
  rw [ofNat_wordAt (by omega), ofNat_wordAt (by omega), ofNat_halfAt (by omega), toBytes_userAt (by omega)]
  simp [Bytes.slice, layout, Layout.ofBytes, Part.ofBytes, Part.width]

theorem exists_of_codes (fits : recordSize ≤ bytes.length) (all : ∀ code ∈ codes, code.holds bytes = true) :
    ∃ descriptor, decode bytes = .ok descriptor := by
  obtain ⟨kind, hasKind⟩ := CodeByte.exists_of_holds (all (.of SaveDataType 0x20) (by simp [codes]))
  obtain ⟨rank, hasRank⟩ := CodeByte.exists_of_holds (all (.of SaveDataRank 0x21) (by simp [codes]))
  exact ⟨withCodes bytes kind rank, by rw [decode_of_le fits, hasKind, hasRank]; rfl⟩

theorem decode_of_unknown {code : CodeByte} (fits : recordSize ≤ bytes.length)
    (found : codes.find? (fun code => !code.holds bytes) = some code) :
    decode bytes = .error (.unknownValue code.kind (byteAt bytes code.offset)) := by
  rw [decode_of_le fits]
  obtain ⟨noKind, rfl⟩ | ⟨kind, found⟩ := CodeByte.find?_cons_eq_some found
  · rw [CodeByte.ofRaw_of_not_holds noKind]
    rfl
  obtain ⟨kind, hasKind⟩ := CodeByte.exists_of_holds kind
  obtain ⟨noRank, rfl⟩ | ⟨rank, found⟩ := CodeByte.find?_cons_eq_some found
  · rw [hasKind, CodeByte.ofRaw_of_not_holds noRank]
    rfl
  · cases found

end Decoded

theorem exact : Exact encode decode "SaveDataDescriptor" recordSize layout codes :=
  exact_of_reads rfl (by decide) decode_encode (fun _ _ => encode_of_decode) (fun _ => decode_of_lt)
    (fun _ => exists_of_codes) (fun _ _ => decode_of_unknown)

end SaveDescriptor

/-- Both records of saves are read exactly as they are written, with the bytes of either laid out in full. -/
theorem save_records_exact :
    Exact SaveInfo.encode SaveInfo.decode "SaveDataInfo" 0x60
      [.field 8, .field 1, .field 1, .padding 6, .field 16, .field 8, .field 8, .field 8, .field 2, .field 1,
        .padding 37]
      [.of SaveDataSpace 0x08, .of SaveDataType 0x09, .of SaveDataRank 0x3A] ∧
    Exact SaveDescriptor.encode SaveDescriptor.decode "SaveDataDescriptor" 0x40
      [.field 8, .field 16, .field 8, .field 1, .field 1, .field 2, .padding 28]
      [.of SaveDataType 0x20, .of SaveDataRank 0x21] :=
  ⟨SaveInfo.exact, SaveDescriptor.exact⟩

end Wire

end GuestStorage
