import GuestStorage.Proofs.Path
import GuestStorage.Save.Enumeration

namespace GuestStorage.Text.Hex

variable {letters : Case} {width n : Nat} {c : Char}

theorem mem_fixed (listed : c ∈ fixed letters width n) : ∃ value < 16, c = digit letters value := by
  induction width generalizing n with
  | zero => cases listed
  | succ width ih =>
    rcases List.mem_append.mp listed with before | last
    · exact ih before
    · exact ⟨n % 16, Nat.mod_lt _ (by omega), List.mem_singleton.mp last⟩

theorem digit_plain {value : Nat} (small : value < 16) :
    Path.isSeparator (digit letters value) = false ∧ digit letters value ≠ '.' ∧
      digit letters value ≠ '\x00' ∧ (digit letters value).utf8Size = 1 := by
  have all : ∀ n : Fin 16, Path.isSeparator (digit letters n) = false ∧ digit letters n ≠ '.' ∧
      digit letters n ≠ '\x00' ∧ (digit letters n).utf8Size = 1 := by
    cases letters <;> decide
  exact all ⟨value, small⟩

theorem fixed_eq_flatMap (letters : Case) (width n : Nat) :
    fixed letters (2 * width) n = (Bytes.ofNat width n).reverse.flatMap (ofByte letters) := by
  induction width generalizing n with
  | zero => rfl
  | succ width ih =>
    have byte : (UInt8.ofNat n).toNat = n % 256 := UInt8.toNat_ofNat'
    have high : n % 256 / 16 = n / 16 % 16 := by omega
    have low : n % 256 % 16 = n % 16 := by omega
    have rest : n / 16 / 16 = n / 256 := by omega
    rw [Nat.mul_succ, fixed, fixed, Bytes.ofNat, List.reverse_cons, List.flatMap_append, rest, ih]
    simp [ofByte, byte, high, low]

def Spelled (width : Nat) (name : String) : Prop :=
  name.length = width ∧ ∀ c ∈ name.toList, (digitValue? c).isSome = true

theorem spelled_of_bytes? {letters : List Char} {bytes : Bytes} (read : bytes? letters = some bytes) :
    letters.length = 2 * bytes.length ∧ ∀ c ∈ letters, (digitValue? c).isSome = true := by
  induction letters using bytes?.induct generalizing bytes with
  | case1 =>
    cases read
    exact ⟨rfl, fun c among => absurd among List.not_mem_nil⟩
  | case2 high low rest ih =>
    simp only [bytes?, Option.bind_eq_bind, Option.bind_eq_some_iff] at read
    obtain ⟨h, first, l, second, others, further, whole⟩ := read
    obtain ⟨long, digits⟩ := ih further
    cases whole
    refine ⟨by simp only [List.length_cons]; omega, fun c among => ?_⟩
    rcases List.mem_cons.mp among with rfl | later
    · rw [first]
      rfl
    · rcases List.mem_cons.mp later with rfl | last
      · rw [second]
        rfl
      · exact digits c last
  | case3 => cases read

end GuestStorage.Text.Hex

namespace GuestStorage.Save

open Wire (SaveDescriptor UserId)
open GuestStorage.Path (IsName Usable)
open Text (Hex.fixed_eq_flatMap Hex.bytes?_flatMap_ofByte Hex.mem_fixed Hex.digit_plain Hex.Spelled
  Hex.spelled_of_bytes?)

theorem bytes?_hexId (id : UInt64) :
    Text.Hex.bytes? (SaveDescriptor.hexId id).toList = some (Bytes.ofNat 8 id.toNat).reverse := by
  rw [SaveDescriptor.hexId, String.toList_ofList, Hex.fixed_eq_flatMap .upper 8, Hex.bytes?_flatMap_ofByte]

theorem decodeId_hexId (id : UInt64) : decodeId (SaveDescriptor.hexId id) = id := by
  have small : id.toNat % Nat.pow 256 8 = id.toNat := Nat.mod_eq_of_lt id.toNat_lt
  rw [decodeId, bytes?_hexId]
  simp only [List.length_reverse, Bytes.length_ofNat, if_pos, List.reverse_reverse]
  rw [Bytes.toNat_ofNat, small, UInt64.ofNat_toNat]

theorem hex_eq_ofBytes (user : UserId) : user.hex = Text.Hex.ofBytes .upper user.toBytes.reverse := by
  have word : ∀ bytes : Bytes, bytes.length = 8 →
      Text.Hex.fixed .upper 16 bytes.toNat = bytes.reverse.flatMap (Text.Hex.ofByte .upper) := by
    intro bytes eight
    have back := Bytes.ofNat_toNat bytes
    rw [eight] at back
    rw [Hex.fixed_eq_flatMap .upper 8, back]
  have size : user.toBytes.length = 16 := user.bytes.size_toArray
  have low : (user.toBytes.slice 0 8).length = 8 := by simp [Bytes.slice, size]
  have high : (user.toBytes.slice 8 8).length = 8 := by simp [Bytes.slice, size]
  have halves : user.toBytes.slice 0 8 ++ user.toBytes.slice 8 8 = user.toBytes := by
    have rest : (user.toBytes.drop 8).take 8 = user.toBytes.drop 8 :=
      List.take_of_length_le (by simp [size])
    rw [Bytes.slice, Bytes.slice, List.drop_zero, rest, List.take_append_drop]
  rw [UserId.hex, Text.Hex.ofBytes]
  dsimp only
  rw [word _ high, word _ low, ← List.flatMap_append, ← List.reverse_append, halves]

theorem bytes?_hex (user : UserId) : Text.Hex.bytes? user.hex.toList = some user.toBytes.reverse := by
  rw [hex_eq_ofBytes, Text.Hex.ofBytes, String.toList_ofList, Hex.bytes?_flatMap_ofByte]

theorem decodeUser_hex (user : UserId) : decodeUser user.hex = user := by
  have size : user.toBytes.length = 16 := user.bytes.size_toArray
  rw [decodeUser, bytes?_hex]
  simp only [List.length_reverse, size, if_pos, List.reverse_reverse]
  cases user with
  | mk bytes =>
    simp only [UserId.ofBytes, UserId.toBytes, UserId.mk.injEq]
    ext i small
    simp [List.getD]

theorem decodeId_eq_zero {name : String} (malformed : ¬ Hex.Spelled 16 name) : decodeId name = 0 := by
  rw [decodeId]
  split
  · rfl
  · rename_i bytes read
    refine if_neg fun eight => malformed ?_
    obtain ⟨long, digits⟩ := Hex.spelled_of_bytes? read
    exact ⟨by rw [← String.length_toList, long, eight], digits⟩

theorem decodeUser_eq_zero {name : String} (malformed : ¬ Hex.Spelled 32 name) : decodeUser name = .zero := by
  rw [decodeUser]
  split
  · rfl
  · rename_i bytes read
    refine if_neg fun sixteen => malformed ?_
    obtain ⟨long, digits⟩ := Hex.spelled_of_bytes? read
    exact ⟨by rw [← String.length_toList, long, sixteen], digits⟩

theorem hexId_injective {id other : UInt64} (same : SaveDescriptor.hexId id = SaveDescriptor.hexId other) :
    id = other := by
  rw [← decodeId_hexId id, same, decodeId_hexId]

theorem hex_injective {user other : UserId} (same : user.hex = other.hex) : user = other := by
  rw [← decodeUser_hex user, same, decodeUser_hex]

/-- What tells one save from another. Saves without an id belong to a user alone. -/
structure Key where
  saveId : UInt64
  userId : UserId
  titleId : UInt64
  deriving DecidableEq

def key (descriptor : SaveDescriptor) : Key where
  saveId := descriptor.saveId
  userId := descriptor.userId
  titleId := if descriptor.saveId = 0 then 0 else descriptor.titleId

variable {descriptor other : SaveDescriptor}

theorem key_eq_iff : key descriptor = key other ↔
    descriptor.saveId = other.saveId ∧ descriptor.userId = other.userId ∧
      (descriptor.saveId = 0 ∨ descriptor.titleId = other.titleId) := by
  simp only [key, Key.mk.injEq]
  constructor
  · rintro ⟨ids, users, titles⟩
    refine ⟨ids, users, ?_⟩
    by_cases zero : descriptor.saveId = 0
    · exact .inl zero
    · rw [if_neg zero, if_neg (ids ▸ zero)] at titles
      exact .inr titles
  · rintro ⟨ids, users, rest⟩
    refine ⟨ids, users, ?_⟩
    rcases rest with zero | titles
    · rw [if_pos zero, if_pos (ids ▸ zero)]
    · rw [ids, titles]

theorem location_ne_nil (descriptor : SaveDescriptor) : location descriptor ≠ [] := by
  rw [location]
  split <;> simp

theorem location_prefix_iff : location descriptor <+: location other ↔ key descriptor = key other := by
  rw [key_eq_iff]
  constructor
  · intro before
    by_cases zero : descriptor.saveId = 0 <;> by_cases also : other.saveId = 0
    all_goals
      simp only [location, zero, also, if_true, if_false, List.cons_prefix_cons, List.prefix_nil,
        List.nil_prefix, and_true, true_and] at before
    · exact ⟨zero.trans also.symm, hex_injective before, .inl zero⟩
    · exact absurd (hexId_injective before.1).symm also
    · simp at before
    · exact ⟨hexId_injective before.1, hex_injective before.2.1, .inr (hexId_injective before.2.2)⟩
  · rintro ⟨ids, users, rest⟩
    have same : location descriptor = location other := by
      by_cases zero : descriptor.saveId = 0
      · simp only [location, zero, users, ids ▸ zero, if_true]
      · have titles := rest.resolve_left zero
        simp only [location, ids, users, titles]
    exact same ▸ List.prefix_refl _

theorem location_eq_iff : location descriptor = location other ↔ key descriptor = key other := by
  refine ⟨fun same => location_prefix_iff.mp (same ▸ List.prefix_refl _), fun same => ?_⟩
  have one := location_prefix_iff.mpr same
  have back := location_prefix_iff.mpr same.symm
  exact one.eq_of_length (Nat.le_antisymm one.length_le back.length_le)

theorem utf8ByteSize_ofList {letters : List Char} (ones : ∀ c ∈ letters, c.utf8Size = 1) :
    (String.ofList letters).utf8ByteSize = letters.length := by
  induction letters with
  | nil => rfl
  | cons c rest ih =>
    have others := ih fun d listed => ones d (List.mem_cons_of_mem c listed)
    rw [String.ofList_cons, String.utf8ByteSize_append, String.utf8ByteSize_singleton, others,
      ones c List.mem_cons_self, List.length_cons, Nat.add_comm]

theorem usable_of_digits {letters : Text.Hex.Case} {digits : List Char} (proper : digits ≠ [])
    (short : digits.length ≤ 255) (all : ∀ c ∈ digits, ∃ value < 16, c = Text.Hex.digit letters value) :
    Usable (String.ofList digits) := by
  have noDot : '.' ∉ digits := by
    intro listed
    obtain ⟨value, small, same⟩ := all _ listed
    exact (Hex.digit_plain small).2.1 same.symm
  have apart : ∀ name : String, '.' ∈ name.toList → String.ofList digits ≠ name := by
    rintro name dotted rfl
    rw [String.toList_ofList] at dotted
    exact noDot dotted
  refine ⟨⟨fun empty => proper ?_, fun c listed => ?_⟩, ⟨apart _ (by decide), apart _ (by decide)⟩, ?_, ?_⟩
  · simpa using congrArg String.toList empty
  · rw [String.toList_ofList] at listed
    obtain ⟨value, small, rfl⟩ := all c listed
    exact (Hex.digit_plain small).1
  · intro listed
    rw [String.toList_ofList] at listed
    obtain ⟨value, small, same⟩ := all _ listed
    exact (Hex.digit_plain small).2.2.1 same.symm
  · rw [utf8ByteSize_ofList fun c listed => ?_]
    · exact short
    · obtain ⟨value, small, rfl⟩ := all c listed
      exact (Hex.digit_plain small).2.2.2

theorem usable_hexId (id : UInt64) : Usable (SaveDescriptor.hexId id) :=
  usable_of_digits (fun empty => by simpa using congrArg List.length empty) (by simp) fun _ => Hex.mem_fixed

theorem usable_hex (user : UserId) : Usable user.hex := by
  have digits : ∀ c ∈ Text.Hex.fixed .upper 16 (user.toBytes.slice 8 8).toNat ++
      Text.Hex.fixed .upper 16 (user.toBytes.slice 0 8).toNat,
      ∃ value < 16, c = Text.Hex.digit .upper value := by
    intro c listed
    rcases List.mem_append.mp listed with high | low
    · exact Hex.mem_fixed high
    · exact Hex.mem_fixed low
  exact usable_of_digits (fun empty => by simpa using congrArg List.length empty) (by simp) digits

theorem usable_of_mem_location {name : String} (listed : name ∈ location descriptor) : Usable name := by
  have top : Usable "save" := ⟨by decide, by decide, by decide, by decide⟩
  simp only [location] at listed
  split at listed <;> simp only [List.mem_cons, List.not_mem_nil, or_false] at listed
  · rcases listed with rfl | rfl | rfl
    · exact top
    · exact usable_hexId 0
    · exact usable_hex _
  · rcases listed with rfl | rfl | rfl | rfl
    · exact top
    · exact usable_hexId _
    · exact usable_hex _
    · exact usable_hexId _

theorem components_path (descriptor : SaveDescriptor) :
    Path.components (path descriptor) = location descriptor :=
  Path.components_join fun _ listed => (usable_of_mem_location listed).isName

theorem path_eq_iff : path descriptor = path other ↔ key descriptor = key other := by
  rw [← location_eq_iff]
  refine ⟨fun same => ?_, fun same => ?_⟩
  · rw [← components_path, same, components_path]
  · rw [path, same, path]

end GuestStorage.Save
