import GuestStorage.Proofs.Text.Numerals
import GuestStorage.Proofs.Wire.Records
import GuestStorage.Tool.Commands

namespace GuestStorage

open Wire (SaveDescriptor UserId)

namespace Save

open Text.Hex (Numeral)

variable {name : String} {bytes : Bytes}

theorem decodeId_cases (name : String) :
    Numeral 16 (decodeId name).toNat name ∨ decodeId name = 0 ∧ ∀ n, ¬ Numeral 16 n name := by
  by_cases spelled : Text.Hex.Spelled 16 name
  · left
    have pairs : Text.Hex.Spelled (2 * 8) name := spelled
    obtain ⟨bytes, read, eight⟩ := Text.Hex.spelled_iff.mp pairs
    have numeral := Text.Hex.numeral_of_bytes? (n := (decodeId name).toNat) read
    have small := Bytes.toNat_lt bytes.reverse
    rw [List.length_reverse, eight] at small
    rw [eight] at numeral
    rw [numeral, decodeId, read]
    simp only [eight, if_true]
    rw [UInt64.toNat_ofNat_of_lt' small]
  · exact .inr ⟨decodeId_eq_zero spelled, fun n numeral => spelled numeral.spelled⟩

theorem toBytes_ofBytes (sixteen : bytes.length = 16) : (UserId.ofBytes bytes).toBytes = bytes := by
  refine List.ext_getElem (by simp [UserId.toBytes, sixteen]) fun i _ within => ?_
  simp [UserId.ofBytes, UserId.toBytes, within]

/-- A name of 32 digits is read as the user whose directory has that name in capital letters, any other as nobody. -/
theorem decodeUser_cases (name : String) :
    (∃ n, Numeral 32 n name) ∧ (decodeUser name).hex = name.toUpper ∨
      decodeUser name = .zero ∧ ∀ n, ¬ Numeral 32 n name := by
  by_cases spelled : Text.Hex.Spelled 32 name
  · left
    have pairs : Text.Hex.Spelled (2 * 16) name := spelled
    obtain ⟨bytes, read, sixteen⟩ := Text.Hex.spelled_iff.mp pairs
    have numeral := (Text.Hex.numeral_of_bytes? read).mpr rfl
    rw [sixteen] at numeral
    refine ⟨⟨_, numeral⟩, ?_⟩
    have stored : (decodeUser name).toBytes.reverse = bytes := by
      rw [decodeUser, read]
      simp only [sixteen, if_true]
      rw [toBytes_ofBytes (by rw [List.length_reverse, sixteen]), List.reverse_reverse]
    rw [hex_eq_ofBytes, stored, Text.Hex.toUpper_of_bytes? read]
  · exact .inr ⟨decodeUser_eq_zero spelled, fun n numeral => spelled numeral.spelled⟩

end Save

namespace Tool

def columns (line : String) : List String := (Text.cut (· == '\t') line.toList).map String.ofList

theorem columns_tab {first : String} (plain : '\t' ∉ first.toList) (rest : String) :
    columns (first ++ "\t" ++ rest) = first :: columns rest := by
  have whole : ∀ c ∈ first.toList, (c == '\t') = false := by
    intro c among
    rw [beq_eq_false_iff_ne]
    rintro rfl
    exact plain among
  rw [columns, String.toList_append, String.toList_append, List.append_assoc]
  rw [show "\t".toList ++ rest.toList = '\t' :: rest.toList from rfl, Text.cut_append_cons (by rfl),
    Text.cut_eq_singleton whole, List.singleton_append, List.map_cons, String.ofList_toList, columns]

theorem columns_intercalate {cells : List String} (plain : ∀ cell ∈ cells, '\t' ∉ cell.toList) (last ending : String) :
    columns ("\t".intercalate (cells ++ [last]) ++ ending) = cells ++ columns (last ++ ending) := by
  induction cells with
  | nil => rw [List.nil_append, String.intercalate_singleton, List.nil_append]
  | cons cell rest ih =>
    rw [List.cons_append, String.intercalate_cons_of_ne_nil (by simp), String.append_assoc,
      columns_tab (plain cell List.mem_cons_self), ih fun other among => plain other (List.mem_cons_of_mem cell among)]
    rfl

theorem fixed_plain (letters : Text.Hex.Case) (width n : Nat) : '\t' ∉ Text.Hex.fixed letters width n := by
  intro among
  obtain ⟨value, small, same⟩ := Text.Hex.mem_fixed among
  have read := Text.Hex.digitValue?_digit letters small
  rw [← same] at read
  cases read

theorem columns_recordLine (info : Wire.SaveInfo) :
    columns (recordLine info) = [info.space.name, info.kind.name, SaveDescriptor.hexId info.saveId,
      SaveDescriptor.hexId info.titleId, info.userId.hex] ++ columns (toString info.imageSize.toNat ++ "\n") := by
  have user : userText info.userId = info.userId.hex := (Save.hex_eq_ofBytes info.userId).symm
  have ids : ∀ id, '\t' ∉ (SaveDescriptor.hexId id).toList := fun id => by
    rw [SaveDescriptor.hexId, String.toList_ofList]
    exact fixed_plain _ _ _
  rw [recordLine, user]
  refine columns_intercalate (fun cell (among : cell ∈ [_, _, _, _, _]) => ?_) _ _
  simp only [List.mem_cons, List.not_mem_nil, or_false] at among
  rcases among with rfl | rfl | rfl | rfl | rfl
  · cases info.space <;> decide
  · cases info.kind <;> decide
  · exact ids _
  · exact ids _
  · rw [UserId.hex, String.toList_ofList, List.mem_append]
    exact fun among => among.elim (fixed_plain _ _ _) (fixed_plain _ _ _)

/-- Ids are read back from names, the tool prints users as their directories are named, and a name that is read as
    an id is a number written with so many digits, in letters of either case. -/
theorem ids_read_back :
    (∀ id, Save.decodeId (SaveDescriptor.hexId id) = id) ∧
    (∀ user : UserId, Save.decodeUser user.hex = user) ∧
    (∀ info : Wire.SaveInfo, (columns (recordLine info))[4]? = some info.userId.hex) ∧
    (∀ name, Text.Hex.Numeral 16 (Save.decodeId name).toNat name ∨
      Save.decodeId name = 0 ∧ ∀ n, ¬ Text.Hex.Numeral 16 n name) ∧
    ∀ name, (∃ n, Text.Hex.Numeral 32 n name) ∧ (Save.decodeUser name).hex = name.toUpper ∨
      Save.decodeUser name = .zero ∧ ∀ n, ¬ Text.Hex.Numeral 32 n name := by
  refine ⟨Save.decodeId_hexId, Save.decodeUser_hex, fun info => ?_, Save.decodeId_cases, Save.decodeUser_cases⟩
  rw [columns_recordLine]
  rfl

end Tool

end GuestStorage
