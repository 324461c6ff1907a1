import GuestStorage.Proofs.Save.Location
import Mathlib.Data.List.Forall2
import Mathlib.Data.Nat.Digits.Defs

namespace GuestStorage.Text.Hex

/-- A character that stands for a digit. -/
def Stands (c : Char) (value : Nat) : Prop := value < 16 ∧ ∃ letters, c = digit letters value

/-- A name of so many digits, highest first, that stands for a number. -/
def Numeral (width n : Nat) (name : String) : Prop :=
  ∃ digits, digits.length = width ∧ List.Forall₂ Stands name.toList digits ∧ Nat.ofDigits 16 digits.reverse = n

def halves (b : UInt8) : List Nat := [b.toNat / 16, b.toNat % 16]

variable {c : Char} {value width n : Nat} {text : List Char} {bytes : Bytes} {name : String}

theorem digitValue?_eq_some_iff : digitValue? c = some value ↔ Stands c value := by
  constructor
  · intro read
    have back : ∀ code, c.toNat = code → c = Char.ofNat code := fun code same => by rw [← same, Char.ofNat_toNat]
    simp only [digitValue?] at read
    split at read
    · obtain rfl := Option.some.inj read
      refine ⟨by omega, .upper, ?_⟩
      rw [digit, if_pos (by omega)]
      exact back _ (by omega)
    · split at read
      · obtain rfl := Option.some.inj read
        refine ⟨by omega, .upper, ?_⟩
        rw [digit, if_neg (by omega)]
        exact back _ (by omega)
      · split at read
        · obtain rfl := Option.some.inj read
          refine ⟨by omega, .lower, ?_⟩
          rw [digit, if_neg (by omega)]
          exact back _ (by omega)
        · cases read
  · rintro ⟨small, letters, rfl⟩
    exact digitValue?_digit letters small

theorem stands_unique : Relator.RightUnique Stands := by
  intro c value other stands also
  rw [← digitValue?_eq_some_iff] at stands also
  exact Option.some.inj (stands.symm.trans also)

theorem Stands.toUpper (stands : Stands c value) : c.toUpper = digit .upper value := by
  have all : ∀ letters, ∀ n : Fin 16, (digit letters n).toUpper = digit .upper n := by
    intro letters
    cases letters <;> decide
  obtain ⟨small, letters, rfl⟩ := stands
  exact all letters ⟨value, small⟩

theorem bytes?_eq_some_iff : bytes? text = some bytes ↔ List.Forall₂ Stands text (bytes.flatMap halves) := by
  induction text using bytes?.induct generalizing bytes with
  | case1 => cases bytes <;> simp [bytes?, halves]
  | case2 high low rest ih =>
    simp only [bytes?, Option.bind_eq_bind, Option.bind_eq_some_iff, digitValue?_eq_some_iff, ih]
    constructor
    · rintro ⟨h, first, l, second, others, further, whole⟩
      obtain rfl := Option.some.inj whole
      have value : (UInt8.ofNat (16 * h + l)).toNat = 16 * h + l := by
        rw [UInt8.toNat_ofNat']
        have := first.1
        have := second.1
        omega
      have top : (16 * h + l) / 16 = h := by have := second.1; omega
      have bottom : (16 * h + l) % 16 = l := by have := second.1; omega
      rw [List.flatMap_cons, halves, value, top, bottom]
      exact .cons first (.cons second further)
    · intro matched
      cases bytes with
      | nil => cases matched
      | cons b others =>
        rw [List.flatMap_cons, halves] at matched
        cases matched with
        | cons first matched =>
          cases matched with
          | cons second further =>
            refine ⟨_, first, _, second, others, further, ?_⟩
            rw [Nat.div_add_mod, UInt8.ofNat_toNat]
            rfl
  | case3 c =>
    cases bytes with
    | nil => simp [bytes?]
    | cons b others =>
      simp only [bytes?, reduceCtorEq, List.flatMap_cons, halves, false_iff]
      intro matched
      cases matched with
      | cons _ matched => cases matched

theorem bytes?_of_digits (even : text.length = 2 * width) (digits : ∀ c ∈ text, (digitValue? c).isSome = true) :
    ∃ bytes, bytes? text = some bytes ∧ bytes.length = width := by
  induction text using bytes?.induct generalizing width with
  | case1 =>
    refine ⟨[], rfl, ?_⟩
    rw [List.length_nil] at even
    simp only [List.length_nil]
    omega
  | case2 high low rest ih =>
    obtain ⟨less, rfl⟩ : ∃ less, width = less + 1 := ⟨width - 1, by simp only [List.length_cons] at even; omega⟩
    obtain ⟨h, first⟩ := Option.isSome_iff_exists.mp (digits high (by simp))
    obtain ⟨l, second⟩ := Option.isSome_iff_exists.mp (digits low (by simp))
    have fewer : rest.length = 2 * less := by
      simp only [List.length_cons] at even
      omega
    obtain ⟨others, further, long⟩ := ih fewer fun c among => digits c (by simp [among])
    refine ⟨UInt8.ofNat (16 * h + l) :: others, ?_, by rw [List.length_cons, long]⟩
    simp [bytes?, first, second, further]
  | case3 c =>
    rw [List.length_singleton] at even
    omega

theorem spelled_iff : Spelled (2 * width) name ↔
    ∃ bytes, bytes? name.toList = some bytes ∧ bytes.length = width := by
  constructor
  · rintro ⟨long, digits⟩
    exact bytes?_of_digits (by rw [String.length_toList, long]) digits
  · rintro ⟨bytes, read, rfl⟩
    obtain ⟨long, digits⟩ := spelled_of_bytes? read
    exact ⟨by rw [← String.length_toList, long], digits⟩

theorem length_flatMap_halves (bytes : Bytes) : (bytes.flatMap halves).length = 2 * bytes.length := by
  induction bytes with
  | nil => rfl
  | cons b rest ih =>
    rw [List.flatMap_cons, List.length_append, ih, List.length_cons, halves]
    simp only [List.length_cons, List.length_nil]
    omega

theorem ofDigits_halves (bytes : Bytes) :
    Nat.ofDigits 16 (bytes.reverse.flatMap halves).reverse = Bytes.toNat bytes := by
  induction bytes with
  | nil => rfl
  | cons b rest ih =>
    rw [List.reverse_cons, List.flatMap_append, List.flatMap_singleton, List.reverse_append, halves,
      Nat.ofDigits_append, ih, Bytes.toNat]
    simp only [List.reverse_cons, List.reverse_nil, List.nil_append, List.singleton_append, Nat.ofDigits_cons,
      Nat.ofDigits_nil, List.length_cons, List.length_nil]
    omega

theorem numeral_of_bytes? (read : bytes? name.toList = some bytes) :
    Numeral (2 * bytes.length) n name ↔ Bytes.toNat bytes.reverse = n := by
  have matched := bytes?_eq_some_iff.mp read
  have value := ofDigits_halves bytes.reverse
  rw [List.reverse_reverse] at value
  constructor
  · rintro ⟨digits, -, also, rfl⟩
    rw [List.right_unique_forall₂' stands_unique also matched, value]
  · rintro rfl
    exact ⟨_, length_flatMap_halves bytes, matched, value⟩

theorem Numeral.spelled (numeral : Numeral width n name) : Spelled width name := by
  obtain ⟨digits, long, matched, -⟩ := numeral
  refine ⟨by rw [← String.length_toList, matched.length_eq, long], fun c among => ?_⟩
  obtain ⟨i, small, rfl⟩ := List.mem_iff_getElem.mp among
  have stands := matched.get small (by rw [← matched.length_eq]; exact small)
  exact Option.isSome_iff_exists.mpr ⟨_, digitValue?_eq_some_iff.mpr stands⟩

theorem toUpper_of_bytes? (read : bytes? name.toList = some bytes) : name.toUpper = ofBytes .upper bytes := by
  have printed : ∀ {text : List Char} {digits}, List.Forall₂ Stands text digits →
      text.map Char.toUpper = digits.map (digit .upper) := by
    intro text digits matched
    induction matched with
    | nil => rfl
    | cons first _ ih => rw [List.map_cons, List.map_cons, first.toUpper, ih]
  have pairs : (bytes.flatMap halves).map (digit .upper) = bytes.flatMap (ofByte .upper) := by
    rw [List.map_flatMap]
    rfl
  rw [← String.toList_inj, String.toUpper, String.toList_map, printed (bytes?_eq_some_iff.mp read), pairs, ofBytes,
    String.toList_ofList]

end GuestStorage.Text.Hex
