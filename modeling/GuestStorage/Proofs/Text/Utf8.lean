import GuestStorage.Text.Utf8
import Mathlib.Data.List.Induction

namespace GuestStorage.Text.Utf8

open String (utf8EncodeChar)

variable {c : Char} {chars before behind : List Char} {lead : UInt8} {more tails rest : Bytes} {value room : Nat}

section Continuation

theorem continuation_append (each : ∀ b ∈ tails, inRange 0x80 0xBF b = true) (rest : Bytes) :
    continuation tails.length 0x80 0xBF value (tails ++ rest) =
      (some (tails.foldl (fun value b => value * 64 + b.toNat % 64) value), tails.length) := by
  induction tails generalizing value with
  | nil => rfl
  | cons b tails ih =>
    have others := fun b' listed => each b' (List.mem_cons_of_mem b listed)
    rw [List.cons_append, List.length_cons, continuation, if_pos (each b List.mem_cons_self), ih others]
    rfl

theorem continuation_of_short {count : Nat} (each : ∀ b ∈ tails, inRange 0x80 0xBF b = true)
    (short : tails.length < count) : continuation count 0x80 0xBF value tails = (none, tails.length) := by
  induction tails generalizing value count with
  | nil =>
    obtain ⟨less, rfl⟩ : ∃ less, count = less + 1 := ⟨count - 1, by simp at short; omega⟩
    rfl
  | cons b tails ih =>
    rw [List.length_cons] at short
    obtain ⟨less, rfl⟩ : ∃ less, count = less + 1 := ⟨count - 1, by omega⟩
    have others := fun b' listed => each b' (List.mem_cons_of_mem b listed)
    rw [continuation, if_pos (each b List.mem_cons_self), ih others (Nat.lt_of_succ_lt_succ short)]
    rfl

end Continuation

section Characters

/-- A character is a byte alone, or a leading byte and as many others as that one announces. -/
inductive Written (c : Char) : Bytes → Prop
  | alone (ascii : c.toNat < 0x80) : Written c [UInt8.ofNat c.toNat]
  | led {lead first : UInt8} {rest : Bytes} {low high : Nat} (leads : 0x80 ≤ lead.toNat)
      (announced : afterLead? lead = some (low, high, rest.length + 1)) (above : 0x80 ≤ low)
      (second : inRange low high first = true) (others : ∀ b ∈ rest, inRange 0x80 0xBF b = true)
      (bits : rest.foldl (fun value b => value * 64 + b.toNat % 64)
        (leadBits lead (rest.length + 1) * 64 + first.toNat % 64) = c.toNat) : Written c (lead :: first :: rest)

theorem afterLead?_two {n : Nat} (many : 2 ≤ n) (few : n < 32) :
    afterLead? (UInt8.ofNat (n + 0xC0)) = some (0x80, 0xBF, 1) := by
  have all : ∀ n : Fin 32, 2 ≤ n.val → afterLead? (UInt8.ofNat (n + 0xC0)) = some (0x80, 0xBF, 1) := by decide
  exact all ⟨n, few⟩ many

theorem afterLead?_three {n : Nat} (few : n < 16) : afterLead? (UInt8.ofNat (n + 0xE0)) =
    some (if n = 0 then 0xA0 else 0x80, if n = 13 then 0x9F else 0xBF, 2) := by
  have all : ∀ n : Fin 16, afterLead? (UInt8.ofNat (n + 0xE0)) =
    some (if n.val = 0 then 0xA0 else 0x80, if n.val = 13 then 0x9F else 0xBF, 2) := by decide
  exact all ⟨n, few⟩

theorem afterLead?_four {n : Nat} (few : n < 5) : afterLead? (UInt8.ofNat (n + 0xF0)) =
    some (if n = 0 then 0x90 else 0x80, if n = 4 then 0x8F else 0xBF, 3) := by
  have all : ∀ n : Fin 5, afterLead? (UInt8.ofNat (n + 0xF0)) =
    some (if n.val = 0 then 0x90 else 0x80, if n.val = 4 then 0x8F else 0xBF, 3) := by decide
  exact all ⟨n, few⟩

theorem inRange_iff {low high : Nat} {b : UInt8} : inRange low high b = true ↔ low ≤ b.toNat ∧ b.toNat ≤ high := by
  rw [inRange, Bool.and_eq_true, decide_eq_true_eq, decide_eq_true_eq]

theorem toNat_ofNat_of_lt {n : Nat} (small : n < 256) : (UInt8.ofNat n).toNat = n :=
  UInt8.toNat_ofNat_of_lt' small

theorem written (c : Char) : Written c (utf8EncodeChar c) := by
  have valid : c.toNat < 0xD800 ∨ 0xDFFF < c.toNat ∧ c.toNat < 0x110000 := c.valid
  have byte : ∀ n, (UInt8.ofNat (n % 64 + 0x80)).toNat = n % 64 + 0x80 := fun n => toNat_ofNat_of_lt (by omega)
  have tail : ∀ n, inRange 0x80 0xBF (UInt8.ofNat (n % 64 + 0x80)) = true := by
    intro n
    rw [inRange_iff, byte]
    omega
  rw [utf8EncodeChar, show c.val.toNat = c.toNat from rfl]
  generalize number : c.toNat = n at valid
  split
  · rename_i ascii
    exact number ▸ .alone (by omega)
  split
  · have few : n / 64 % 32 = n / 64 := by omega
    have lead : (UInt8.ofNat (n / 64 + 0xC0)).toNat = n / 64 + 0xC0 := toNat_ofNat_of_lt (by omega)
    rw [few]
    refine .led (by omega) (afterLead?_two (by omega) (by omega)) (by omega) (tail n) (List.forall_mem_nil _) ?_
    simp only [List.foldl, List.length, leadBits, lead, byte, number]
    omega
  split
  · have few : n / 4096 % 16 = n / 4096 := by omega
    have lead : (UInt8.ofNat (n / 4096 + 0xE0)).toNat = n / 4096 + 0xE0 := toNat_ofNat_of_lt (by omega)
    rw [few]
    refine .led (by omega) (afterLead?_three (by omega)) (by split <;> omega) ?_ (List.forall_mem_singleton.mpr (tail n)) ?_
    · rw [inRange_iff, byte]
      constructor <;> split <;> omega
    · simp only [List.foldl, List.length, leadBits, lead, byte, number]
      omega
  · have few : n / 262144 % 8 = n / 262144 := by omega
    have lead : (UInt8.ofNat (n / 262144 + 0xF0)).toNat = n / 262144 + 0xF0 := toNat_ofNat_of_lt (by omega)
    rw [few]
    refine .led (by omega) (afterLead?_four (by omega)) (by split <;> omega) ?_
      (List.forall_mem_cons.mpr ⟨tail _, List.forall_mem_singleton.mpr (tail n)⟩) ?_
    · rw [inRange_iff, byte]
      constructor <;> split <;> omega
    · simp only [List.foldl, List.length, leadBits, lead, byte, number]
      omega

theorem ascii_mem_encodeChar {a : Char} (ascii : a.toNat < 0x80) :
    UInt8.ofNat a.toNat ∈ utf8EncodeChar c ↔ c = a := by
  have byte : (UInt8.ofNat a.toNat).toNat = a.toNat := toNat_ofNat_of_lt (by omega)
  have apart : ∀ {b : UInt8}, 0x80 ≤ b.toNat → b ≠ UInt8.ofNat a.toNat := by
    rintro b large rfl
    omega
  constructor
  · intro listed
    have form := written c
    generalize utf8EncodeChar c = bytes at form listed
    cases form with
    | alone own =>
      have same := congrArg UInt8.toNat (List.mem_singleton.mp listed)
      rw [byte, toNat_ofNat_of_lt (by omega)] at same
      exact Char.toNat_inj.mp same.symm
    | led leads announced above second others bits =>
      have first := Nat.le_trans above (inRange_iff.mp second).1
      rcases List.mem_cons.mp listed with here | listed
      · exact absurd here.symm (apart leads)
      rcases List.mem_cons.mp listed with here | listed
      · exact absurd here.symm (apart first)
      · exact absurd rfl (apart (inRange_iff.mp (others _ listed)).1)
  · rintro rfl
    rw [utf8EncodeChar, if_pos (show c.val.toNat ≤ 0x7F from Nat.le_of_lt_succ ascii)]
    exact List.mem_singleton_self _

theorem step_append (spelled : utf8EncodeChar c = lead :: more) (rest : Bytes) :
    step lead (more ++ rest) = (some c, more.length) := by
  have form := written c
  rw [spelled] at form
  cases form with
  | alone ascii =>
    rw [step, toNat_ofNat_of_lt (by omega), if_pos ascii, Char.ofNat_toNat]
    rfl
  | @led _ first tails low high leads announced above second others bits =>
    rw [step, if_neg (by omega), announced]
    simp only [List.cons_append, continuation, if_pos second, continuation_append others rest, bits,
      Option.map_some, Char.ofNat_toNat, List.length_cons]

theorem step_of_short {front : Bytes} (spelled : utf8EncodeChar c = lead :: more) (part : front <+: more)
    (short : front.length < more.length) : step lead front = (none, front.length) := by
  have form := written c
  rw [spelled] at form
  cases form with
  | alone => simp at short
  | @led _ first tails low high leads announced above second others bits =>
    rw [step, if_neg (by omega), announced]
    cases front with
    | nil => rfl
    | cons b front =>
      obtain ⟨rfl, inside⟩ := List.cons_prefix_cons.mp part
      have inner : ∀ b ∈ front, inRange 0x80 0xBF b = true := fun b' listed => others b' (inside.subset listed)
      simp only [continuation, if_pos second, continuation_of_short inner (Nat.lt_of_succ_lt_succ short),
        Option.map_none, List.length_cons]

end Characters

section Texts

theorem charsAfter_eq_drop (skip : Nat) (bytes : Bytes) : charsAfter skip bytes = charsAfter 0 (bytes.drop skip) := by
  induction bytes generalizing skip with
  | nil => simp [charsAfter]
  | cons b rest ih =>
    cases skip with
    | zero => rfl
    | succ skip => exact ih skip

theorem charsAfter_encodeChar_append (c : Char) (rest : Bytes) :
    charsAfter 0 (utf8EncodeChar c ++ rest) = some c :: charsAfter 0 rest := by
  obtain ⟨lead, more, spelled⟩ := List.exists_cons_of_ne_nil (String.utf8EncodeChar_ne_nil (c := c))
  rw [spelled, List.cons_append, charsAfter, step_append spelled]
  simp only [charsAfter_eq_drop more.length, List.drop_left]

theorem charsAfter_flatMap_append (chars : List Char) (rest : Bytes) :
    charsAfter 0 (chars.flatMap utf8EncodeChar ++ rest) = chars.map some ++ charsAfter 0 rest := by
  induction chars with
  | nil => rfl
  | cons c chars ih =>
    rw [List.flatMap_cons, List.append_assoc, charsAfter_encodeChar_append, ih]
    rfl

theorem charsAfter_take_encodeChar {count : Nat} (begun : 0 < count) (short : count < c.utf8Size) :
    charsAfter 0 ((utf8EncodeChar c).take count) = [none] := by
  obtain ⟨lead, more, spelled⟩ := List.exists_cons_of_ne_nil (String.utf8EncodeChar_ne_nil (c := c))
  have length := String.length_utf8EncodeChar c
  rw [spelled, List.length_cons] at length
  obtain ⟨less, rfl⟩ : ∃ less, count = less + 1 := ⟨count - 1, by omega⟩
  have fewer : (more.take less).length < more.length := by
    rw [List.length_take]
    omega
  rw [spelled, List.take_succ_cons, charsAfter, step_of_short spelled (List.take_prefix less more) fewer]
  simp only [charsAfter_eq_drop (List.take less more).length, List.drop_length]
  rfl

theorem decodeLossy_flatMap (chars : List Char) : decodeLossy (chars.flatMap utf8EncodeChar) = String.ofList chars := by
  have read := charsAfter_flatMap_append chars []
  rw [List.append_nil] at read
  rw [decodeLossy, read, charsAfter, List.append_nil, List.map_map]
  exact congrArg String.ofList (List.map_id chars)

theorem decodeLossy_append_take (chars : List Char) {count : Nat} (begun : 0 < count) (short : count < c.utf8Size) :
    decodeLossy (chars.flatMap utf8EncodeChar ++ (utf8EncodeChar c).take count) =
      String.ofList (chars ++ [replacement]) := by
  rw [decodeLossy, charsAfter_flatMap_append, charsAfter_take_encodeChar begun short, List.map_append, List.map_map]
  exact congrArg (fun front => String.ofList (front ++ [replacement])) (List.map_id chars)

theorem length_flatMap (chars : List Char) :
    (chars.flatMap utf8EncodeChar).length = (String.ofList chars).utf8ByteSize := by
  induction chars with
  | nil => rfl
  | cons c chars ih =>
    rw [List.flatMap_cons, List.length_append, ih, String.length_utf8EncodeChar, String.ofList_cons,
      String.utf8ByteSize_append, String.utf8ByteSize_singleton]

theorem takeWhile_flatMap (chars : List Char) : (chars.flatMap utf8EncodeChar).takeWhile (· != 0) =
    (chars.takeWhile (· != '\x00')).flatMap utf8EncodeChar := by
  induction chars with
  | nil => rfl
  | cons c chars ih =>
    by_cases zero : c = '\x00'
    · subst zero
      rfl
    · have clean : ∀ b ∈ utf8EncodeChar c, (b != 0) = true := by
        intro b listed
        rw [bne_iff_ne]
        rintro rfl
        exact zero ((ascii_mem_encodeChar (a := '\x00') (by decide)).mp listed)
      rw [List.flatMap_cons, List.takeWhile_append_of_pos clean, ih, List.takeWhile_cons_of_pos (by simpa using zero),
        List.flatMap_cons]

structure Cut (room : Nat) (chars before : List Char) (c : Char) : Prop where
  isPrefix : before ++ [c] <+: chars
  fits : (String.ofList before).utf8ByteSize ≤ room
  lacks : room < (String.ofList before).utf8ByteSize + c.utf8Size

theorem utf8ByteSize_append_singleton (chars : List Char) (c : Char) :
    (String.ofList (chars ++ [c])).utf8ByteSize = (String.ofList chars).utf8ByteSize + c.utf8Size := by
  rw [String.ofList_append, String.utf8ByteSize_append, String.ofList_cons, String.utf8ByteSize_append,
    String.utf8ByteSize_singleton]
  rfl

theorem utf8ByteSize_le_of_isPrefix (part : before <+: chars) :
    (String.ofList before).utf8ByteSize ≤ (String.ofList chars).utf8ByteSize := by
  obtain ⟨behind, rfl⟩ := part
  rw [String.ofList_append, String.utf8ByteSize_append]
  exact Nat.le_add_right _ _

theorem fits_or_cut (chars : List Char) (room : Nat) :
    (String.ofList chars).utf8ByteSize ≤ room ∨ ∃ before c, Cut room chars before c := by
  induction chars using List.reverseRecOn with
  | nil => exact .inl (Nat.zero_le _)
  | append_singleton chars c ih =>
    rcases ih with fits | ⟨before, first, cut⟩
    · by_cases also : (String.ofList chars).utf8ByteSize + c.utf8Size ≤ room
      · exact .inl (utf8ByteSize_append_singleton chars c ▸ also)
      · exact .inr ⟨chars, c, List.prefix_refl _, fits, Nat.lt_of_not_le also⟩
    · exact .inr ⟨before, first, cut.isPrefix.trans (List.prefix_append _ _), cut.fits, cut.lacks⟩

namespace Cut

variable {before' : List Char} {c' : Char}

theorem lt_utf8ByteSize (cut : Cut room chars before c) : room < (String.ofList chars).utf8ByteSize :=
  Nat.lt_of_lt_of_le (utf8ByteSize_append_singleton before c ▸ cut.lacks) (utf8ByteSize_le_of_isPrefix cut.isPrefix)

theorem length_le (cut : Cut room chars before c) (part : before' <+: chars)
    (fits : (String.ofList before').utf8ByteSize ≤ room) : before'.length ≤ before.length := by
  refine Nat.not_lt.mp fun longer => ?_
  have inside : before ++ [c] <+: before' :=
    List.prefix_of_prefix_length_le cut.isPrefix part (by rw [List.length_append]; exact longer)
  have more := utf8ByteSize_le_of_isPrefix inside
  rw [utf8ByteSize_append_singleton] at more
  exact absurd (Nat.le_trans more fits) (Nat.not_le.mpr cut.lacks)

theorem unique (cut : Cut room chars before c) (cut' : Cut room chars before' c') : before = before' ∧ c = c' := by
  have part := (List.prefix_append before [c]).trans cut.isPrefix
  have part' := (List.prefix_append before' [c']).trans cut'.isPrefix
  have length := Nat.le_antisymm (cut'.length_le part cut.fits) (cut.length_le part' cut'.fits)
  have same : before ++ [c] = before' ++ [c'] := by
    refine (List.prefix_of_prefix_length_le cut.isPrefix cut'.isPrefix ?_).eq_of_length ?_ <;>
      simp [length]
  obtain ⟨rfl, last⟩ := List.append_inj same length
  exact ⟨rfl, List.head_eq_of_cons_eq last⟩

end Cut

theorem decodeLossy_take_of_fits (fits : (String.ofList chars).utf8ByteSize ≤ room) :
    decodeLossy ((chars.flatMap utf8EncodeChar).take room) = String.ofList chars := by
  rw [List.take_of_length_le (length_flatMap chars ▸ fits), decodeLossy_flatMap]

theorem decodeLossy_take_of_cut (cut : Cut room chars before c) :
    decodeLossy ((chars.flatMap utf8EncodeChar).take room) =
      String.ofList (before ++ if (String.ofList before).utf8ByteSize < room then [replacement] else []) := by
  obtain ⟨behind, rfl⟩ := cut.isPrefix
  have fits := cut.fits
  have lacks := cut.lacks
  have inside : (((before ++ [c]) ++ behind).flatMap utf8EncodeChar).take room = before.flatMap utf8EncodeChar ++
      (utf8EncodeChar c).take (room - (String.ofList before).utf8ByteSize) := by
    rw [List.flatMap_append, List.flatMap_append, List.flatMap_singleton, List.append_assoc, List.take_append,
      length_flatMap, List.take_of_length_le (length_flatMap before ▸ fits),
      List.take_append_of_le_length (by rw [String.length_utf8EncodeChar]; omega)]
  rw [inside]
  split
  · exact decodeLossy_append_take before (by omega) (by omega)
  · rw [Nat.sub_eq_zero_of_le (by omega), List.take_zero, List.append_nil, List.append_nil, decodeLossy_flatMap]

end Texts

end GuestStorage.Text.Utf8
