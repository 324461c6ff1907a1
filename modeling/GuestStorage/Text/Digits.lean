import GuestStorage.Bytes

namespace GuestStorage.Text.Hex

inductive Case where
  | lower
  | upper
  deriving DecidableEq

def digit (letters : Case) (value : Nat) : Char :=
  if value < 10 then Char.ofNat (48 + value)
  else match letters with
    | .lower => Char.ofNat (87 + value)
    | .upper => Char.ofNat (55 + value)

def digitValue? (c : Char) : Option Nat :=
  let n := c.toNat
  if 48 ≤ n ∧ n ≤ 57 then some (n - 48)
  else if 65 ≤ n ∧ n ≤ 70 then some (n - 55)
  else if 97 ≤ n ∧ n ≤ 102 then some (n - 87)
  else none

theorem digitValue?_digit (letters : Case) {value : Nat} (small : value < 16) :
    digitValue? (digit letters value) = some value := by
  have all : ∀ n : Fin 16, digitValue? (digit letters n) = some n.val := by
    cases letters <;> decide
  exact all ⟨value, small⟩

def fixed (letters : Case) : Nat → Nat → List Char
  | 0, _ => []
  | width + 1, n => fixed letters width (n / 16) ++ [digit letters (n % 16)]

@[simp] theorem length_fixed (letters : Case) (width n : Nat) : (fixed letters width n).length = width := by
  induction width generalizing n with
  | zero => rfl
  | succ width ih => simp [fixed, ih]

def width (n : Nat) : Nat := Nat.log2 n / 4 + 1

def minimal (letters : Case) (n : Nat) : List Char := fixed letters (width n) n

def ofByte (letters : Case) (b : UInt8) : List Char :=
  [digit letters (b.toNat / 16), digit letters (b.toNat % 16)]

def ofBytes (letters : Case) (bytes : Bytes) : String :=
  String.ofList (bytes.flatMap (ofByte letters))

/-- Reads pairs of digits of either case; an odd digit or another character has no reading. -/
def bytes? : List Char → Option Bytes
  | [] => some []
  | high :: low :: rest => do
    let h ← digitValue? high
    let l ← digitValue? low
    let others ← bytes? rest
    return UInt8.ofNat (16 * h + l) :: others
  | [_] => none

theorem bytes?_ofByte (letters : Case) (b : UInt8) (rest : List Char) :
    bytes? (ofByte letters b ++ rest) = (bytes? rest).map (b :: ·) := by
  have bound := b.toNat_lt
  have high : digitValue? (digit letters (b.toNat / 16)) = some (b.toNat / 16) :=
    digitValue?_digit letters (by omega)
  have low : digitValue? (digit letters (b.toNat % 16)) = some (b.toNat % 16) :=
    digitValue?_digit letters (by omega)
  have whole : UInt8.ofNat (16 * (b.toNat / 16) + b.toNat % 16) = b := by
    rw [Nat.div_add_mod, UInt8.ofNat_toNat]
  rw [ofByte, List.cons_append, List.singleton_append, bytes?, high, low]
  cases bytes? rest
  · rfl
  · exact congrArg (fun b => some (b :: _)) whole

theorem bytes?_flatMap_ofByte (letters : Case) (bytes : Bytes) :
    bytes? (bytes.flatMap (ofByte letters)) = some bytes := by
  induction bytes with
  | nil => rfl
  | cons b rest ih => rw [List.flatMap_cons, bytes?_ofByte, ih]; rfl

end GuestStorage.Text.Hex

namespace GuestStorage.Text.Decimal

/-- At least `width` digits, with zeros in front where the number has fewer. -/
def padded (width n : Nat) : String :=
  let digits := Nat.toDigits 10 n
  String.ofList (List.replicate (width - digits.length) '0' ++ digits)

end GuestStorage.Text.Decimal
