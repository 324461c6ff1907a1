import GuestStorage.Bytes

namespace GuestStorage.Text.Utf8

def replacement : Char := Char.ofNat 0xFFFD

def inRange (low high : Nat) (b : UInt8) : Bool := low ≤ b.toNat && b.toNat ≤ high

/-- The bytes allowed second after a leading byte, and how many bytes follow that leading byte. -/
def afterLead? (lead : UInt8) : Option (Nat × Nat × Nat) :=
  let n := lead.toNat
  if 0xC2 ≤ n ∧ n ≤ 0xDF then some (0x80, 0xBF, 1)
  else if n = 0xE0 then some (0xA0, 0xBF, 2)
  else if n = 0xED then some (0x80, 0x9F, 2)
  else if 0xE1 ≤ n ∧ n ≤ 0xEF then some (0x80, 0xBF, 2)
  else if n = 0xF0 then some (0x90, 0xBF, 3)
  else if 0xF1 ≤ n ∧ n ≤ 0xF3 then some (0x80, 0xBF, 3)
  else if n = 0xF4 then some (0x80, 0x8F, 3)
  else none

/-- The payload bits of a leading byte that is followed by `count` others. -/
def leadBits (lead : UInt8) (count : Nat) : Nat :=
  match count with
  | 1 => lead.toNat % 32
  | 2 => lead.toNat % 16
  | _ => lead.toNat % 8

/-- Reads continuation bytes into `value` and says how many it took; `none` for the value when one is missing. -/
def continuation : Nat → Nat → Nat → Nat → Bytes → Option Nat × Nat
  | 0, _, _, value, _ => (some value, 0)
  | _ + 1, _, _, _, [] => (none, 0)
  | more + 1, low, high, value, b :: rest =>
    if inRange low high b then
      let (result, used) := continuation more 0x80 0xBF (value * 64 + b.toNat % 64) rest
      (result, used + 1)
    else (none, 0)

/-- The first character of a byte string, and how many bytes after the first it takes. -/
def step (lead : UInt8) (rest : Bytes) : Option Char × Nat :=
  if lead.toNat < 0x80 then (some (Char.ofNat lead.toNat), 0)
  else
    match afterLead? lead with
    | none => (none, 0)
    | some (low, high, count) =>
      let (value, used) := continuation count low high (leadBits lead count) rest
      (value.map Char.ofNat, used)

/-- The characters of a byte string after `skip` bytes that a character before them has taken. -/
def charsAfter : Nat → Bytes → List (Option Char)
  | _, [] => []
  | skip + 1, _ :: rest => charsAfter skip rest
  | 0, lead :: rest =>
    let (c, used) := step lead rest
    c :: charsAfter used rest

/-- The text of a byte string, with replacement characters where it is ill-formed. -/
def decodeLossy (bytes : Bytes) : String :=
  String.ofList ((charsAfter 0 bytes).map (·.getD replacement))

def decode? (bytes : Bytes) : Option String :=
  ((charsAfter 0 bytes).mapM id).map String.ofList

def encode (text : String) : Bytes := text.toList.flatMap String.utf8EncodeChar

@[simp] theorem encode_append (a b : String) : encode (a ++ b) = encode a ++ encode b := by
  simp [encode]

def decodeTerminated (bytes : Bytes) : String :=
  decodeLossy (bytes.takeWhile (· != 0))

end GuestStorage.Text.Utf8
