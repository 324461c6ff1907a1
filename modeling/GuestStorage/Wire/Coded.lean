import GuestStorage.Text.Digits

namespace GuestStorage.Wire

/-- Why a number or a byte string is not the record it should be. -/
inductive DecodeError where
  | unknownValue (kind : String) (value : Nat)
  | truncated (kind : String) (expected actual : Nat)
  deriving DecidableEq

def DecodeError.message : DecodeError → String
  | .unknownValue kind value =>
    "unknown " ++ kind ++ " value 0x" ++ String.ofList (Text.Hex.minimal .lower value)
  | .truncated kind expected actual =>
    kind ++ " record needs " ++ toString expected ++ " bytes, got " ++ toString actual

/-- A closed set of values, each with its own number and name. -/
class Coded (α : Type) where
  kind : String
  values : List α
  raw : α → Nat
  name : α → String

variable {α : Type} [Coded α]

def ofRaw (value : Nat) : Except DecodeError α :=
  match (Coded.values (α := α)).find? (Coded.raw · == value) with
  | some v => .ok v
  | none => .error (.unknownValue (Coded.kind α) value)

theorem raw_of_ofRaw {value : Nat} {v : α} (found : ofRaw value = .ok v) : Coded.raw v = value := by
  unfold ofRaw at found
  split at found
  · rename_i w reached
    cases found
    simpa using List.find?_some reached
  · cases found

theorem ofRaw_eq_error_iff {value : Nat} {cause : DecodeError} :
    (ofRaw value : Except DecodeError α) = .error cause ↔
      cause = .unknownValue (Coded.kind α) value ∧ ∀ v ∈ (Coded.values : List α), Coded.raw v ≠ value := by
  unfold ofRaw
  split
  · rename_i w reached
    have carried := List.find?_some reached
    have listed := List.mem_of_find?_eq_some reached
    constructor
    · intro impossible
      cases impossible
    · intro ⟨_, absent⟩
      exact absurd (by simpa using carried) (absent w listed)
  · rename_i missing
    have absent : ∀ v ∈ (Coded.values : List α), Coded.raw v ≠ value := by
      simpa using List.find?_eq_none.mp missing
    constructor
    · intro equal
      cases equal
      exact ⟨rfl, absent⟩
    · intro ⟨equal, _⟩
      rw [equal]

def ofName? (name : String) : Option α :=
  (Coded.values (α := α)).find? (Coded.name · == name)

end GuestStorage.Wire
