namespace GuestStorage

abbrev Bytes := List UInt8

namespace Bytes

def zeros (count : Nat) : Bytes := List.replicate count 0

@[simp] theorem length_zeros (count : Nat) : (zeros count).length = count := by simp [zeros]

def ofNat : Nat → Nat → Bytes
  | 0, _ => []
  | width + 1, n => UInt8.ofNat n :: ofNat width (n / 256)

@[simp] theorem length_ofNat (width n : Nat) : (ofNat width n).length = width := by
  induction width generalizing n with
  | zero => rfl
  | succ width ih => simp [ofNat, ih]

def toNat : Bytes → Nat
  | [] => 0
  | b :: rest => b.toNat + 256 * toNat rest

theorem toNat_ofNat (width n : Nat) : toNat (ofNat width n) = n % Nat.pow 256 width := by
  induction width generalizing n with
  | zero => simp [ofNat, toNat, Nat.mod_one]
  | succ width ih =>
    have power : Nat.pow 256 (width + 1) = 256 * Nat.pow 256 width := Nat.pow_succ'
    rw [ofNat, toNat, ih, UInt8.toNat_ofNat', power, Nat.mod_mul]

theorem ofNat_toNat (bytes : Bytes) : ofNat bytes.length (toNat bytes) = bytes := by
  induction bytes with
  | nil => rfl
  | cons b rest ih =>
    have bound := b.toNat_lt
    have low : (b.toNat + 256 * toNat rest) / 256 = toNat rest := by omega
    rw [List.length_cons, toNat, ofNat, low, ih]
    congr 1
    apply UInt8.toNat_inj.mp
    rw [UInt8.toNat_ofNat']
    omega

def slice (bytes : Bytes) (start count : Nat) : Bytes := (bytes.drop start).take count

def resize (bytes : Bytes) (length : Nat) : Bytes :=
  bytes.take length ++ zeros (length - bytes.length)

@[simp] theorem length_resize (bytes : Bytes) (length : Nat) : (resize bytes length).length = length := by
  rw [resize, List.length_append, List.length_take, length_zeros]
  omega

@[simp] theorem resize_self (bytes : Bytes) : resize bytes bytes.length = bytes := by
  simp [resize, zeros]

theorem resize_nil (length : Nat) : resize [] length = zeros length := by simp [resize]

/-- Replaces the bytes from `start` on, zero-filling a gap before them. -/
def overwrite (bytes : Bytes) (start : Nat) (data : Bytes) : Bytes :=
  (resize bytes start) ++ data ++ bytes.drop (start + data.length)

theorem length_overwrite (bytes : Bytes) (start : Nat) (data : Bytes) :
    (overwrite bytes start data).length = max bytes.length (start + data.length) := by
  rw [overwrite, List.length_append, List.length_append, length_resize, List.length_drop]
  omega

def sum (bytes : Bytes) : Nat := bytes.foldl (fun total b => total + b.toNat) 0

end Bytes

end GuestStorage
