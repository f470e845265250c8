import Mathlib.Data.List.Basic
import Mathlib.Data.Nat.Init
import Mathlib.Tactic.Common
import Mathlib.Tactic.Ring

/-!
# The protobuf wire format

A message is the concatenation of its fields.  A field begins with its number and
its wire type; an integer follows as a varint, and a string, a byte field or an
embedded message follows with its length in front.  A field without presence is
left out when it has its default value.
-/

namespace Protobuf

/-- Seven bits per byte, low group first; every byte but the last has its high
bit set. -/
def varint (value : Nat) : List UInt8 :=
  if value < 128 then
    [UInt8.ofNat value]
  else
    UInt8.ofNat (value % 128 + 128) :: varint (value / 128)
termination_by value

def wireVarint : Nat := 0

def wireLen : Nat := 2

/-- What a field begins with. -/
def key (number wireType : Nat) : List UInt8 := varint (8 * number + wireType)

/-- An unsigned integer without presence. -/
def uintField (number value : Nat) : List UInt8 :=
  if value = 0 then [] else key number wireVarint ++ varint value

/-- A field of bytes that is present: an embedded message, or an element of a
repeated field. -/
def lenField (number : Nat) (body : List UInt8) : List UInt8 :=
  key number wireLen ++ varint body.length ++ body

/-- A field of bytes without presence. -/
def bytesField (number : Nat) (body : List UInt8) : List UInt8 :=
  if body.isEmpty then [] else lenField number body

def varintLen (value : Nat) : Nat := (varint value).length

def uintFieldLen (number value : Nat) : Nat :=
  if value = 0 then 0 else varintLen (8 * number + wireVarint) + varintLen value

def lenFieldLen (number len : Nat) : Nat :=
  varintLen (8 * number + wireLen) + varintLen len + len

def bytesFieldLen (number len : Nat) : Nat :=
  if len = 0 then 0 else lenFieldLen number len

theorem varintLen_of_lt {value : Nat} (small : value < 128) : varintLen value = 1 := by
  rw [varintLen, varint, if_pos small, List.length_singleton]

theorem varintLen_of_le {value : Nat} (large : 128 ≤ value) :
    varintLen value = varintLen (value / 128) + 1 := by
  rw [varintLen, varint, if_neg (Nat.not_lt_of_le large), List.length_cons]
  rfl

/-- A varint has as many bytes as the value has groups of seven bits. -/
theorem varintLen_le_iff {value count : Nat} :
    varintLen value ≤ count + 1 ↔ value < 128 ^ (count + 1) := by
  induction count generalizing value with
  | zero =>
      rcases Nat.lt_or_ge value 128 with small | large
      · simp [varintLen_of_lt small, small]
      · have more : 0 < varintLen (value / 128) := by
          rw [varintLen, varint]
          split <;> simp
        rw [varintLen_of_le large]
        omega
  | succ count ih =>
      rcases Nat.lt_or_ge value 128 with small | large
      · have bound : 128 ^ 1 ≤ 128 ^ (count + 1 + 1) :=
          Nat.pow_le_pow_right (by omega) (by omega)
        rw [varintLen_of_lt small]
        constructor
        · intro _
          omega
        · intro _
          omega
      · rw [varintLen_of_le large, Nat.add_le_add_iff_right, ih,
          Nat.div_lt_iff_lt_mul (by omega)]
        rfl

theorem varintLen_mono {small large : Nat} (le : small ≤ large) :
    varintLen small ≤ varintLen large := by
  cases length : varintLen large with
  | zero =>
      rw [varintLen, varint] at length
      split at length <;> simp at length
  | succ count =>
      have below := varintLen_le_iff.mp (Nat.le_of_eq length)
      exact varintLen_le_iff.mpr (Nat.lt_of_le_of_lt le below)

@[simp]
theorem length_varint (value : Nat) : (varint value).length = varintLen value := rfl

@[simp]
theorem length_uintField (number value : Nat) :
    (uintField number value).length = uintFieldLen number value := by
  rw [uintField, uintFieldLen]
  split <;> simp [key]

@[simp]
theorem length_lenField (number : Nat) (body : List UInt8) :
    (lenField number body).length = lenFieldLen number body.length := by
  simp [lenField, lenFieldLen, key, Nat.add_assoc]

@[simp]
theorem length_bytesField (number : Nat) (body : List UInt8) :
    (bytesField number body).length = bytesFieldLen number body.length := by
  cases body <;> simp [bytesField, bytesFieldLen]

theorem uintFieldLen_mono {small large : Nat} (number : Nat) (le : small ≤ large) :
    uintFieldLen number small ≤ uintFieldLen number large := by
  rw [uintFieldLen, uintFieldLen]
  have longer := varintLen_mono le
  split
  · exact Nat.zero_le _
  · rw [if_neg (by omega)]
    omega

end Protobuf
