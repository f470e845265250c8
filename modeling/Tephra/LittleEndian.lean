import Mathlib.Data.List.Basic
import Mathlib.Tactic.Ring

/-!
# Fixed-width little-endian integers

Every integer field of a binary format is a fixed number of bytes, least
significant byte first.  This file gives the encoder and the decoder on byte
lists and the two round trips, independently of any particular format.
-/

namespace LittleEndian

/-- The `width` low bytes of a natural number, least significant first. -/
def encode : Nat → Nat → List UInt8
  | 0, _ => []
  | width + 1, number => UInt8.ofNat (number % 256) :: encode width (number / 256)

/-- The natural number whose little-endian bytes are given. -/
def decode : List UInt8 → Nat
  | [] => 0
  | byte :: bytes => byte.toNat + 256 * decode bytes

@[simp]
theorem length_encode (width number : Nat) :
    (encode width number).length = width := by
  induction width generalizing number with
  | zero => rfl
  | succ width ih => simp [encode, ih]

theorem decode_lt (bytes : List UInt8) :
    decode bytes < 256 ^ bytes.length := by
  induction bytes with
  | nil => simp [decode]
  | cons byte bytes ih =>
      have byteBound := byte.toNat_lt
      rw [decode, List.length_cons, pow_succ]
      omega

theorem decode_lt_of_length {bytes : List UInt8} {width : Nat}
    (lengthEq : bytes.length = width) :
    decode bytes < 256 ^ width := by
  subst lengthEq
  exact decode_lt bytes

/-- A number that fits the width is read back from its bytes. -/
theorem decode_encode {width number : Nat} (fits : number < 256 ^ width) :
    decode (encode width number) = number := by
  induction width generalizing number with
  | zero =>
      simp at fits
      subst number
      rfl
  | succ width ih =>
      have tailFits : number / 256 < 256 ^ width := by
        rw [pow_succ] at fits
        omega
      have headByte : (UInt8.ofNat (number % 256)).toNat = number % 256 := by
        simp
      rw [encode, decode, ih tailFits, headByte]
      omega

theorem encode_decode (bytes : List UInt8) :
    encode bytes.length (decode bytes) = bytes := by
  induction bytes with
  | nil => rfl
  | cons byte bytes ih =>
      have byteBound := byte.toNat_lt
      have headEq : (byte.toNat + 256 * decode bytes) % 256 = byte.toNat := by
        omega
      have tailEq : (byte.toNat + 256 * decode bytes) / 256 = decode bytes := by
        omega
      rw [List.length_cons, decode, encode, headEq, tailEq, ih]
      simp

theorem encode_decode_of_length {bytes : List UInt8} {width : Nat}
    (lengthEq : bytes.length = width) :
    encode width (decode bytes) = bytes := by
  subst lengthEq
  exact encode_decode bytes

/-- Only the zero number is encoded by zero bytes alone. -/
theorem eq_zero_of_encode_all_zero {width number : Nat}
    (fits : number < 256 ^ width)
    (allZero : ∀ byte ∈ encode width number, byte = 0) :
    number = 0 := by
  induction width generalizing number with
  | zero => simpa using fits
  | succ width ih =>
      have tailFits : number / 256 < 256 ^ width := by
        rw [pow_succ] at fits
        omega
      have tailZero : number / 256 = 0 :=
        ih tailFits (fun byte member => allZero byte (by simp [encode, member]))
      have headZero : UInt8.ofNat (number % 256) = 0 :=
        allZero _ (by simp [encode])
      have headValue := congrArg UInt8.toNat headZero
      simp at headValue
      omega

/-- Fields one behind the other, each given by its width and its number. -/
def encodeFields (fields : List (Nat × Nat)) : List UInt8 :=
  fields.flatMap fun field => encode field.1 field.2

theorem encodeFields_column (width : Nat) (numbers : List Nat) :
    encodeFields (numbers.map fun number => (width, number)) = numbers.flatMap (encode width) := by
  rw [encodeFields, List.flatMap_map]

theorem length_flatMap_encode (width : Nat) (numbers : List Nat) :
    (numbers.flatMap (encode width)).length = numbers.length * width := by
  induction numbers with
  | nil => simp
  | cons number numbers ih =>
      rw [List.flatMap_cons, List.length_append, ih, length_encode, List.length_cons]
      ring

/-- The number of the field of a width at an offset. -/
def fieldAt (bytes : List UInt8) (offset width : Nat) : Nat :=
  decode ((bytes.drop offset).take width)

theorem fieldAt_append_right (front bytes : List UInt8) (offset width : Nat) :
    fieldAt (front ++ bytes) (front.length + offset) width = fieldAt bytes offset width := by
  rw [fieldAt, fieldAt, ← List.drop_drop, List.drop_left]

/-- A field is read back at the offset where the fields before it end. -/
theorem fieldAt_encodeFields {fields : List (Nat × Nat)} (index : Nat) {offset width number : Nat}
    (here : fields[index]? = some (width, number))
    (offsetEq : (encodeFields (fields.take index)).length = offset)
    (fits : number < 256 ^ width) (rest : List UInt8) :
    fieldAt (encodeFields fields ++ rest) offset width = number := by
  obtain ⟨inside, fieldEq⟩ := List.getElem?_eq_some_iff.mp here
  have split : fields = fields.take index ++ (width, number) :: fields.drop (index + 1) := by
    rw [← fieldEq, List.getElem_cons_drop, List.take_append_drop]
  have bytes : encodeFields fields ++ rest = encodeFields (fields.take index) ++
      (encode width number ++ (encodeFields (fields.drop (index + 1)) ++ rest)) := by
    conv_lhs => rw [split]
    simp [encodeFields]
  rw [fieldAt, bytes, List.drop_left' offsetEq, List.take_left' (length_encode width number),
    decode_encode fits]

theorem fieldAt_column {numbers : List Nat} {width index number : Nat}
    (here : numbers[index]? = some number) (fits : number < 256 ^ width) (rest : List UInt8) :
    fieldAt (numbers.flatMap (encode width) ++ rest) (index * width) width = number := by
  rw [← encodeFields_column]
  apply fieldAt_encodeFields index
  · rw [List.getElem?_map, here]
    rfl
  · have inside := (List.getElem?_eq_some_iff.mp here).1
    rw [← List.map_take, encodeFields_column, length_flatMap_encode, List.length_take,
      min_eq_left inside.le]
  · exact fits

theorem fieldAt_lt (bytes : List UInt8) (offset width : Nat) :
    fieldAt bytes offset width < 256 ^ width :=
  (decode_lt _).trans_le (Nat.pow_le_pow_right (by decide) (List.length_take_le ..))

/-- The fields of some widths, one behind the other from an offset on. -/
def readFields (bytes : List UInt8) : (offset : Nat) → (widths : List Nat) → List (Nat × Nat)
  | _, [] => []
  | offset, width :: widths =>
      (width, fieldAt bytes offset width) :: readFields bytes (offset + width) widths

/-- The fields that are read are encoded as the bytes they were read from. -/
theorem encodeFields_readFields {bytes : List UInt8} {offset : Nat} {widths : List Nat}
    (inside : offset + widths.sum ≤ bytes.length) :
    encodeFields (readFields bytes offset widths) = (bytes.drop offset).take widths.sum := by
  induction widths generalizing offset with
  | nil => simp [readFields, encodeFields]
  | cons width widths ih =>
      rw [List.sum_cons] at inside
      have length : ((bytes.drop offset).take width).length = width := by
        rw [List.length_take, List.length_drop]
        omega
      have rest := ih (show offset + width + widths.sum ≤ bytes.length by omega)
      rw [readFields, encodeFields, List.flatMap_cons, fieldAt, encode_decode_of_length length,
        ← encodeFields, rest, List.sum_cons, List.take_add, List.drop_drop]

end LittleEndian
