import Mathlib.Data.List.Lex
import Mathlib.Tactic.Ring

/-!
# ASCII text

Numbers are written in decimal, and read back with a check against a largest value.  A number
that is padded with zeros to a fixed width has no other text of that width.
-/

namespace AsciiText

/-- The bytes of a string of ASCII characters. -/
def ascii (words : String) : List UInt8 :=
  words.toList.map Char.toUInt8

def isDigit (byte : UInt8) : Bool :=
  48 ≤ byte && byte ≤ 57

/-- What digits behind a number make of it. -/
def value (text : List UInt8) (number : Nat) : Nat :=
  text.foldl (fun number byte => 10 * number + (byte.toNat - 48)) number

/-- A number in decimal. -/
def decimal (number : Nat) : List UInt8 :=
  (Nat.toDigits 10 number).map Char.toUInt8

/-- A number in decimal, with zeros in front of it up to a width. -/
def padded (width number : Nat) : List UInt8 :=
  (decimal number).leftpad width 48

/-- Read digits behind a number that stays at most a limit. -/
def readDigits (limit : Nat) : (number : Nat) → List UInt8 → Option Nat
  | number, [] => some number
  | number, byte :: text =>
      if isDigit byte ∧ 10 * number + (byte.toNat - 48) ≤ limit then
        readDigits limit (10 * number + (byte.toNat - 48)) text
      else
        none

/-- Read a number that is at most a limit.  A plus sign may stand in front of it. -/
def readNumber (limit : Nat) : List UInt8 → Option Nat
  | [] => none
  | first :: text =>
      if first = 43 then
        if text.isEmpty then none else readDigits limit 0 text
      else
        readDigits limit 0 (first :: text)

theorem value_append (text more : List UInt8) (number : Nat) :
    value (text ++ more) number = value more (value text number) :=
  List.foldl_append

theorem value_replicate (count : Nat) : value (List.replicate count 48) 0 = 0 := by
  induction count with
  | zero => rfl
  | succ count ih => exact ih

theorem le_value (text : List UInt8) (number : Nat) : number ≤ value text number := by
  induction text generalizing number with
  | nil => exact le_rfl
  | cons byte text ih => exact le_trans (by omega) (ih (10 * number + (byte.toNat - 48)))

theorem toNat_toUInt8 {digit : Char} (given : digit.isDigit) :
    digit.toUInt8.toNat = digit.toNat ∧ 48 ≤ digit.toNat ∧ digit.toNat ≤ 57 := by
  rw [Char.isDigit, Bool.and_eq_true, decide_eq_true_eq, decide_eq_true_eq] at given
  obtain ⟨above, below⟩ := given
  have above : 48 ≤ digit.toNat := above
  have below : digit.toNat ≤ 57 := below
  have short : digit.toNat % 256 = digit.toNat := Nat.mod_eq_of_lt (by omega)
  exact ⟨short, above, below⟩

theorem isDigit_of_mem_decimal {number : Nat} {byte : UInt8} (member : byte ∈ decimal number) :
    isDigit byte = true := by
  obtain ⟨digit, here, rfl⟩ := List.mem_map.mp member
  obtain ⟨same, above, below⟩ :=
    toNat_toUInt8 (Nat.isDigit_of_mem_toDigits (by decide) (by decide) here)
  rw [isDigit, Bool.and_eq_true, decide_eq_true_eq, decide_eq_true_eq]
  exact ⟨UInt8.le_iff_toNat_le.mpr (same ▸ above), UInt8.le_iff_toNat_le.mpr (same ▸ below)⟩

theorem value_map (digits : List Char) (given : ∀ digit ∈ digits, digit.isDigit) (number : Nat) :
    value (digits.map Char.toUInt8) number = Nat.ofDigitChars 10 digits number := by
  induction digits generalizing number with
  | nil => exact Nat.ofDigitChars_nil.symm
  | cons digit digits ih =>
      rw [List.forall_mem_cons] at given
      rw [Nat.ofDigitChars_cons, ← ih given.2, ← (toNat_toUInt8 given.1).1]
      rfl

theorem value_decimal (number : Nat) : value (decimal number) 0 = number := by
  rw [decimal, value_map]
  · exact Nat.ofDigitChars_ten_toDigits
  · intro digit member
    exact Nat.isDigit_of_mem_toDigits (by decide) (by decide) member

theorem length_decimal_le {number width : Nat} (positive : 0 < width)
    (small : number < 10 ^ width) : (decimal number).length ≤ width := by
  rw [decimal, List.length_map]
  exact (Nat.length_toDigits_le_iff (by decide) positive).mpr small

theorem length_padded {number width : Nat} (positive : 0 < width) (small : number < 10 ^ width) :
    (padded width number).length = width := by
  rw [padded, List.length_leftpad]
  exact max_eq_left (length_decimal_le positive small)

theorem value_padded (width number : Nat) : value (padded width number) 0 = number := by
  rw [padded, List.leftpad, value_append, value_replicate, value_decimal]

theorem isDigit_of_mem_padded {width number : Nat} {byte : UInt8}
    (member : byte ∈ padded width number) : isDigit byte = true := by
  rcases List.mem_append.mp member with zero | digit
  · rw [List.eq_of_mem_replicate zero]
    rfl
  · exact isDigit_of_mem_decimal digit

/-- Digits that are read are at most the limit, and they are read as their value. -/
theorem readDigits_eq_some {limit number found : Nat} {text : List UInt8}
    (small : number ≤ limit) : readDigits limit number text = some found ↔
      (∀ byte ∈ text, isDigit byte = true) ∧ value text number = found ∧ found ≤ limit := by
  induction text generalizing number with
  | nil =>
      rw [readDigits, Option.some.injEq]
      constructor
      · rintro rfl
        exact ⟨by simp, rfl, small⟩
      · exact fun ⟨_, same, _⟩ => same
  | cons byte text ih =>
      rw [readDigits, List.forall_mem_cons]
      split
      · next going =>
        rw [ih going.2]
        exact ⟨fun ⟨digits, rest⟩ => ⟨⟨going.1, digits⟩, rest⟩,
          fun ⟨⟨_, digits⟩, rest⟩ => ⟨digits, rest⟩⟩
      · next stopped =>
        refine ⟨by rintro ⟨⟩, fun ⟨⟨digit, _⟩, same, bounded⟩ => ?_⟩
        have grown : 10 * number + (byte.toNat - 48) ≤ found :=
          le_trans (le_value text _) same.le
        exact absurd ⟨digit, grown.trans bounded⟩ stopped

theorem readNumber_eq_some {limit found : Nat} {text : List UInt8} (nonempty : text ≠ [])
    (digits : ∀ byte ∈ text, isDigit byte = true) :
    readNumber limit text = some found ↔ value text 0 = found ∧ found ≤ limit := by
  cases text with
  | nil => exact absurd rfl nonempty
  | cons first text =>
      have unsigned : first ≠ 43 := by
        rintro rfl
        exact absurd (digits 43 List.mem_cons_self) (by decide)
      rw [readNumber, if_neg unsigned, readDigits_eq_some (Nat.zero_le limit)]
      exact and_iff_right digits

theorem toNat_of_isDigit {byte : UInt8} (digit : isDigit byte = true) :
    48 ≤ byte.toNat ∧ byte.toNat ≤ 57 := by
  rw [isDigit, Bool.and_eq_true, decide_eq_true_eq, decide_eq_true_eq] at digit
  exact ⟨UInt8.le_iff_toNat_le.mp digit.1, UInt8.le_iff_toNat_le.mp digit.2⟩

theorem value_lt {text : List UInt8} (digits : ∀ byte ∈ text, isDigit byte = true)
    (number : Nat) : value text number < 10 ^ text.length * (number + 1) := by
  induction text generalizing number with
  | nil => exact (Nat.lt_succ_self number).trans_eq (Nat.one_mul _).symm
  | cons byte text ih =>
      rw [List.forall_mem_cons] at digits
      obtain ⟨-, below⟩ := toNat_of_isDigit digits.1
      have later : value text (10 * number + (byte.toNat - 48)) <
          10 ^ text.length * (10 * number + (byte.toNat - 48) + 1) := ih digits.2 _
      refine lt_of_lt_of_le later ?_
      rw [List.length_cons, pow_succ, Nat.mul_assoc]
      exact Nat.mul_le_mul_left _ (by omega)

theorem value_eq (text : List UInt8) (number : Nat) :
    value text number = 10 ^ text.length * number + value text 0 := by
  induction text generalizing number with
  | nil => exact (Nat.one_mul number).symm
  | cons byte text ih =>
      change value text (10 * number + (byte.toNat - 48)) =
        10 ^ (text.length + 1) * number + value text (10 * 0 + (byte.toNat - 48))
      rw [ih (10 * number + _), ih (10 * 0 + _), pow_succ]
      ring

/-- Digits of one length with one value are the same. -/
theorem eq_of_value_eq {first second : List UInt8}
    (digits : ∀ byte ∈ first, isDigit byte = true) (digits' : ∀ byte ∈ second, isDigit byte = true)
    (length : first.length = second.length) (same : value first 0 = value second 0) :
    first = second := by
  induction first generalizing second with
  | nil => exact (List.length_eq_zero_iff.mp length.symm).symm
  | cons byte first ih =>
      cases second with
      | nil => cases length
      | cons byte' second =>
          have length : first.length = second.length := Nat.succ.inj length
          rw [List.forall_mem_cons] at digits digits'
          have here := toNat_of_isDigit digits.1
          have here' := toNat_of_isDigit digits'.1
          have below : value first 0 < 10 ^ first.length := by
            simpa using value_lt digits.2 0
          have below' : value second 0 < 10 ^ first.length := by
            simpa [length] using value_lt digits'.2 0
          have whole : value (byte :: first) 0 =
              value first 0 + 10 ^ first.length * (byte.toNat - 48) := by
            change value first (10 * 0 + _) = _
            rw [value_eq, Nat.mul_zero, Nat.zero_add, Nat.add_comm]
          have whole' : value (byte' :: second) 0 =
              value second 0 + 10 ^ first.length * (byte'.toNat - 48) := by
            change value second (10 * 0 + _) = _
            rw [value_eq, Nat.mul_zero, Nat.zero_add, Nat.add_comm, length]
          rw [whole, whole'] at same
          -- Behind the first digit there is less than one of its places.
          have positive : 0 < 10 ^ first.length := Nat.pow_pos (by decide)
          have quotient := congrArg (· / 10 ^ first.length) same
          have remainder := congrArg (· % 10 ^ first.length) same
          simp only [Nat.add_mul_div_left _ _ positive, Nat.div_eq_of_lt below,
            Nat.div_eq_of_lt below', Nat.zero_add] at quotient
          simp only [Nat.add_mul_mod_self_left, Nat.mod_eq_of_lt below,
            Nat.mod_eq_of_lt below'] at remainder
          rw [ih digits.2 digits'.2 length remainder]
          congr 1
          exact UInt8.toNat_inj.mp (by omega)

end AsciiText
