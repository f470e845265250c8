import Mathlib.Data.List.Basic
import Mathlib.Tactic.Ring

/-!
# Numbers in groups of seven bits

A number is a run of bytes with seven bits each, the low group first.  All of them but the
last have the high bit set, so that the end of a number is seen from its bytes.
-/

namespace Leb128

/-- The number that the groups of some bytes add up to. -/
def value : List UInt8 → Nat
  | [] => 0
  | byte :: bytes => byte.toNat % 128 + 128 * value bytes

/-- Another byte follows. -/
def Continues (byte : UInt8) : Prop := 128 ≤ byte.toNat

instance : DecidablePred Continues := fun byte => inferInstanceAs (Decidable (128 ≤ byte.toNat))

/-- Every byte but the last continues. -/
inductive Whole : List UInt8 → Prop
  | last {byte : UInt8} : ¬ Continues byte → Whole [byte]
  | more {byte : UInt8} {bytes : List UInt8} :
      Continues byte → Whole bytes → Whole (byte :: bytes)

theorem value_last {byte : UInt8} (ends : ¬ Continues byte) : value [byte] = byte.toNat := by
  rw [value, value, Nat.mul_zero, Nat.add_zero]
  exact Nat.mod_eq_of_lt (Nat.lt_of_not_le ends)

theorem Whole.length_pos {bytes : List UInt8} (whole : Whole bytes) : 0 < bytes.length := by
  cases whole with
  | last _ => exact Nat.one_pos
  | more _ _ => exact Nat.succ_pos _

theorem whole_or_continues (bytes : List UInt8) :
    (∃ front back, bytes = front ++ back ∧ Whole front) ∨ ∀ byte ∈ bytes, Continues byte := by
  induction bytes with
  | nil => exact .inr fun _ member => by cases member
  | cons byte bytes ih =>
      by_cases continues : Continues byte
      · rcases ih with ⟨front, back, rfl, whole⟩ | all
        · exact .inl ⟨byte :: front, back, rfl, .more continues whole⟩
        · exact .inr (List.forall_mem_cons.mpr ⟨continues, all⟩)
      · exact .inl ⟨[byte], bytes, rfl, .last continues⟩

end Leb128
