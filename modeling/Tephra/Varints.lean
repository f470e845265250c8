import Tephra.Postings

/-!
# Varints on machine integers

The loops of the varint codec on 64-bit values.  A shift that loses bits and an addition that
wraps around stop the loops of this module; none does, and what the loops return is what the
arithmetic of unbounded numbers returns.
-/

namespace Tephra

namespace Index

namespace Machine

open Leb128 (Continues Whole whole_or_continues)

/-- A shift to the left.  The result is `none` where the code would panic or lose bits. -/
def shl (value : UInt64) (shift : UInt32) : Option UInt64 :=
  if shift.toNat < 64 ∧ value.toNat * 2 ^ shift.toNat < 2 ^ 64 then
    some (value <<< shift.toUInt64)
  else
    none

/-- An addition.  The result is `none` where it would wrap around. -/
def add (first second : UInt32) : Option UInt32 :=
  if first.toNat + second.toNat < 2 ^ 32 then some (first + second) else none

/-- The addition of places in a buffer. -/
def addPlace (first second : Nat) : Option Nat :=
  if first + second < 2 ^ 64 then some (first + second) else none

/-- `encode_varint`: the bytes that are appended. -/
def encodeVarint (value : UInt64) : List UInt8 :=
  let byte := (value &&& 0x7f).toUInt8
  if value >>> 7 = 0 then
    [byte]
  else
    (byte ||| 0x80) :: encodeVarint (value >>> 7)
termination_by value.toNat
decreasing_by
  rename_i more
  have positive : (value >>> 7).toNat ≠ 0 := by
    intro zero
    exact more (UInt64.toNat_inj.mp zero)
  rw [UInt64.toNat_shiftRight] at positive ⊢
  simp only [UInt64.reduceToNat, Nat.reduceMod, Nat.shiftRight_eq_div_pow] at positive ⊢
  omega

/-- The loop of `decode_varint` from a byte on. -/
def decodeFrom (i : Nat) (value : UInt64) (shift : UInt32) :
    List UInt8 → Option (Except PostingsError (UInt64 × Nat))
  | [] => some (.error .varintTruncated)
  | byte :: buf =>
      if i = 9 ∧ byte > 0x01 then
        some (.error .varintOverflow)
      else do
        let group ← shl (byte &&& 0x7f).toUInt64 shift
        let value := value ||| group
        if byte &&& 0x80 = 0 then
          let len ← addPlace i 1
          some (.ok (value, len))
        else
          let shift ← add shift 7
          if i = 9 then some (.error .varintOverflow)
          else decodeFrom (i + 1) value shift buf

/-- `decode_varint`: the value at the front of a buffer, and the number of bytes it takes. -/
def decodeVarint (buf : List UInt8) : Option (Except PostingsError (UInt64 × Nat)) :=
  decodeFrom 0 0 0 buf

theorem toNat_shiftRight_seven (value : UInt64) : (value >>> 7).toNat = value.toNat / 128 := by
  rw [UInt64.toNat_shiftRight]
  simp [Nat.shiftRight_eq_div_pow]

theorem toNat_low (value : UInt64) : (value &&& 0x7f).toUInt8.toNat = value.toNat % 128 := by
  rw [UInt64.toNat_toUInt8, UInt64.toNat_and]
  have low : value.toNat &&& 127 = value.toNat % 128 := Nat.and_two_pow_sub_one_eq_mod _ 7
  change (value.toNat &&& 127) % 256 = _
  omega

theorem toNat_or_high {byte : UInt8} (low : byte.toNat < 128) :
    (byte ||| 0x80).toNat = byte.toNat + 128 := by
  rw [UInt8.toNat_or]
  have high : 2 ^ 7 * 1 + byte.toNat = 2 ^ 7 * 1 ||| byte.toNat :=
    Nat.two_pow_add_eq_or_of_lt low 1
  rw [Nat.or_comm, Nat.add_comm]
  exact high.symm

theorem toNat_group (byte : UInt8) : (byte &&& 0x7f).toUInt64.toNat = byte.toNat % 128 := by
  rw [UInt8.toNat_toUInt64, UInt8.toNat_and]
  exact Nat.and_two_pow_sub_one_eq_mod _ 7

theorem high_eq_zero_iff (byte : UInt8) : byte &&& 0x80 = 0 ↔ byte < 128 := by
  have high : byte.toNat &&& 128 = (byte.toNat.testBit 7).toNat * 128 :=
    Nat.and_two_pow byte.toNat 7
  have bit : byte.toNat.testBit 7 = decide (128 ≤ byte.toNat) := by
    rw [Nat.testBit_eq_decide_div_mod_eq]
    have := byte.toNat_lt
    apply decide_eq_decide.mpr
    omega
  rw [← UInt8.toNat_inj, UInt8.toNat_and, UInt8.lt_iff_toNat_lt]
  change byte.toNat &&& 128 = 0 ↔ byte.toNat < 128
  rw [high, bit]
  by_cases above : 128 ≤ byte.toNat
  · simp [above]
  · simp [above, Nat.lt_of_not_le above]

theorem encodeVarint_eq (value : UInt64) : encodeVarint value = Index.encodeVarint value.toNat := by
  induction size : value.toNat using Nat.strong_induction_on generalizing value with
  | _ number ih =>
      subst size
      have low : (value &&& 0x7f).toUInt8 = UInt8.ofNat (value.toNat % 128) := by
        rw [← UInt8.toNat_inj, toNat_low, UInt8.toNat_ofNat']
        omega
      have ended : value >>> 7 = 0 ↔ value.toNat / 128 = 0 := by
        rw [← UInt64.toNat_inj, toNat_shiftRight_seven]
        rfl
      rw [encodeVarint, Index.encodeVarint]
      by_cases last : value.toNat / 128 = 0
      · rw [if_pos (ended.mpr last), if_pos last, low]
      · have high : (value &&& 0x7f).toUInt8 ||| 0x80 = UInt8.ofNat (value.toNat % 128 + 128) := by
          rw [← UInt8.toNat_inj, toNat_or_high (by rw [toNat_low]; omega), toNat_low,
            UInt8.toNat_ofNat']
          omega
        rw [if_neg (ended.not.mpr last), if_neg last, high,
          ih _ (by omega) (value >>> 7) (toNat_shiftRight_seven value)]

/-- The bits of a byte are put in their place, and none is lost. -/
theorem shl_group {i : Nat} {byte : UInt8} {shift : UInt32} (early : i ≤ 9)
    (shiftEq : shift.toNat = 7 * i) (fits : byte.toNat % 128 * 2 ^ (7 * i) < 2 ^ 64)
    (value : UInt64) :
    ∃ group, shl (byte &&& 0x7f).toUInt64 shift = some group ∧
      (value ||| group).toNat =
        value.toNat ||| ((byte.toNat % 128) <<< (7 * i)) % 2 ^ 64 := by
  refine ⟨_, if_pos ⟨by omega, by rwa [toNat_group, shiftEq]⟩, ?_⟩
  have amount : shift.toUInt64.toNat % 64 = 7 * i := by
    rw [UInt32.toNat_toUInt64, shiftEq]
    omega
  rw [UInt64.toNat_or, UInt64.toNat_shiftLeft, toNat_group, amount]

theorem decodeFrom_eq {i : Nat} {value : UInt64} {shift : UInt32} (early : i ≤ 9)
    (shiftEq : shift.toNat = 7 * i) (below : value.toNat < 2 ^ (7 * i)) (buf : List UInt8) :
    decodeFrom i value shift buf =
      some ((decodeGroups i value.toNat buf).map fun decoded =>
        (UInt64.ofNat decoded.1, decoded.2)) := by
  induction buf generalizing i value shift with
  | nil => rfl
  | cons byte buf ih =>
      have small : byte.toNat % 128 < 128 := Nat.mod_lt _ (by decide)
      rw [decodeFrom, decodeGroups]
      by_cases tenth : i = 9 ∧ byte > 0x01
      · rw [if_pos tenth, if_pos tenth]
        rfl
      have fits : byte.toNat % 128 * 2 ^ (7 * i) < 2 ^ 64 := by
        rcases Nat.lt_or_eq_of_le early with early | rfl
        · exact (groups_fit early small).1
        · have one : ¬ 1 < byte.toNat := fun two =>
            tenth ⟨rfl, UInt8.lt_iff_toNat_lt.mpr two⟩
          omega
      obtain ⟨group, shifted, merged⟩ := shl_group early shiftEq fits value
      have place : addPlace i 1 = some (i + 1) := if_pos (by omega)
      have sum : shift.toNat + (7 : UInt32).toNat < 2 ^ 32 := by
        rw [shiftEq]
        change 7 * i + 7 < _
        omega
      rw [if_neg tenth, if_neg tenth, shifted, ← merged]
      dsimp only [Option.bind_eq_bind, Option.bind_some]
      by_cases ends : byte < 128
      · rw [if_pos ((high_eq_zero_iff byte).mpr ends), if_pos ends, place]
        dsimp only [Option.bind_some, Except.map]
        rw [UInt64.ofNat_toNat]
      · rw [if_neg ((high_eq_zero_iff byte).not.mpr ends), if_neg ends, add, if_pos sum]
        dsimp only [Option.bind_some]
        by_cases last : i = 9
        · rw [if_pos last, if_pos last]
          rfl
        · have before : i < 9 := by omega
          obtain ⟨-, power⟩ := groups_fit before small
          rw [if_neg last, if_neg last]
          apply ih
          · omega
          · rw [UInt32.toNat_add, Nat.mod_eq_of_lt sum, shiftEq]
            rfl
          · have bound : byte.toNat % 128 * 2 ^ (7 * i) ≤ 127 * 2 ^ (7 * i) :=
              Nat.mul_le_mul_right _ (by omega)
            rw [merged, or_group below fits, power, Nat.mul_comm]
            omega

theorem decodeVarint_eq (buf : List UInt8) :
    decodeVarint buf =
      some ((Index.decodeVarint buf).map fun decoded => (UInt64.ofNat decoded.1, decoded.2)) :=
  decodeFrom_eq (by decide) rfl (by decide) buf

/-- A whole number in front is decoded if it has ten bytes at most and fits in 64 bits. -/
theorem decodeVarint_whole {front : List UInt8} (whole : Whole front) (back : List UInt8) :
    decodeVarint (front ++ back) =
      some (if front.length ≤ 10 ∧ Leb128.value front < 2 ^ 64 then
        .ok (UInt64.ofNat (Leb128.value front), front.length)
      else .error .varintOverflow) := by
  rw [decodeVarint_eq, Index.decodeVarint_whole whole]
  split <;> rfl

theorem decodeVarint_continues {buf : List UInt8} (continues : ∀ byte ∈ buf, Continues byte) :
    decodeVarint buf =
      some (.error (if buf.length < 10 then .varintTruncated else .varintOverflow)) := by
  rw [decodeVarint_eq, Index.decodeVarint, decodeGroups_continues continues (by decide),
    Nat.zero_add]
  rfl

/-- What is decoded is the number in front of a buffer, and no other number is. -/
theorem decodeVarint_eq_ok_iff {buf : List UInt8} {value : UInt64} {len : Nat} :
    decodeVarint buf = some (.ok (value, len)) ↔
      len ≤ 10 ∧ ∃ front back, buf = front ++ back ∧ Whole front ∧ front.length = len ∧
        Leb128.value front = value.toNat := by
  constructor
  · intro decoded
    rcases whole_or_continues buf with ⟨front, back, rfl, whole⟩ | continues
    · rw [decodeVarint_whole whole, Option.some.injEq] at decoded
      split at decoded
      next fits =>
        obtain ⟨rfl, rfl⟩ := Prod.mk.inj (Except.ok.inj decoded)
        refine ⟨fits.1, front, back, rfl, whole, rfl, ?_⟩
        rw [UInt64.toNat_ofNat', Nat.mod_eq_of_lt fits.2]
      next => cases decoded
    · rw [decodeVarint_continues continues] at decoded
      cases decoded
  · rintro ⟨short, front, back, rfl, whole, rfl, valueEq⟩
    have fits : Leb128.value front < 2 ^ 64 := by
      rw [valueEq]
      exact value.toNat_lt
    rw [decodeVarint_whole whole, if_pos ⟨short, fits⟩, valueEq, UInt64.ofNat_toNat]

/-- What is encoded is decoded; of any buffer the exact number in front of it is decoded, or it
is refused; and no shift loses a bit, and no addition wraps around. -/
theorem varint_codec :
    (∀ (value : UInt64) (rest : List UInt8),
      decodeVarint (encodeVarint value ++ rest) =
        some (.ok (value, (encodeVarint value).length))) ∧
      ∀ buf : List UInt8, ∃ outcome, decodeVarint buf = some outcome ∧
        (∀ value len, outcome = .ok (value, len) →
          len ≤ 10 ∧ len ≤ buf.length ∧ Whole (buf.take len) ∧
            Leb128.value (buf.take len) = value.toNat) ∧
        (∀ front back, buf = front ++ back → Whole front → 2 ^ 64 ≤ Leb128.value front →
          outcome = .error .varintOverflow) ∧
        ((∀ byte ∈ buf, Continues byte) → ∃ error, outcome = .error error) := by
  constructor
  · intro value rest
    rw [encodeVarint_eq, decodeVarint_eq, decodeVarint_encodeVarint value.toNat_lt]
    dsimp only [Except.map]
    rw [UInt64.ofNat_toNat]
  · intro buf
    refine ⟨_, decodeVarint_eq buf, ?_, ?_, ?_⟩
    · intro value len decoded
      obtain ⟨short, front, back, rfl, whole, rfl, valueEq⟩ :=
        decodeVarint_eq_ok_iff.mp ((decodeVarint_eq buf).trans (congrArg some decoded))
      rw [List.take_left]
      exact ⟨short, by simp, whole, valueEq⟩
    · rintro front back rfl whole large
      rw [Index.decodeVarint_whole whole, if_neg (fun fits => Nat.not_le_of_lt fits.2 large)]
      rfl
    · intro continues
      rw [Index.decodeVarint, decodeGroups_continues continues (by decide)]
      exact ⟨_, rfl⟩

end Machine

end Index

end Tephra
