import Mathlib.Data.List.Basic
import Mathlib.Data.Nat.Bitwise
import Mathlib.Tactic.Ring
import Tephra.Leb128

/-!
# Posting lists on disk

The postings of a tag are one 64-bit value.  A single posting is inlined in the
value; a longer list is a block of varints in a shared region, and the value has
the offset of the block.  The two high bits of a value tell the forms apart.
-/

namespace Tephra

namespace Index

open Leb128 (Continues Whole)

/-- The errors of decoding postings. -/
inductive PostingsError where
  | varintOverflow
  | varintTruncated
  | offsetOutOfBounds (offset len : Nat)
  | positionOverflow
  | reservedDenseTier
deriving DecidableEq, Repr

/-- Bits of the payload of a value; the form is in the bits above. -/
def tierShift : Nat := 62

def tierSingleton : Nat := 0

def tierSmall : Nat := 1

def tierDense : Nat := 2

/-- Seven bits per byte, low group first; every byte but the last has its high
bit set. -/
def encodeVarint (value : Nat) : List UInt8 :=
  if value / 128 = 0 then
    [UInt8.ofNat (value % 128)]
  else
    UInt8.ofNat (value % 128 + 128) :: encodeVarint (value / 128)
termination_by value

/-- Read groups of seven bits from the `i`-th on.  The tenth byte has room for
one bit only. -/
def decodeGroups (i value : Nat) : List UInt8 → Except PostingsError (Nat × Nat)
  | [] => .error .varintTruncated
  | byte :: bytes =>
      if i = 9 ∧ byte > 1 then
        .error .varintOverflow
      else
        let value := value ||| ((byte.toNat % 128) <<< (7 * i)) % 2 ^ 64
        if byte < 128 then
          .ok (value, i + 1)
        else if i = 9 then
          .error .varintOverflow
        else
          decodeGroups (i + 1) value bytes

/-- The value at the front of a buffer, and the number of bytes it takes. -/
def decodeVarint (buf : List UInt8) : Except PostingsError (Nat × Nat) :=
  decodeGroups 0 0 buf

private theorem toNat_ofNat {value : Nat} (byte : value < 256) :
    (UInt8.ofNat value).toNat = value := by
  simpa using Nat.mod_eq_of_lt byte

theorem encodeVarint_of_lt {value : Nat} (small : value < 128) :
    encodeVarint value = [UInt8.ofNat value] := by
  rw [encodeVarint, if_pos (Nat.div_eq_of_lt small), Nat.mod_eq_of_lt small]

theorem encodeVarint_of_le {value : Nat} (large : 128 ≤ value) :
    encodeVarint value = UInt8.ofNat (value % 128 + 128) :: encodeVarint (value / 128) := by
  rw [encodeVarint, if_neg (Nat.div_pos large (by decide)).ne']

theorem whole_encodeVarint (value : Nat) : Whole (encodeVarint value) := by
  induction value using Nat.strong_induction_on with
  | _ value ih =>
      rcases Nat.lt_or_ge value 128 with small | large
      · rw [encodeVarint_of_lt small]
        apply Whole.last
        rw [Continues, toNat_ofNat (by omega)]
        omega
      · rw [encodeVarint_of_le large]
        apply Whole.more
        · rw [Continues, toNat_ofNat (by omega)]
          omega
        · exact ih _ (by omega)

theorem value_encodeVarint (value : Nat) : Leb128.value (encodeVarint value) = value := by
  induction value using Nat.strong_induction_on with
  | _ value ih =>
      rcases Nat.lt_or_ge value 128 with small | large
      · rw [encodeVarint_of_lt small, Leb128.value, Leb128.value, toNat_ofNat (by omega)]
        omega
      · rw [encodeVarint_of_le large, Leb128.value, ih _ (by omega), toNat_ofNat (by omega)]
        omega

theorem length_encodeVarint_le {value count : Nat} (below : value < 128 ^ (count + 1)) :
    (encodeVarint value).length ≤ count + 1 := by
  induction count generalizing value with
  | zero =>
      rw [encodeVarint_of_lt (by omega)]
      exact le_rfl
  | succ count ih =>
      rcases Nat.lt_or_ge value 128 with small | large
      · rw [encodeVarint_of_lt small]
        exact Nat.succ_le_succ (Nat.zero_le _)
      · rw [encodeVarint_of_le large, List.length_cons]
        apply Nat.succ_le_succ
        apply ih
        rw [Nat.div_lt_iff_lt_mul (by decide), ← Nat.pow_succ]
        exact below

/-- A group that is shifted behind the bits so far is added to them. -/
theorem or_group {acc group bits : Nat} (below : acc < 2 ^ bits)
    (fits : group * 2 ^ bits < 2 ^ 64) :
    acc ||| (group <<< bits) % 2 ^ 64 = acc + 2 ^ bits * group := by
  rw [Nat.shiftLeft_eq, Nat.mod_eq_of_lt fits, Nat.or_comm, Nat.mul_comm group,
    ← Nat.two_pow_add_eq_or_of_lt below, Nat.add_comm]

theorem groups_fit {i group : Nat} (early : i < 9) (small : group < 128) :
    group * 2 ^ (7 * i) < 2 ^ 64 ∧ 2 ^ (7 * (i + 1)) = 128 * 2 ^ (7 * i) := by
  have power : 2 ^ (7 * (i + 1)) = 128 * 2 ^ (7 * i) := by ring
  have bound : 2 ^ (7 * (i + 1)) ≤ 2 ^ 63 := Nat.pow_le_pow_right (by decide) (by omega)
  have below : group * 2 ^ (7 * i) ≤ 128 * 2 ^ (7 * i) := Nat.mul_le_mul_right _ small.le
  refine ⟨?_, power⟩
  omega

/-- A whole number is decoded if it has ten bytes at most and fits in 64 bits. -/
theorem decodeGroups_whole {front : List UInt8} (whole : Whole front) {i acc : Nat}
    (accLt : acc < 2 ^ (7 * i)) (early : i ≤ 9) (rest : List UInt8) :
    decodeGroups i acc (front ++ rest) =
      if i + front.length ≤ 10 ∧ acc + 2 ^ (7 * i) * Leb128.value front < 2 ^ 64 then
        .ok (acc + 2 ^ (7 * i) * Leb128.value front, i + front.length)
      else .error .varintOverflow := by
  induction whole generalizing i acc with
  | @last byte ends =>
      have below : byte < 128 := by
        rw [UInt8.lt_iff_toNat_lt]
        exact Nat.lt_of_not_le ends
      have small : byte.toNat < 128 := Nat.lt_of_not_le ends
      rw [List.singleton_append, decodeGroups, Leb128.value_last ends, List.length_singleton,
        if_pos below, Nat.mod_eq_of_lt small]
      rcases Nat.lt_or_eq_of_le early with early | rfl
      · obtain ⟨fits, power⟩ := groups_fit early small
        have bound : 2 ^ (7 * (i + 1)) ≤ 2 ^ 63 := Nat.pow_le_pow_right (by decide) (by omega)
        have sum : acc + 2 ^ (7 * i) * byte.toNat < 2 ^ 64 := by
          have : byte.toNat * 2 ^ (7 * i) ≤ 127 * 2 ^ (7 * i) :=
            Nat.mul_le_mul_right _ (Nat.le_of_lt_succ small)
          rw [Nat.mul_comm]
          omega
        rw [if_neg (fun ninth => early.ne ninth.1), or_group accLt fits, if_pos ⟨by omega, sum⟩]
      · by_cases large : byte > 1
        · have two : 1 < byte.toNat := UInt8.lt_iff_toNat_lt.mp large
          rw [if_pos ⟨rfl, large⟩, if_neg (by omega)]
        · have one : ¬ 1 < byte.toNat := fun two => large (UInt8.lt_iff_toNat_lt.mpr two)
          rw [if_neg (fun ninth => large ninth.2), or_group accLt (by omega),
            if_pos (by omega)]
  | @more byte bytes continues whole ih =>
      have above : ¬ byte < 128 := by
        rw [UInt8.lt_iff_toNat_lt]
        exact Nat.not_lt_of_le continues
      have nonempty := whole.length_pos
      rw [List.cons_append, decodeGroups, Leb128.value, List.length_cons, if_neg above]
      rcases Nat.lt_or_eq_of_le early with early | rfl
      · obtain ⟨fits, power⟩ := groups_fit early (Nat.mod_lt byte.toNat (by decide : 0 < 128))
        have accNext : acc + 2 ^ (7 * i) * (byte.toNat % 128) < 2 ^ (7 * (i + 1)) := by
          have : byte.toNat % 128 * 2 ^ (7 * i) ≤ 127 * 2 ^ (7 * i) :=
            Nat.mul_le_mul_right _ (by omega)
          rw [Nat.mul_comm]
          omega
        have total : acc + 2 ^ (7 * i) * (byte.toNat % 128) +
            2 ^ (7 * (i + 1)) * Leb128.value bytes =
              acc + 2 ^ (7 * i) * (byte.toNat % 128 + 128 * Leb128.value bytes) := by
          rw [power]
          ring
        rw [if_neg (fun ninth => early.ne ninth.1), if_neg early.ne, or_group accLt fits,
          ih accNext (by omega), total, Nat.add_assoc, Nat.add_comm 1]
      · have large : byte > 1 := by
          rw [gt_iff_lt, UInt8.lt_iff_toNat_lt]
          exact Nat.lt_of_lt_of_le (by decide) continues
        rw [if_pos ⟨rfl, large⟩, if_neg (by omega)]

theorem decodeGroups_continues {buf : List UInt8} (continues : ∀ byte ∈ buf, Continues byte)
    {i : Nat} (early : i ≤ 9) (acc : Nat) :
    decodeGroups i acc buf =
      .error (if i + buf.length < 10 then .varintTruncated else .varintOverflow) := by
  induction buf generalizing i acc with
  | nil =>
      rw [decodeGroups, if_pos]
      exact Nat.lt_succ_of_le early
  | cons byte buf ih =>
      obtain ⟨here, others⟩ := List.forall_mem_cons.mp continues
      have above : ¬ byte < 128 := by
        rw [UInt8.lt_iff_toNat_lt]
        exact Nat.not_lt_of_le here
      rw [decodeGroups, List.length_cons, if_neg above]
      rcases Nat.lt_or_eq_of_le early with early | rfl
      · rw [if_neg (fun ninth => early.ne ninth.1), if_neg early.ne, ih others (by omega),
          Nat.add_assoc, Nat.add_comm 1]
      · have large : byte > 1 := by
          rw [gt_iff_lt, UInt8.lt_iff_toNat_lt]
          exact Nat.lt_of_lt_of_le (by decide) here
        rw [if_pos ⟨rfl, large⟩, if_neg (by omega)]

theorem decodeVarint_whole {front : List UInt8} (whole : Whole front) (rest : List UInt8) :
    decodeVarint (front ++ rest) =
      if front.length ≤ 10 ∧ Leb128.value front < 2 ^ 64 then
        .ok (Leb128.value front, front.length)
      else .error .varintOverflow := by
  rw [decodeVarint, decodeGroups_whole whole (by decide) (by decide), Nat.mul_zero, Nat.pow_zero,
    Nat.one_mul, Nat.zero_add, Nat.zero_add]

theorem decodeVarint_encodeVarint {value : Nat} (fits : value < 2 ^ 64) (rest : List UInt8) :
    decodeVarint (encodeVarint value ++ rest) = .ok (value, (encodeVarint value).length) := by
  have short : (encodeVarint value).length ≤ 10 :=
    length_encodeVarint_le (fits.trans (by decide))
  rw [decodeVarint_whole (whole_encodeVarint value), value_encodeVarint, if_pos ⟨short, fits⟩]

/-- The differences of consecutive values. -/
def deltas (prev : Nat) : List Nat → List Nat
  | [] => []
  | posting :: postings => (posting - prev) :: deltas posting postings

/-- The value of a posting list, and the region with the block of the list. -/
def encodePostings (postings : List Nat) (region : List UInt8) : Nat × List UInt8 :=
  match postings with
  | [posting] => ((tierSingleton <<< tierShift) ||| posting, region)
  | _ =>
      ((tierSmall <<< tierShift) ||| region.length,
        region ++ (encodeVarint postings.length ++ (deltas 0 postings).flatMap encodeVarint))

/-- Read differences and add them up; the first is the first value. -/
def decodeDeltas : (count : Nat) → (prev : Option Nat) → List UInt8 →
    Except PostingsError (List Nat)
  | 0, _, _ => .ok []
  | count + 1, prev, cursor =>
      match decodeVarint cursor with
      | .error error => .error error
      | .ok (delta, consumed) =>
          let posting := prev.getD 0 + delta
          if delta ≥ 2 ^ 32 ∨ posting ≥ 2 ^ 32 then
            .error .positionOverflow
          else
            match decodeDeltas count (some posting) (cursor.drop consumed) with
            | .error error => .error error
            | .ok postings => .ok (posting :: postings)

/-- Read the block at an offset of the region.  The result is `none` where the
code panics: no vector has room for the count. -/
def decodeDeltaBlock (offset : Nat) (region : List UInt8) :
    Option (Except PostingsError (List Nat)) :=
  if offset > region.length then
    some (.error (.offsetOutOfBounds offset region.length))
  else
    let cursor := region.drop offset
    match decodeVarint cursor with
    | .error error => some (.error error)
    | .ok (count, consumed) =>
        if count * 4 ≥ 2 ^ 63 then
          none
        else
          some (decodeDeltas count none (cursor.drop consumed))

/-- The postings that a value stands for.  The result is `none` where the code
panics. -/
def decodePostings (value : Nat) (region : List UInt8) :
    Option (Except PostingsError (List Nat)) :=
  let tier := value >>> tierShift
  let payload := value % 2 ^ tierShift
  if tier = tierSingleton then
    some (.ok [payload % 2 ^ 32])
  else if tier = tierSmall then
    decodeDeltaBlock payload region
  else if tier = tierDense then
    some (.error .reservedDenseTier)
  else
    none

/-- The number of postings that a value stands for.  The result is `none` where
the code panics. -/
def postingLen (value : Nat) (region : List UInt8) : Option (Except PostingsError Nat) :=
  let tier := value >>> tierShift
  let payload := value % 2 ^ tierShift
  if tier = tierSingleton then
    some (.ok 1)
  else if tier = tierSmall then
    if payload > region.length then
      some (.error (.offsetOutOfBounds payload region.length))
    else
      match decodeVarint (region.drop payload) with
      | .error error => some (.error error)
      | .ok (count, _) =>
          if count ≥ 2 ^ 32 then some (.error .positionOverflow) else some (.ok count)
  else if tier = tierDense then
    some (.error .reservedDenseTier)
  else
    none

theorem length_of_decodeDeltas {count : Nat} {prev : Option Nat} {cursor : List UInt8}
    {postings : List Nat} (decoded : decodeDeltas count prev cursor = .ok postings) :
    postings.length = count := by
  induction count generalizing prev cursor postings with
  | zero =>
      cases decoded
      rfl
  | succ count ih =>
      rw [decodeDeltas] at decoded
      split at decoded
      · cases decoded
      · dsimp only at decoded
        split at decoded
        · cases decoded
        · split at decoded
          · cases decoded
          · next more rest =>
              cases decoded
              rw [List.length_cons, ih rest]

/-- The length of a list that can be decoded is told as it is. -/
theorem postingLen_of_decoded {value : Nat} {region : List UInt8} {postings : List Nat}
    (decoded : decodePostings value region = some (.ok postings))
    (short : postings.length < 2 ^ 32) :
    postingLen value region = some (.ok postings.length) := by
  rw [decodePostings] at decoded
  rw [postingLen]
  split at decoded
  · next single =>
      rw [if_pos single]
      cases decoded
      rfl
  next several =>
  rw [if_neg several]
  split at decoded
  · next small =>
      rw [if_pos small]
      rw [decodeDeltaBlock] at decoded
      split at decoded
      · cases decoded
      next inside =>
      rw [if_neg inside]
      dsimp only at decoded
      split at decoded
      · cases decoded
      next count consumed read =>
      split at decoded
      · cases decoded
      have counted := length_of_decodeDeltas (Option.some.inj decoded)
      rw [if_neg (by omega), counted]
  · split at decoded <;> cases decoded

/-- The differences of ascending postings add up to these postings, whatever
bytes follow. -/
private theorem decodeDeltas_deltas {postings : List Nat} {prev : Nat} {start : Option Nat}
    (startEq : start.getD 0 = prev) (above : ∀ posting ∈ postings, prev ≤ posting)
    (ascending : postings.Pairwise (· < ·)) (fits : ∀ posting ∈ postings, posting < 2 ^ 32)
    (rest : List UInt8) :
    decodeDeltas postings.length start ((deltas prev postings).flatMap encodeVarint ++ rest) =
      .ok postings := by
  induction postings generalizing prev start with
  | nil => rfl
  | cons posting postings ih =>
      obtain ⟨beyond, ascending⟩ := List.pairwise_cons.mp ascending
      have small := fits posting (List.mem_cons_self ..)
      have large := above posting (List.mem_cons_self ..)
      have sum : prev + (posting - prev) = posting := by omega
      have read := decodeVarint_encodeVarint (show posting - prev < 2 ^ 64 by omega)
        ((deltas posting postings).flatMap encodeVarint ++ rest)
      have others := ih (show (some posting).getD 0 = posting from rfl)
        (fun later member => (beyond later member).le) ascending
        (fun later member => fits later (List.mem_cons_of_mem _ member))
      rw [deltas, List.flatMap_cons, List.append_assoc, List.length_cons, decodeDeltas, read]
      dsimp only
      rw [startEq, sum, if_neg (by omega), List.drop_left, others]

private theorem tier_or {tier payload : Nat} (fits : payload < 2 ^ tierShift) :
    (tier <<< tierShift) ||| payload = 2 ^ tierShift * tier + payload := by
  rw [Nat.shiftLeft_eq, Nat.mul_comm, ← Nat.two_pow_add_eq_or_of_lt fits]

private theorem tier_payload {tier payload : Nat} (fits : payload < 2 ^ tierShift) :
    ((tier <<< tierShift) ||| payload) >>> tierShift = tier ∧
      ((tier <<< tierShift) ||| payload) % 2 ^ tierShift = payload := by
  rw [tier_or fits, Nat.shiftRight_eq_div_pow, Nat.mul_add_mod, Nat.mod_eq_of_lt fits,
    Nat.mul_add_div (Nat.two_pow_pos _), Nat.div_eq_of_lt fits]
  exact ⟨rfl, rfl⟩

private theorem encodePostings_block {postings : List Nat} (several : postings.length ≠ 1)
    (region : List UInt8) :
    encodePostings postings region =
      ((tierSmall <<< tierShift) ||| region.length,
        region ++ (encodeVarint postings.length ++ (deltas 0 postings).flatMap encodeVarint)) := by
  unfold encodePostings
  split
  · exact absurd rfl several
  · rfl

theorem encodePostings_extends (postings : List Nat) (region : List UInt8) :
    region <+: (encodePostings postings region).2 := by
  unfold encodePostings
  split
  · exact List.prefix_refl _
  · exact List.prefix_append ..

theorem encodePostings_lt {postings : List Nat} {region : List UInt8}
    (fits : ∀ posting ∈ postings, posting < 2 ^ 32) (small : region.length < 2 ^ 62) :
    (encodePostings postings region).1 < 2 ^ 64 := by
  by_cases single : postings.length = 1
  · obtain ⟨posting, rfl⟩ := List.length_eq_one_iff.mp single
    have inlined := fits posting (List.mem_singleton_self posting)
    have value : (encodePostings [posting] region).1 = 2 ^ tierShift * 0 + posting :=
      tier_or (inlined.trans (by decide))
    omega
  · have value : (encodePostings postings region).1 = 2 ^ tierShift * 1 + region.length := by
      rw [encodePostings_block single]
      exact tier_or small
    have shift : tierShift = 62 := rfl
    rw [value, shift]
    omega

/-- There are no more ascending numbers than there is room for. -/
theorem length_le_of_ascending {postings : List Nat} {low bound : Nat}
    (ascending : postings.Pairwise (· < ·)) (room : low ≤ bound)
    (above : ∀ posting ∈ postings, low ≤ posting)
    (below : ∀ posting ∈ postings, posting < bound) : low + postings.length ≤ bound := by
  induction postings generalizing low with
  | nil => simpa using room
  | cons posting postings ih =>
      obtain ⟨beyond, ascending⟩ := List.pairwise_cons.mp ascending
      have first := above posting (List.mem_cons_self ..)
      have inside := below posting (List.mem_cons_self ..)
      have rest := ih ascending (show posting + 1 ≤ bound from inside) beyond
        (fun later member => below later (List.mem_cons_of_mem _ member))
      rw [List.length_cons]
      omega

section Extended

variable {postings : List Nat} {region final : List UInt8}

/-- An offset that the payload has bits for is read from the value of a block. -/
private theorem tier_offset (small : region.length < 2 ^ 62) :
    ((tierSmall <<< tierShift) ||| region.length) >>> tierShift = tierSmall ∧
      ((tierSmall <<< tierShift) ||| region.length) % 2 ^ tierShift = region.length :=
  tier_payload small

private theorem drop_block {rest : List UInt8} :
    (region ++ (encodeVarint postings.length ++ (deltas 0 postings).flatMap encodeVarint) ++
        rest).drop region.length =
      encodeVarint postings.length ++ ((deltas 0 postings).flatMap encodeVarint ++ rest) := by
  rw [List.append_assoc, List.drop_left, List.append_assoc]

/-- What the value of a posting list stands for, in every region that extends
the one the list was encoded into. -/
theorem decodePostings_of_encoded (ascending : postings.Pairwise (· < ·))
    (fits : ∀ posting ∈ postings, posting < 2 ^ 32)
    (extended : (encodePostings postings region).2 <+: final) (small : region.length < 2 ^ 62) :
    decodePostings (encodePostings postings region).1 final = some (.ok postings) := by
  by_cases single : postings.length = 1
  · obtain ⟨posting, rfl⟩ := List.length_eq_one_iff.mp single
    have inlined := fits posting (List.mem_singleton_self posting)
    obtain ⟨tierEq, payloadEq⟩ :=
      @tier_payload tierSingleton posting (inlined.trans (by decide))
    unfold decodePostings encodePostings
    dsimp only
    rw [tierEq, payloadEq, Nat.mod_eq_of_lt inlined]
    rfl
  · rw [encodePostings_block single] at extended ⊢
    obtain ⟨rest, rfl⟩ := extended
    have bounded := length_le_of_ascending ascending (Nat.zero_le _)
      (fun posting _ => Nat.zero_le posting) fits
    have count := decodeVarint_encodeVarint (show postings.length < 2 ^ 64 by omega)
      ((deltas 0 postings).flatMap encodeVarint ++ rest)
    have values := decodeDeltas_deltas (show (none : Option Nat).getD 0 = 0 from rfl)
      (fun posting _ => Nat.zero_le posting) ascending fits rest
    obtain ⟨tierEq, payloadEq⟩ := tier_offset small
    unfold decodePostings decodeDeltaBlock
    dsimp only
    rw [tierEq, payloadEq, if_neg (by decide), if_pos rfl,
      if_neg (by simp only [List.length_append]; omega), drop_block, count]
    dsimp only
    rw [if_neg (by omega), List.drop_left, values]

/-- The length of a posting list is read from its value, unless it has more than 32 bits. -/
theorem postingLen_of_encoded (counted : postings.length < 2 ^ 64)
    (fits : ∀ posting ∈ postings, posting < 2 ^ 32)
    (extended : (encodePostings postings region).2 <+: final) (small : region.length < 2 ^ 62) :
    postingLen (encodePostings postings region).1 final =
      some (if postings.length < 2 ^ 32 then .ok postings.length
        else .error .positionOverflow) := by
  by_cases single : postings.length = 1
  · obtain ⟨posting, rfl⟩ := List.length_eq_one_iff.mp single
    have inlined := fits posting (List.mem_singleton_self posting)
    obtain ⟨tierEq, payloadEq⟩ :=
      @tier_payload tierSingleton posting (inlined.trans (by decide))
    unfold postingLen encodePostings
    dsimp only
    rw [tierEq, payloadEq, if_pos rfl]
    rfl
  · rw [encodePostings_block single] at extended ⊢
    obtain ⟨rest, rfl⟩ := extended
    have count := decodeVarint_encodeVarint counted
      ((deltas 0 postings).flatMap encodeVarint ++ rest)
    obtain ⟨tierEq, payloadEq⟩ := tier_offset small
    unfold postingLen
    dsimp only
    rw [tierEq, payloadEq, if_neg (by decide), if_pos rfl,
      if_neg (by simp only [List.length_append]; omega), drop_block, count]
    dsimp only
    by_cases short : postings.length < 2 ^ 32
    · rw [if_neg (by omega), if_pos short]
    · rw [if_pos (by omega), if_neg short]

theorem decodePostings_encodePostings (ascending : postings.Pairwise (· < ·))
    (fits : ∀ posting ∈ postings, posting < 2 ^ 32) (short : postings.length < 2 ^ 32)
    (extended : (encodePostings postings region).2 <+: final) (small : final.length < 2 ^ 62) :
    decodePostings (encodePostings postings region).1 final = some (.ok postings) ∧
      postingLen (encodePostings postings region).1 final = some (.ok postings.length) := by
  have before : region.length < 2 ^ 62 :=
    ((encodePostings_extends postings region).trans extended).length_le.trans_lt small
  have read := postingLen_of_encoded (by omega) fits extended before
  rw [if_pos short] at read
  exact ⟨decodePostings_of_encoded ascending fits extended before, read⟩

end Extended

end Index

end Tephra
