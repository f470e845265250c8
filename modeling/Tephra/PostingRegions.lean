import Mathlib.Data.List.Forall2
import Tephra.Postings

/-!
# Posting regions

All posting lists of an index share one region.  Lists that are encoded one after
another are read back from the finished region; and of the values and regions that no
encoder wrote, exactly some are answered by an error or by an ascending list.
-/

namespace Tephra

namespace Index

/-- A posting list as the encoder wants it. -/
structure IsPostingList (postings : List Nat) : Prop where
  nonempty : postings ≠ []
  ascending : postings.Pairwise (· < ·)
  fits : ∀ posting ∈ postings, posting < 2 ^ 32

/-- Encode lists one after another into one region. -/
def encodeAll : List (List Nat) → List UInt8 → List Nat × List UInt8
  | [], region => ([], region)
  | postings :: lists, region =>
      let first := encodePostings postings region
      let rest := encodeAll lists first.2
      (first.1 :: rest.1, rest.2)

theorem encodeAll_extends (lists : List (List Nat)) (region : List UInt8) :
    region <+: (encodeAll lists region).2 := by
  induction lists generalizing region with
  | nil => exact List.prefix_refl _
  | cons postings lists ih => exact (encodePostings_extends postings region).trans (ih _)

/-- What a value answers for a list that was encoded into a region. -/
structure ReadsBack (final : List UInt8) (value : Nat) (postings : List Nat) : Prop where
  decoded : decodePostings value final = some (.ok postings)
  counted : postingLen value final =
    some (if postings.length = 2 ^ 32 then .error .positionOverflow else .ok postings.length)

theorem encodePostings_readsBack {postings : List Nat} {region final : List UInt8}
    (list : IsPostingList postings) (extended : (encodePostings postings region).2 <+: final)
    (small : region.length < 2 ^ 62) :
    ReadsBack final (encodePostings postings region).1 postings := by
  have bounded := length_le_of_ascending list.ascending (Nat.zero_le _)
    (fun posting _ => Nat.zero_le posting) list.fits
  have counted := postingLen_of_encoded (by omega) list.fits extended small
  constructor
  · exact decodePostings_of_encoded list.ascending list.fits extended small
  · by_cases full : postings.length = 2 ^ 32
    · rw [if_neg (by omega)] at counted
      rwa [if_pos full]
    · rw [if_pos (by omega)] at counted
      rwa [if_neg full]

/-- Every list is read back from the finished region, when each begins where an offset can
tell; only the length of the list of all positions is not. -/
theorem encodeAll_readsBack {lists : List (List Nat)} {region : List UInt8}
    (each : ∀ postings ∈ lists, IsPostingList postings)
    (small : (encodeAll lists.dropLast region).2.length < 2 ^ 62) :
    List.Forall₂ (ReadsBack (encodeAll lists region).2) (encodeAll lists region).1 lists := by
  induction lists generalizing region with
  | nil => exact .nil
  | cons postings lists ih =>
      obtain ⟨list, each⟩ := List.forall_mem_cons.mp each
      have extended := encodeAll_extends lists (encodePostings postings region).2
      rw [encodeAll]
      cases lists with
      | nil => exact .cons (encodePostings_readsBack list extended small) .nil
      | cons next lists =>
          have before := ((encodePostings_extends postings region).trans
            (encodeAll_extends (next :: lists).dropLast _)).length_le
          rw [List.dropLast_cons_cons, encodeAll] at small
          exact .cons (encodePostings_readsBack list extended (before.trans_lt small))
            (ih each small)

theorem encodeAll_readsBack_two :
    List.Forall₂ (ReadsBack (encodeAll [[5], [1, 3]] []).2) (encodeAll [[5], [1, 3]] []).1
      [[5], [1, 3]] := by
  have each : ∀ postings ∈ [[5], [1, 3]], IsPostingList postings := by
    intro postings member
    constructor
    · revert postings
      decide
    · revert postings
      decide
    · revert postings
      decide
  exact encodeAll_readsBack each (by decide)

theorem length_encodeAll (lists : List (List Nat)) (region : List UInt8) :
    (encodeAll lists region).1.length = lists.length := by
  induction lists generalizing region with
  | nil => rfl
  | cons postings lists ih => rw [encodeAll, List.length_cons, ih, List.length_cons]

theorem encodeAll_append (front back : List (List Nat)) (region : List UInt8) :
    encodeAll (front ++ back) region =
      ((encodeAll front region).1 ++ (encodeAll back (encodeAll front region).2).1,
        (encodeAll back (encodeAll front region).2).2) := by
  induction front generalizing region with
  | nil => rfl
  | cons postings front ih =>
      rw [List.cons_append, encodeAll, encodeAll, ih]
      rfl

theorem encodeAll_replicate {postings : List Nat} {block : List UInt8}
    (encoded : ∀ region, (encodePostings postings region).2 = region ++ block) (count : Nat)
    (region : List UInt8) :
    (encodeAll (List.replicate count postings) region).2 =
      region ++ (List.replicate count block).flatten := by
  induction count generalizing region with
  | zero => simp [encodeAll]
  | succ count ih =>
      rw [List.replicate_succ, encodeAll]
      dsimp only
      rw [ih, encoded, List.append_assoc, List.replicate_succ, List.flatten_cons]

/-- All lists are read back together with their lengths. -/
def ReadsBackAll (lists : List (List Nat)) : Prop :=
  List.Forall₂
    (fun value postings =>
      decodePostings value (encodeAll lists []).2 = some (.ok postings) ∧
        postingLen value (encodeAll lists []).2 = some (.ok postings.length))
    (encodeAll lists []).1 lists

theorem isPostingList_range {count : Nat} (some_list : 0 < count) (fits : count ≤ 2 ^ 32) :
    IsPostingList (List.range count) := by
  constructor
  · rw [← List.length_pos_iff_ne_nil, List.length_range]
    exact some_list
  · exact List.pairwise_lt_range
  · intro posting member
    exact (List.mem_range.mp member).trans_le fits

/-- No length of 32 bits tells how long the list of all positions is. -/
theorem not_readsBackAll_full {postings : List Nat} (list : IsPostingList postings)
    (full : postings.length = 2 ^ 32) : ¬ ReadsBackAll [postings] := by
  intro all
  obtain ⟨-, counted⟩ := (List.forall₂_cons.mp all).1
  have known := postingLen_of_encoded (by omega) list.fits
    (encodeAll_extends [] (encodePostings postings []).2) (by simp)
  rw [if_neg (by omega)] at known
  rw [encodeAll] at counted
  cases known.symm.trans counted

theorem encodePostings_zero_one (region : List UInt8) :
    encodePostings [0, 1] region =
      ((tierSmall <<< tierShift) ||| region.length, region ++ [2, 0, 1]) := by
  have zero : encodeVarint 0 = [0] := by
    rw [encodeVarint, if_pos rfl]
    rfl
  have one : encodeVarint 1 = [1] := by
    rw [encodeVarint, if_pos rfl]
    rfl
  have two : encodeVarint 2 = [2] := by
    rw [encodeVarint, if_pos rfl]
    rfl
  simp [encodePostings, deltas, zero, one, two]

theorem decodePostings_middle (rest : List UInt8) :
    decodePostings (2 ^ 62 + 2) ([2, 0, 1, 2] ++ rest) = some (.ok [2]) := by
  have tier : (2 ^ 62 + 2) >>> tierShift = tierSmall := by decide
  have payload : (2 ^ 62 + 2) % 2 ^ tierShift = 2 := by decide
  have inside : ¬ 2 > ([2, 0, 1, 2] ++ rest).length := by simp
  have one : decodeVarint (([2, 0, 1, 2] ++ rest).drop 2) = .ok (1, 1) := rfl
  have two : decodeDeltas 1 none ((([2, 0, 1, 2] ++ rest).drop 2).drop 1) = .ok [2] := rfl
  rw [decodePostings, tier, payload]
  rw [if_neg (by decide), if_pos rfl, decodeDeltaBlock, if_neg inside]
  dsimp only
  rw [one]
  dsimp only
  rw [if_neg (by decide), two]

/-- A list behind more than `2 ^ 62` bytes is taken for one at their front. -/
theorem not_readsBackAll_far {count : Nat} (far : 3 * count = 2 ^ 62 + 2) :
    ¬ ReadsBackAll (List.replicate count [0, 1] ++ [[0, 1]]) := by
  intro all
  have front : (encodeAll (List.replicate count [0, 1]) []).2 =
      (List.replicate count [2, 0, 1]).flatten :=
    encodeAll_replicate (fun region => by rw [encodePostings_zero_one]) count []
  have length : (List.replicate count ([2, 0, 1] : List UInt8)).flatten.length = 2 ^ 62 + 2 := by
    rw [List.length_flatten, List.map_replicate, List.sum_replicate_nat, ← far]
    exact Nat.mul_comm ..
  have value : (tierSmall <<< tierShift) ||| (2 ^ 62 + 2) = 2 ^ 62 + 2 := by decide
  rw [ReadsBackAll, encodeAll_append, List.forall₂_iff_zip, List.zip_append] at all
  · obtain ⟨decoded, -⟩ := all.2 (List.mem_append_right _ (List.mem_singleton_self _))
    obtain ⟨more, rfl⟩ : ∃ more, count = more + 2 := ⟨count - 2, by omega⟩
    rw [front, encodeAll, encodeAll, encodePostings_zero_one] at decoded
    dsimp only at decoded
    rw [length, value, List.replicate_succ, List.replicate_succ, List.flatten_cons,
      List.flatten_cons, List.append_assoc, List.append_assoc] at decoded
    cases decoded.symm.trans (decodePostings_middle _)
  · exact length_encodeAll ..

theorem not_readsBackAll :
    (IsPostingList (List.range (2 ^ 32)) ∧ ¬ ReadsBackAll [List.range (2 ^ 32)]) ∧
      IsPostingList [0, 1] ∧
        ¬ ReadsBackAll (List.replicate 1537228672809129302 [0, 1] ++ [[0, 1]]) := by
  have full := @isPostingList_range (2 ^ 32) (Nat.two_pow_pos _) le_rfl
  refine ⟨⟨full, not_readsBackAll_full full List.length_range⟩, ?_,
    not_readsBackAll_far (by norm_num)⟩
  exact @isPostingList_range 2 (by decide) (by decide)

/-- Varints one behind the other, if all are there. -/
def readVarints : (count : Nat) → (cursor : List UInt8) → Option (List Nat)
  | 0, _ => some []
  | count + 1, cursor =>
      match decodeVarint cursor with
      | .error _ => none
      | .ok (number, consumed) =>
          (readVarints count (cursor.drop consumed)).map fun numbers => number :: numbers

/-- The sums of numbers from a first one on. -/
def sums (start : Nat) : List Nat → List Nat
  | [] => []
  | number :: numbers => (start + number) :: sums (start + number) numbers

@[simp]
theorem length_sums (start : Nat) (numbers : List Nat) :
    (sums start numbers).length = numbers.length := by
  induction numbers generalizing start with
  | nil => rfl
  | cons number numbers ih => rw [sums, List.length_cons, ih, List.length_cons]

theorem length_of_readVarints {count : Nat} {cursor : List UInt8} {numbers : List Nat}
    (read : readVarints count cursor = some numbers) : numbers.length = count := by
  induction count generalizing cursor numbers with
  | zero =>
      cases read
      rfl
  | succ count ih =>
      rw [readVarints] at read
      split at read
      · cases read
      · obtain ⟨others, found, rfl⟩ := Option.map_eq_some_iff.mp read
        rw [List.length_cons, ih found]

theorem pairwise_sums_iff (start number : Nat) (numbers : List Nat) :
    (sums start (number :: numbers)).Pairwise (· < ·) ↔ ∀ later ∈ numbers, later ≠ 0 := by
  rw [← List.isChain_iff_pairwise]
  induction numbers generalizing start number with
  | nil => simp [sums]
  | cons second numbers ih =>
      have rest := ih (start + number) second
      rw [sums] at rest
      rw [sums, sums, List.isChain_cons_cons, rest, List.forall_mem_cons]
      exact and_congr_left' (by omega)

theorem decodeDeltas_eq_ok_iff {count : Nat} {prev : Option Nat} {cursor : List UInt8}
    {postings : List Nat} (below : prev.getD 0 < 2 ^ 32) :
    decodeDeltas count prev cursor = .ok postings ↔
      ∃ numbers, readVarints count cursor = some numbers ∧
        prev.getD 0 + numbers.sum < 2 ^ 32 ∧ postings = sums (prev.getD 0) numbers := by
  induction count generalizing prev cursor postings with
  | zero =>
      constructor
      · intro decoded
        cases decoded
        exact ⟨[], rfl, below, rfl⟩
      · rintro ⟨numbers, read, -, rfl⟩
        cases read
        rfl
  | succ count ih =>
      rw [decodeDeltas, readVarints]
      cases decodeVarint cursor with
      | error error => simp
      | ok found =>
          obtain ⟨delta, consumed⟩ := found
          dsimp only
          by_cases large : delta ≥ 2 ^ 32 ∨ prev.getD 0 + delta ≥ 2 ^ 32
          · rw [if_pos large]
            constructor
            · intro decoded
              cases decoded
            · rintro ⟨numbers, read, sum, -⟩
              obtain ⟨others, -, rfl⟩ := Option.map_eq_some_iff.mp read
              rw [List.sum_cons] at sum
              omega
          · rw [if_neg large]
            have inner (rest : List Nat) := @ih (some (prev.getD 0 + delta)) (cursor.drop consumed)
              rest (by rw [Option.getD_some]; omega)
            constructor
            · intro decoded
              cases rest : decodeDeltas count (some (prev.getD 0 + delta))
                  (cursor.drop consumed) with
              | error error =>
                  rw [rest] at decoded
                  cases decoded
              | ok later =>
                  rw [rest] at decoded
                  cases decoded
                  obtain ⟨numbers, read, sum, rfl⟩ := (inner later).mp rest
                  rw [Option.getD_some] at sum
                  refine ⟨delta :: numbers, by rw [read]; rfl, ?_, rfl⟩
                  rw [List.sum_cons]
                  omega
            · rintro ⟨numbers, read, sum, rfl⟩
              obtain ⟨others, found, rfl⟩ := Option.map_eq_some_iff.mp read
              rw [List.sum_cons] at sum
              have rest := (inner (sums (prev.getD 0 + delta) others)).mpr
                ⟨others, found, by rw [Option.getD_some]; omega, rfl⟩
              rw [rest]
              rfl

/-- Decoding answers by an error, or by a strictly ascending list that is as long as the value
tells and of which no position is cut off. -/
def Answers (value : UInt64) (region : List UInt8) : Prop :=
  match decodePostings value.toNat region with
  | none => False
  | some (.error _) => True
  | some (.ok postings) =>
      postings.Pairwise (· < ·) ∧ postingLen value.toNat region = some (.ok postings.length) ∧
        (value.toNat >>> tierShift = tierSingleton → postings = [value.toNat % 2 ^ tierShift])

/-- There is a vector for the count of a block; and if all its differences are there and add up
to a position, then their number has 32 bits and none behind the first is zero. -/
def ReadableBlock (offset : Nat) (region : List UInt8) : Prop :=
  ∀ count consumed, offset ≤ region.length →
    decodeVarint (region.drop offset) = .ok (count, consumed) →
      count < 2 ^ 61 ∧ ∀ numbers,
        readVarints count ((region.drop offset).drop consumed) = some numbers →
          numbers.sum < 2 ^ 32 → count < 2 ^ 32 ∧ ∀ later ∈ numbers.tail, later ≠ 0

/-- A value of a known form whose posting or block is what the form says. -/
structure Readable (value : UInt64) (region : List UInt8) : Prop where
  known : value.toNat >>> tierShift ≠ 3
  inlined : value.toNat >>> tierShift = tierSingleton → value.toNat % 2 ^ tierShift < 2 ^ 32
  block : value.toNat >>> tierShift = tierSmall →
    ReadableBlock (value.toNat % 2 ^ tierShift) region

theorem pairwise_sums_zero_iff (numbers : List Nat) :
    (sums 0 numbers).Pairwise (· < ·) ↔ ∀ later ∈ numbers.tail, later ≠ 0 := by
  cases numbers with
  | nil => simp [sums]
  | cons number numbers => exact pairwise_sums_iff 0 number numbers

/-- Of the values of blocks, those are answered whose block is readable. -/
theorem answers_block_iff {value : UInt64} {region : List UInt8}
    (tier : value.toNat >>> tierShift = tierSmall) :
    Answers value region ↔ ReadableBlock (value.toNat % 2 ^ tierShift) region := by
  have notSingleton : tierSmall ≠ tierSingleton := by decide
  rw [Answers, decodePostings, postingLen, ReadableBlock, tier]
  rw [if_neg notSingleton, if_pos rfl, if_neg notSingleton, if_pos rfl, decodeDeltaBlock]
  by_cases outside : value.toNat % 2 ^ tierShift > region.length
  · rw [if_pos outside]
    constructor
    · intro _ count consumed inside
      omega
    · exact fun _ => trivial
  · rw [if_neg outside, if_neg outside]
    dsimp only
    have inside := Nat.le_of_not_lt outside
    cases counted : decodeVarint (region.drop (value.toNat % 2 ^ tierShift)) with
    | error error =>
        constructor
        · intro _ count consumed _ read
          cases read
        · exact fun _ => trivial
    | ok found =>
        obtain ⟨count, consumed⟩ := found
        dsimp only
        by_cases huge : count * 4 ≥ 2 ^ 63
        · rw [if_pos huge]
          constructor
          · intro absurd
            cases absurd
          · intro readable
            have small := (readable count consumed inside rfl).1
            omega
        · rw [if_neg huge]
          have deltas (postings : List Nat) := @decodeDeltas_eq_ok_iff count none
            ((region.drop (value.toNat % 2 ^ tierShift)).drop consumed) postings (by simp)
          simp only [Option.getD_none, Nat.zero_add] at deltas
          cases decoded : decodeDeltas count none
              ((region.drop (value.toNat % 2 ^ tierShift)).drop consumed) with
          | error error =>
              constructor
              · intro _ count' consumed' _ same
                cases same
                refine ⟨by omega, ?_⟩
                intro numbers read sum
                have impossible := (deltas _).mpr ⟨numbers, read, sum, rfl⟩
                rw [decoded] at impossible
                cases impossible
              · exact fun _ => trivial
          | ok postings =>
              obtain ⟨numbers, read, sum, rfl⟩ := (deltas postings).mp decoded
              have length := length_of_readVarints read
              dsimp only
              rw [pairwise_sums_zero_iff, length_sums, length]
              constructor
              · rintro ⟨positive, lengthEq, -⟩ count' consumed' - same
                cases same
                refine ⟨by omega, ?_⟩
                intro numbers' read' _
                cases read.symm.trans read'
                by_cases large : count ≥ 2 ^ 32
                · rw [if_pos large] at lengthEq
                  cases lengthEq
                · exact ⟨Nat.lt_of_not_le large, positive⟩
              · intro readable
                obtain ⟨-, short⟩ := readable count consumed inside rfl
                obtain ⟨fits, positive⟩ := short numbers read sum
                refine ⟨positive, ?_, fun impossible => absurd impossible notSingleton⟩
                rw [if_neg (by omega)]

/-- Exactly the readable values are answered as they should be. -/
theorem answers_iff_readable (value : UInt64) (region : List UInt8) :
    Answers value region ↔ Readable value region := by
  have word := value.toNat_lt
  have tierLt : value.toNat >>> tierShift < 4 := by
    rw [Nat.shiftRight_eq_div_pow, tierShift]
    omega
  by_cases small : value.toNat >>> tierShift = tierSmall
  · rw [answers_block_iff small]
    constructor
    · intro block
      exact ⟨by rw [small]; decide, fun other => absurd (small.symm.trans other) (by decide),
        fun _ => block⟩
    · exact fun readable => readable.block small
  · by_cases single : value.toNat >>> tierShift = tierSingleton
    · rw [Answers, decodePostings, postingLen, single, if_pos rfl, if_pos rfl]
      constructor
      · rintro ⟨-, -, whole⟩
        have same := List.singleton_inj.mp (whole rfl)
        have below := Nat.mod_lt (value.toNat % 2 ^ tierShift) (Nat.two_pow_pos 32)
        exact ⟨by rw [single]; decide, fun _ => same ▸ below, fun other => absurd other small⟩
      · intro readable
        refine ⟨List.pairwise_singleton _ _, rfl, fun _ => ?_⟩
        rw [Nat.mod_eq_of_lt (readable.inlined single)]
    · by_cases dense : value.toNat >>> tierShift = tierDense
      · rw [Answers, decodePostings, if_neg single, if_neg small, if_pos dense]
        constructor
        · intro _
          exact ⟨by rw [dense]; decide, fun other => absurd other single,
            fun other => absurd other small⟩
        · exact fun _ => trivial
      · rw [Answers, decodePostings, if_neg single, if_neg small, if_neg dense]
        constructor
        · intro absurd
          cases absurd
        · intro readable
          rw [tierSingleton] at single
          rw [tierSmall] at small
          rw [tierDense] at dense
          have unknown := readable.known
          generalize value.toNat >>> tierShift = tier at *
          omega

/-- A difference of zero, a position cut off, and a panic. -/
theorem not_answers :
    (decodePostings (2 ^ 62) [2, 5, 0] = some (.ok [5, 5]) ∧
        ¬ Answers (.ofNat (2 ^ 62)) [2, 5, 0]) ∧
      (decodePostings (2 ^ 32 + 7) [] = some (.ok [7]) ∧ ¬ Answers (.ofNat (2 ^ 32 + 7)) []) ∧
      (decodePostings (3 * 2 ^ 62) [] = none ∧ ¬ Answers (.ofNat (3 * 2 ^ 62)) []) := by
  refine ⟨⟨rfl, ?_⟩, ⟨rfl, ?_⟩, rfl, ?_⟩
  · rintro ⟨ascending, -⟩
    revert ascending
    decide
  · rintro ⟨-, -, whole⟩
    revert whole
    decide
  · intro absurd
    cases absurd

end Index

end Tephra
