import Tephra.FrameChain

/-!
# Chains of runs

A run is a chain of items of which the last one, and no other, is marked.  When items
may not end behind a limit, the marked prefix of a chain of runs is what comes before
the first run that ends behind the limit.
-/

namespace FrameChain

variable {Item : Type*} {decode : Decoder Item} {marked : Item → Prop}

/-- Reads the items that end by a limit. -/
def within (decode : Decoder Item) (limit : Nat) : Decoder Item := fun offset =>
  (decode offset).filter fun found => decide (found.2 ≤ limit)

theorem within_eq_some_iff {limit offset next : Nat} {item : Item} :
    within decode limit offset = some (item, next) ↔
      decode offset = some (item, next) ∧ next ≤ limit := by
  simp [within, Option.filter_eq_some_iff]

theorem advances_within {bound : Nat} (advances : Advances decode bound) (limit : Nat) :
    Advances (within decode limit) limit := by
  intro offset item next here
  obtain ⟨found, fits⟩ := within_eq_some_iff.mp here
  exact ⟨(advances offset item next found).1, fits⟩

theorem Chain.of_within {limit start stop : Nat} {items : List (Nat × Item)}
    (chain : Chain (within decode limit) start items stop) : Chain decode start items stop := by
  induction chain with
  | nil offset => exact .nil offset
  | cons here rest ih => exact .cons (within_eq_some_iff.mp here).1 ih

theorem Chain.within {bound limit start stop : Nat} {items : List (Nat × Item)}
    (advances : Advances decode bound) (chain : Chain decode start items stop)
    (fits : stop ≤ limit) : Chain (within decode limit) start items stop := by
  apply chain.transfer advances
  intro offset item next above below here
  exact within_eq_some_iff.mpr ⟨here, Nat.le_trans below fits⟩

theorem Unmarked.within {start : Nat} (unmarked : Unmarked decode marked start) (limit : Nat) :
    Unmarked (within decode limit) marked start := by
  intro items stop chain
  exact unmarked items stop chain.of_within

/-- Items of which the last one alone is marked. -/
def IsRun (marked : Item → Prop) (items : List (Nat × Item)) : Prop :=
  ∃ plain entry, items = plain ++ [entry] ∧ (∀ other ∈ plain, ¬ marked other.2) ∧ marked entry.2

theorem IsRun.ends {items : List (Nat × Item)} (isRun : IsRun marked items) :
    EndsMarked marked items := by
  obtain ⟨plain, entry, rfl, -, isMarked⟩ := isRun
  exact ⟨plain, entry, rfl, isMarked⟩

/-- Runs that follow each other from one offset up to another. -/
inductive Runs (decode : Decoder Item) (marked : Item → Prop) :
    Nat → List (List (Nat × Item)) → Nat → Prop
  | nil (offset : Nat) : Runs decode marked offset [] offset
  | cons {start middle stop : Nat} {items : List (Nat × Item)} {runs : List (List (Nat × Item))}
      (isRun : IsRun marked items) (here : Chain decode start items middle)
      (rest : Runs decode marked middle runs stop) :
      Runs decode marked start (items :: runs) stop

theorem Runs.chain {start stop : Nat} {runs : List (List (Nat × Item))}
    (follow : Runs decode marked start runs stop) : Chain decode start runs.flatten stop := by
  induction follow with
  | nil offset => exact .nil offset
  | cons isRun here rest ih => exact here.append ih

/-- A run that ends behind the limit leaves nothing marked within it. -/
theorem IsRun.unmarked_within {bound limit start stop : Nat} {items : List (Nat × Item)}
    (isRun : IsRun marked items) (advances : Advances decode bound)
    (chain : Chain decode start items stop) (behind : limit < stop) :
    Unmarked (FrameChain.within decode limit) marked start := by
  intro others end_ limited ends
  have reach : end_ ≤ limit := by
    rcases limited.stop_le (advances_within advances limit) with same | fits
    · obtain ⟨entry, member, -⟩ := ends.exists_mem
      have positive := List.length_pos_of_mem member
      have grows := limited.le (advances_within advances limit)
      omega
    · exact fits
  rcases chain.comparable limited.of_within with ⟨extra, -, extraChain⟩ | ⟨extra, itemsEq, extraChain⟩
  · have grows := extraChain.le advances
    omega
  · obtain ⟨plain, entry, rfl, plainItems, -⟩ := isRun
    rcases List.eq_nil_or_concat' extra with rfl | ⟨front, last, rfl⟩
    · have same := chain_nil_iff.mp extraChain
      omega
    · rw [← List.append_assoc] at itemsEq
      obtain ⟨rfl, -⟩ := List.append_inj' itemsEq rfl
      obtain ⟨other, member, isMarked⟩ := ends.exists_mem
      exact plainItems other (List.mem_append_left _ member) isMarked

/-- Of the runs before an unmarked offset, those in front of the first one that ends
behind the limit are the marked prefix within it. -/
theorem Runs.markedPrefix_within {bound limit start stop : Nat} {runs : List (List (Nat × Item))}
    (follow : Runs decode marked start runs stop) (advances : Advances decode bound)
    (unmarked : Unmarked decode marked stop) (inside : start ≤ limit) :
    ∃ count middle,
      MarkedPrefix (within decode limit) marked start (runs.take count).flatten middle ∧
        (stop ≤ limit → count = runs.length ∧ middle = stop) ∧
        (limit < stop → count < runs.length) := by
  induction follow with
  | nil offset =>
      refine ⟨0, offset, ⟨.nil offset, Or.inl rfl, unmarked.within limit⟩, fun _ => ⟨rfl, rfl⟩, ?_⟩
      intro behind
      omega
  | @cons start middle stop items runs isRun here rest ih =>
      rcases Nat.lt_or_ge limit middle with behind | fits
      · have cut := isRun.unmarked_within advances here behind
        have grows := rest.chain.le advances
        refine ⟨0, start, ⟨.nil start, Or.inl rfl, cut⟩, ?_, fun _ => by simp⟩
        intro reaches
        omega
      · obtain ⟨count, last, longest, whole, short⟩ := ih unmarked fits
        refine ⟨count + 1, last, ⟨?_, ?_, longest.longest⟩, ?_, ?_⟩
        · exact (here.within advances fits).append longest.chain
        · right
          rcases longest.ends with empty | ends
          · rw [List.take_succ_cons, List.flatten_cons, empty, List.append_nil]
            exact isRun.ends
          · exact ends.append_left
        · intro reaches
          obtain ⟨countEq, lastEq⟩ := whole reaches
          exact ⟨congrArg Nat.succ countEq, lastEq⟩
        · intro cut
          exact Nat.succ_lt_succ (short cut)

end FrameChain
