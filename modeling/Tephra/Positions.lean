import Mathlib.Data.List.Sort

/-!
# Items under their positions

A log assigns consecutive positions to its items.  This file has the items of a
list under their positions from a base on, and the positions of the items that
pass a test.
-/

namespace Positions

variable {α : Type}

/-- The items of a list under consecutive positions. -/
def positioned (base : Nat) (items : List α) : List (Nat × α) :=
  items.zipIdx.map fun entry => (base + entry.2, entry.1)

@[simp]
theorem positioned_nil (base : Nat) : positioned base ([] : List α) = [] := rfl

theorem positioned_append (base : Nat) (left right : List α) :
    positioned base (left ++ right) =
      positioned base left ++ positioned (base + left.length) right := by
  simp only [positioned, List.zipIdx_append, List.map_append, Nat.zero_add]
  congr 1
  rw [List.zipIdx_eq_map_add]
  simp [Nat.add_assoc]

theorem positioned_singleton (base : Nat) (item : α) :
    positioned base [item] = [(base, item)] := rfl

theorem positioned_cons (base : Nat) (item : α) (items : List α) :
    positioned base (item :: items) = (base, item) :: positioned (base + 1) items :=
  positioned_append base [item] items

@[simp]
theorem length_positioned (base : Nat) (items : List α) :
    (positioned base items).length = items.length := by
  simp [positioned]

theorem take_positioned (base count : Nat) (items : List α) :
    (positioned base items).take count = positioned base (items.take count) := by
  induction items generalizing base count with
  | nil => simp
  | cons item items ih =>
      cases count with
      | zero => rfl
      | succ count =>
          rw [positioned_cons, List.take_succ_cons, List.take_succ_cons, positioned_cons, ih]

theorem mem_positioned {base position : Nat} {items : List α} {item : α} :
    (position, item) ∈ positioned base items ↔
      base ≤ position ∧ items[position - base]? = some item := by
  induction items generalizing base with
  | nil => simp
  | cons first items ih =>
      rw [positioned_cons, List.mem_cons, ih]
      rcases Nat.lt_trichotomy position base with before | rfl | beyond
      · simp only [Prod.mk.injEq]
        omega
      · simp [eq_comm]
      · have shifted : position - base = position - (base + 1) + 1 := by omega
        rw [shifted, List.getElem?_cons_succ]
        simp only [Prod.mk.injEq]
        constructor
        · rintro (⟨same, _⟩ | ⟨_, found⟩)
          · omega
          · exact ⟨by omega, found⟩
        · rintro ⟨_, found⟩
          exact Or.inr ⟨by omega, found⟩

theorem positioned_map {β : Type} (change : α → β) (base : Nat) (items : List α) :
    positioned base (items.map change) =
      (positioned base items).map fun entry => (entry.1, change entry.2) := by
  simp [positioned, List.zipIdx_map]

/-- The items with positions between two bounds, under their positions. -/
def between (first upto base : Nat) (items : List α) : List (Nat × α) :=
  (positioned base items).filter fun entry => decide (first ≤ entry.1 ∧ entry.1 ≤ upto)

theorem mem_between {first upto base position : Nat} {items : List α} {item : α} :
    (position, item) ∈ between first upto base items ↔
      (position, item) ∈ positioned base items ∧ first ≤ position ∧ position ≤ upto := by
  rw [between, List.mem_filter, decide_eq_true_eq]

theorem between_map {β : Type} (change : α → β) (first upto base : Nat) (items : List α) :
    between first upto base (items.map change) =
      (between first upto base items).map fun entry => (entry.1, change entry.2) := by
  rw [between, positioned_map, List.filter_map]
  rfl

theorem between_append (first upto base : Nat) (left right : List α) :
    between first upto base (left ++ right) =
      between first upto base left ++ between first upto (base + left.length) right := by
  rw [between, positioned_append, List.filter_append]
  rfl

theorem between_eq_nil {first upto base : Nat} {items : List α}
    (outside : base + items.length ≤ first ∨ upto < base ∨ upto < first) :
    between first upto base items = [] := by
  apply List.eq_nil_iff_forall_not_mem.mpr
  rintro ⟨position, item⟩ member
  obtain ⟨placed, low, high⟩ := mem_between.mp member
  obtain ⟨inside, found⟩ := mem_positioned.mp placed
  have bound := (List.getElem?_eq_some_iff.mp found).1
  omega

theorem between_eq_positioned {first upto base : Nat} {items : List α} (low : first ≤ base)
    (high : base + items.length ≤ upto + 1) :
    between first upto base items = positioned base items := by
  apply List.filter_eq_self.mpr
  rintro ⟨position, item⟩ member
  obtain ⟨inside, found⟩ := mem_positioned.mp member
  have bound := (List.getElem?_eq_some_iff.mp found).1
  rw [decide_eq_true_eq]
  exact ⟨by omega, by omega⟩

theorem between_eq_slice {first upto base : Nat} {items : List α} (started : base ≤ first) :
    between first upto base items =
      positioned first ((items.drop (first - base)).take (upto + 1 - first)) := by
  by_cases inside : first - base ≤ items.length
  · have front : between first upto base (items.take (first - base)) = [] :=
      between_eq_nil (Or.inl (by rw [List.length_take]; omega))
    have split := between_append first upto base (items.take (first - base))
      (items.drop (first - base))
    rw [List.take_append_drop, front, List.nil_append, List.length_take, Nat.min_eq_left inside,
      Nat.add_sub_cancel' started] at split
    rw [split]
    generalize items.drop (first - base) = rest
    have cut := between_append first upto first (rest.take (upto + 1 - first))
      (rest.drop (upto + 1 - first))
    have whole : between first upto first (rest.take (upto + 1 - first)) =
        positioned first (rest.take (upto + 1 - first)) := by
      by_cases some' : first ≤ upto + 1
      · apply between_eq_positioned (le_refl first)
        rw [List.length_take]
        omega
      · rw [show upto + 1 - first = 0 by omega, List.take_zero, between, positioned_nil,
          List.filter_nil]
    have behind : between first upto (first + (rest.take (upto + 1 - first)).length)
        (rest.drop (upto + 1 - first)) = [] := by
      by_cases long : upto + 1 - first ≤ rest.length
      · rw [List.length_take, Nat.min_eq_left long]
        exact between_eq_nil (Or.inr (by omega))
      · rw [List.drop_of_length_le (by omega), between, positioned_nil, List.filter_nil]
    rw [List.take_append_drop, whole, behind, List.append_nil] at cut
    exact cut
  · rw [List.drop_of_length_le (by omega), List.take_nil, positioned_nil]
    exact between_eq_nil (Or.inl (by omega))

theorem between_snoc {first upto base : Nat} {items : List α} {item : α}
    (started : base ≤ first) (inside : first ≤ upto + 1)
    (found : items[upto + 1 - base]? = some item) :
    between first (upto + 1) base items =
      between first upto base items ++ [(upto + 1, item)] := by
  have bound := (List.getElem?_eq_some_iff.mp found).1
  have here : (items.drop (first - base))[upto + 1 - first]? = some item := by
    rw [List.getElem?_drop, ← found]
    congr 1
    omega
  rw [between_eq_slice started, between_eq_slice started,
    show upto + 1 + 1 - first = upto + 1 - first + 1 by omega, List.take_add_one, here,
    Option.toList_some, positioned_append, positioned_singleton, List.length_take,
    List.length_drop]
  congr 3
  omega

/-- The positions of the items that pass a test. -/
def positionsWhere (test : α → Bool) (base : Nat) (items : List α) : List Nat :=
  ((positioned base items).filter fun entry => test entry.2).map Prod.fst

variable {test : α → Bool}

@[simp]
theorem positionsWhere_nil (base : Nat) : positionsWhere test base [] = [] := rfl

theorem positionsWhere_append (base : Nat) (left right : List α) :
    positionsWhere test base (left ++ right) =
      positionsWhere test base left ++ positionsWhere test (base + left.length) right := by
  simp [positionsWhere, positioned_append]

theorem positionsWhere_snoc (base : Nat) (items : List α) (item : α) :
    positionsWhere test base (items ++ [item]) =
      positionsWhere test base items ++ if test item then [base + items.length] else [] := by
  rw [positionsWhere_append]
  by_cases passes : test item <;> simp [positionsWhere, positioned_singleton, passes]

theorem mem_positionsWhere {base position : Nat} {items : List α} :
    position ∈ positionsWhere test base items ↔
      ∃ item, base ≤ position ∧ items[position - base]? = some item ∧ test item = true := by
  simp only [positionsWhere, List.mem_map, List.mem_filter, Prod.exists, exists_and_right,
    exists_eq_right]
  exact exists_congr fun item => by rw [mem_positioned, and_assoc]

theorem lt_of_mem_positionsWhere {base position : Nat} {items : List α}
    (member : position ∈ positionsWhere test base items) :
    position < base + items.length := by
  obtain ⟨item, inside, found, _⟩ := mem_positionsWhere.mp member
  have bound := (List.getElem?_eq_some_iff.mp found).1
  omega

theorem le_of_mem_positionsWhere {base position : Nat} {items : List α}
    (member : position ∈ positionsWhere test base items) :
    base ≤ position := by
  obtain ⟨item, inside, _⟩ := mem_positionsWhere.mp member
  exact inside

theorem length_positionsWhere_le (test : α → Bool) (base : Nat) (items : List α) :
    (positionsWhere test base items).length ≤ items.length := by
  rw [positionsWhere, List.length_map, ← length_positioned base items]
  exact List.length_filter_le _ _

theorem pairwise_positionsWhere (base : Nat) (items : List α) :
    (positionsWhere test base items).Pairwise (· < ·) := by
  induction items generalizing base with
  | nil => exact List.Pairwise.nil
  | cons item items ih =>
      have split : positionsWhere test base (item :: items) =
          positionsWhere test base [item] ++ positionsWhere test (base + 1) items :=
        positionsWhere_append base [item] items
      rw [split, List.pairwise_append]
      refine ⟨?_, ih (base + 1), ?_⟩
      · by_cases passes : test item <;> simp [positionsWhere, positioned_singleton, passes]
      · intro first memberFirst second memberSecond
        have before := lt_of_mem_positionsWhere memberFirst
        have beyond := le_of_mem_positionsWhere memberSecond
        simp only [List.length_singleton] at before
        omega

theorem map_add_positionsWhere (base offset : Nat) (items : List α) :
    (positionsWhere test offset items).map (base + ·) =
      positionsWhere test (base + offset) items := by
  simp [positionsWhere, positioned, List.filter_map, Function.comp_def, Nat.add_assoc]

theorem positionsWhere_true (items : List α) :
    positionsWhere (fun _ => true) 0 items = List.range items.length := by
  simp [positionsWhere, positioned, Function.comp_def, List.range_eq_range']

/-- The positions among the first items are those below their end. -/
theorem positionsWhere_take (base count : Nat) (items : List α) :
    positionsWhere test base (items.take count) =
      (positionsWhere test base items).filter (· < base + count) := by
  apply (pairwise_positionsWhere base _).eq_of_mem_iff
    ((pairwise_positionsWhere base items).filter _)
  intro position
  simp only [List.mem_filter, mem_positionsWhere, decide_eq_true_eq, ← exists_and_right]
  apply exists_congr
  intro item
  rw [List.getElem?_take]
  by_cases below : position - base < count
  · rw [if_pos below]
    constructor
    · rintro ⟨inside, found, passes⟩
      exact ⟨⟨inside, found, passes⟩, by omega⟩
    · rintro ⟨⟨inside, found, passes⟩, _⟩
      exact ⟨inside, found, passes⟩
  · rw [if_neg below]
    constructor
    · rintro ⟨_, missing, _⟩
      simp at missing
    · rintro ⟨⟨inside, _, _⟩, small⟩
      omega

end Positions
