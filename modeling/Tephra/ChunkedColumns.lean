import Mathlib.Data.List.Basic
import Mathlib.Data.List.TakeWhile
import Mathlib.Tactic.Ring

/-!
# Append-only columns of the active index

The index of the active segment is kept in vectors that grow by whole chunks and
never move an element.  `ChunkedVec` is such a vector, and `PostingSlot` is the
list of the events that carry one tag: the first four inline, the others in a
vector of their own.  Lengths are `u32` counters.
-/

namespace Tephra

namespace Index

/-- Elements per chunk. -/
def chunkSize : Nat := 1024

/-- Postings kept inline in a slot before the others spill. -/
def inlineLen : Nat := 4

/-- A vector in chunks: the number of chunks allocated, the elements written so
far, and the count of the elements. -/
structure ChunkedVec (α : Type) where
  chunks : Nat
  slots : List α
  len : Nat
deriving DecidableEq, Repr

namespace ChunkedVec

variable {α : Type} [Inhabited α]

/-- The empty vector. -/
def new : ChunkedVec α := ⟨0, [], 0⟩

/-- Allocate the chunk of an element; the number of chunks at least doubles. -/
def ensure (self : ChunkedVec α) (i : Nat) : ChunkedVec α :=
  let need := i / chunkSize + 1
  if need ≤ self.chunks then
    self
  else
    { self with chunks := max need (self.chunks * 2) }

/-- Append one element, initialised by a change of the default, and return its
index. -/
def pushWith (self : ChunkedVec α) (init : α → α) : Nat × ChunkedVec α :=
  let i := self.len
  let grown := self.ensure i
  let value := init (grown.slots.getD i default)
  let slots := if i < grown.slots.length then grown.slots.set i value else grown.slots ++ [value]
  (i, { grown with slots := slots, len := (i + 1) % 2 ^ 32 })

/-- Change the element at an index. -/
def update (self : ChunkedVec α) (i : Nat) (change : α → α) : ChunkedVec α :=
  { self with slots := self.slots.modify i change }

/-- The element at an index, if its chunk is allocated. -/
def get (self : ChunkedVec α) (i : Nat) : Option α :=
  if i / chunkSize < self.chunks then some (self.slots.getD i default) else none

/-- The number of elements the chunks have room for. -/
def covered (self : ChunkedVec α) : Nat := self.chunks * chunkSize % 2 ^ 32

/-- The elements of a vector are the items of a list. -/
structure Holds (column : ChunkedVec α) (items : List α) : Prop where
  slots_eq : column.slots = items
  len_eq : column.len = items.length
  length_le : items.length ≤ column.chunks * chunkSize
  chunks_le : column.chunks * chunkSize ≤ max chunkSize (2 * items.length)

omit [Inhabited α] in
theorem holds_new : (new : ChunkedVec α).Holds [] where
  slots_eq := rfl
  len_eq := rfl
  length_le := Nat.zero_le _
  chunks_le := by simp [new]

omit [Inhabited α] in
/-- Growing by a chunk at a time, the vector never has room for more than twice
its elements. -/
private theorem chunks_ensure {self : ChunkedVec α} {i : Nat}
    (full : i ≤ self.chunks * chunkSize)
    (bounded : self.chunks * chunkSize ≤ max chunkSize (2 * i)) :
    i + 1 ≤ (self.ensure i).chunks * chunkSize ∧
      (self.ensure i).chunks * chunkSize ≤ max chunkSize (2 * (i + 1)) := by
  have chunk : chunkSize = 1024 := rfl
  by_cases room : i / chunkSize + 1 ≤ self.chunks
  · rw [ensure, if_pos room]
    simp only [chunk] at full bounded room ⊢
    omega
  · rw [ensure, if_neg room]
    simp only [chunk] at full bounded room ⊢
    omega

omit [Inhabited α] in
theorem Holds.length_le_covered {self : ChunkedVec α} {items : List α}
    (holds : self.Holds items) (short : items.length < 2 ^ 31) :
    items.length ≤ self.covered := by
  have lower := holds.length_le
  have upper := holds.chunks_le
  rw [covered, Nat.mod_eq_of_lt]
  · exact lower
  · have chunk : chunkSize = 1024 := rfl
    omega

omit [Inhabited α] in
private theorem ensure_keeps (self : ChunkedVec α) (i : Nat) :
    (self.ensure i).slots = self.slots ∧ (self.ensure i).len = self.len := by
  rw [ensure]
  split <;> simp

theorem Holds.pushWith_fst {self : ChunkedVec α} {items : List α} (holds : self.Holds items)
    (init : α → α) :
    (self.pushWith init).1 = items.length :=
  holds.len_eq

/-- Appending adds one element, while the counter has room. -/
theorem Holds.pushWith {self : ChunkedVec α} {items : List α} (holds : self.Holds items)
    (room : items.length + 1 < 2 ^ 32) (init : α → α) :
    (self.pushWith init).2.Holds (items ++ [init default]) := by
  obtain ⟨slotsEq, lenEq, lengthLe, chunksLe⟩ := holds
  obtain ⟨sameSlots, -⟩ := ensure_keeps self self.len
  have grown := chunks_ensure (lenEq ▸ lengthLe) (lenEq ▸ chunksLe)
  have beyond : ¬ self.len < (self.ensure self.len).slots.length := by
    rw [sameSlots, slotsEq, lenEq]
    omega
  constructor
  · have blank : (self.ensure self.len).slots.getD self.len default = default := by
      simp [List.getD, List.getElem?_eq_none (Nat.le_of_not_lt beyond)]
    simp only [ChunkedVec.pushWith, if_neg beyond, blank]
    rw [sameSlots, slotsEq]
  · simp only [ChunkedVec.pushWith, lenEq, List.length_append, List.length_singleton]
    exact Nat.mod_eq_of_lt room
  · simp only [List.length_append, List.length_singleton, ← lenEq]
    exact grown.1
  · simp only [List.length_append, List.length_singleton, ← lenEq]
    exact grown.2

omit [Inhabited α] in
theorem Holds.update {self : ChunkedVec α} {items : List α} (holds : self.Holds items)
    (i : Nat) (change : α → α) :
    (self.update i change).Holds (items.modify i change) where
  slots_eq := by rw [ChunkedVec.update, holds.slots_eq]
  len_eq := by simpa [ChunkedVec.update] using holds.len_eq
  length_le := by simpa [ChunkedVec.update] using holds.length_le
  chunks_le := by simpa [ChunkedVec.update] using holds.chunks_le

theorem Holds.get {self : ChunkedVec α} {items : List α} (holds : self.Holds items)
    {i : Nat} (inside : i < items.length) :
    self.get i = some items[i] := by
  have allocated : i / chunkSize < self.chunks := by
    rw [Nat.div_lt_iff_lt_mul (by decide)]
    exact Nat.lt_of_lt_of_le inside holds.length_le
  rw [ChunkedVec.get, if_pos allocated, holds.slots_eq]
  simp [inside]

end ChunkedVec

/-- The postings of one tag. -/
structure PostingSlot where
  len : Nat
  inline : List Nat
  spill : Option (ChunkedVec Nat)
deriving DecidableEq, Repr

/-- Take values while they are there and below a bound. -/
def takeBelow (upto : Nat) : List (Option Nat) → List Nat
  | some posting :: rest => if posting ≥ upto then [] else posting :: takeBelow upto rest
  | _ => []

namespace PostingSlot

/-- The slot of a new tag. -/
instance : Inhabited PostingSlot := ⟨⟨0, List.replicate inlineLen 0, none⟩⟩

/-- Append one local position. -/
def pushLocal (posting : Nat) (self : PostingSlot) : PostingSlot :=
  let n := self.len
  if n < inlineLen then
    { self with inline := self.inline.set n posting, len := (n + 1) % 2 ^ 32 }
  else
    let spill := self.spill.getD ChunkedVec.new
    { self with spill := some (spill.pushWith fun _ => posting).2, len := (n + 1) % 2 ^ 32 }

/-- The local positions below a bound, in the order they were appended. -/
def collectBelow (self : PostingSlot) (upto : Nat) : List Nat :=
  let n := self.len
  let inline := (self.inline.take (min n inlineLen)).map some
  match self.spill with
  | some spill =>
      if n > inlineLen then
        takeBelow upto (inline ++ (List.range (n - inlineLen)).map spill.get)
      else
        takeBelow upto inline
  | none => takeBelow upto inline

/-- The postings of a slot are the values of a list. -/
structure Holds (slot : PostingSlot) (postings : List Nat) : Prop where
  len_eq : slot.len = postings.length
  inline_length : slot.inline.length = inlineLen
  inline_eq : slot.inline.take postings.length = postings.take inlineLen
  spill_holds : (slot.spill.getD ChunkedVec.new).Holds (postings.drop inlineLen)

theorem holds_default : (default : PostingSlot).Holds [] where
  len_eq := rfl
  inline_length := by simp [default]
  inline_eq := rfl
  spill_holds := ChunkedVec.holds_new

theorem Holds.pushLocal {self : PostingSlot} {postings : List Nat} (holds : self.Holds postings)
    (room : postings.length + 1 < 2 ^ 32) (posting : Nat) :
    (self.pushLocal posting).Holds (postings ++ [posting]) := by
  obtain ⟨lenEq, inlineLength, inlineEq, spillHolds⟩ := holds
  rw [PostingSlot.pushLocal, lenEq]
  by_cases small : postings.length < inlineLen
  · simp only [if_pos small]
    constructor
    · simpa using Nat.mod_eq_of_lt room
    · simpa using inlineLength
    · have whole : postings.take inlineLen = postings := List.take_of_length_le small.le
      have wholeNext : (postings ++ [posting]).take inlineLen = postings ++ [posting] :=
        List.take_of_length_le (by simpa [Nat.add_one_le_iff] using small)
      have inside : postings.length < self.inline.length := by rwa [inlineLength]
      rw [wholeNext, List.length_append, List.length_singleton, List.take_add_one,
        List.take_set_of_le (le_refl _), inlineEq, whole]
      simp [inside]
    · rw [List.drop_of_length_le (by simpa [Nat.add_one_le_iff] using small)]
      rwa [List.drop_of_length_le small.le] at spillHolds
  · have large : inlineLen ≤ postings.length := Nat.le_of_not_lt small
    simp only [if_neg small]
    constructor
    · simpa using Nat.mod_eq_of_lt room
    · exact inlineLength
    · rw [List.take_append_of_le_length large, ← inlineEq,
        List.take_of_length_le (by rw [inlineLength]; simp; omega),
        List.take_of_length_le (by rw [inlineLength]; omega)]
    · have spilled := spillHolds.pushWith (by simp; omega) fun _ => posting
      rwa [Option.getD_some, List.drop_append_of_le_length large]

private theorem takeBelow_map_some (upto : Nat) (values : List Nat) :
    takeBelow upto (values.map some) = values.takeWhile (· < upto) := by
  induction values with
  | nil => rfl
  | cons value values ih =>
      by_cases below : value < upto
      · simp [takeBelow, below, ih, Nat.not_le.mpr below]
      · simp [takeBelow, below, Nat.le_of_not_lt below]

/-- Collecting reads the postings up to the first one at the bound or beyond. -/
theorem Holds.collectBelow {self : PostingSlot} {postings : List Nat}
    (holds : self.Holds postings) (upto : Nat) :
    self.collectBelow upto = postings.takeWhile (· < upto) := by
  obtain ⟨lenEq, inlineLength, inlineEq, spillHolds⟩ := holds
  have inlinePart : self.inline.take (min postings.length inlineLen) =
      postings.take inlineLen := by
    rw [← inlineEq]
    rcases Nat.le_total postings.length inlineLen with small | large
    · rw [Nat.min_eq_left small]
    · rw [Nat.min_eq_right large, List.take_of_length_le inlineLength.le,
        List.take_of_length_le (inlineLength.le.trans large)]
  rw [PostingSlot.collectBelow, lenEq]
  by_cases small : postings.length ≤ inlineLen
  · have whole : postings.take inlineLen = postings := List.take_of_length_le small
    simp only [inlinePart, whole, if_neg (Nat.not_lt.mpr small), takeBelow_map_some]
    cases self.spill <;> rfl
  · have large : inlineLen < postings.length := Nat.lt_of_not_le small
    cases spilled : self.spill with
    | none =>
        have none_spilled := (spillHolds.len_eq).symm
        simp [spilled, ChunkedVec.new] at none_spilled
        omega
    | some spill =>
        rw [spilled, Option.getD_some] at spillHolds
        have others : (List.range (postings.length - inlineLen)).map spill.get =
            (postings.drop inlineLen).map some := by
          apply List.ext_getElem
          · simp
          · intro i inside _
            have bound : i < (postings.drop inlineLen).length := by simpa using inside
            simp [spillHolds.get bound]
        simp only [if_pos large, inlinePart, others]
        rw [← List.map_append, List.take_append_drop, takeBelow_map_some]

end PostingSlot

end Index

end Tephra
