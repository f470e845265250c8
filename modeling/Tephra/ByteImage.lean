import Mathlib.Data.List.Basic

/-!
# Positioned reads and writes on a byte image

A file of fixed size is the list of its bytes.  Positioned reads return a
slice or fail at the end of the image, and positioned writes replace a slice.
The lemmas below say which bytes a write can change and that a read depends
only on the bytes it returns.
-/

namespace ByteImage

/-- The `length` bytes at `offset`, or `none` when the image ends before. -/
def readExact (image : List UInt8) (offset length : Nat) : Option (List UInt8) :=
  if offset + length ≤ image.length then
    some ((image.drop offset).take length)
  else
    none

/-- Replace the bytes from `offset` on by `bytes`.  A write past the end of the
image extends it, and fills the gap before `offset` with zeros. -/
def writeAt (image : List UInt8) (offset : Nat) (bytes : List UInt8) : List UInt8 :=
  if bytes = [] then
    image
  else
    image.take offset ++ List.replicate (offset - image.length) 0 ++
      (bytes ++ image.drop (offset + bytes.length))

/-- Two images have the same bytes at the offsets from `first` up to `last`. -/
def AgreeOn (image other : List UInt8) (first last : Nat) : Prop :=
  ∀ index, first ≤ index → index < last → image[index]? = other[index]?

theorem AgreeOn.refl (image : List UInt8) (first last : Nat) :
    AgreeOn image image first last :=
  fun _ _ _ => rfl

theorem AgreeOn.symm {image other : List UInt8} {first last : Nat}
    (agree : AgreeOn image other first last) :
    AgreeOn other image first last :=
  fun index above below => (agree index above below).symm

theorem AgreeOn.trans {image middle other : List UInt8} {first last : Nat}
    (left : AgreeOn image middle first last)
    (right : AgreeOn middle other first last) :
    AgreeOn image other first last :=
  fun index above below =>
    (left index above below).trans (right index above below)

theorem AgreeOn.mono {image other : List UInt8} {first last first' last' : Nat}
    (agree : AgreeOn image other first last)
    (firstLe : first ≤ first') (lastLe : last' ≤ last) :
    AgreeOn image other first' last' :=
  fun index above below =>
    agree index (Nat.le_trans firstLe above) (Nat.lt_of_lt_of_le below lastLe)

theorem readExact_eq_some_iff {image : List UInt8} {offset length : Nat}
    {bytes : List UInt8} :
    readExact image offset length = some bytes ↔
      offset + length ≤ image.length ∧ (image.drop offset).take length = bytes := by
  unfold readExact
  split
  · next fits => simp [fits]
  · next tooShort => simp [tooShort]

theorem length_of_readExact {image : List UInt8} {offset length : Nat}
    {bytes : List UInt8} (read : readExact image offset length = some bytes) :
    bytes.length = length := by
  obtain ⟨fits, rfl⟩ := readExact_eq_some_iff.mp read
  simp
  omega

theorem readExact_isSome_iff {image : List UInt8} {offset length : Nat} :
    (readExact image offset length).isSome ↔ offset + length ≤ image.length := by
  unfold readExact
  split
  · next fits => simp [fits]
  · next tooShort => simp [tooShort]

theorem readExact_eq_some_iff_getElem? {image : List UInt8} {offset length : Nat}
    {bytes : List UInt8} (fits : offset + length ≤ image.length) :
    readExact image offset length = some bytes ↔
      bytes.length = length ∧ ∀ index < length, bytes[index]? = image[offset + index]? := by
  rw [readExact_eq_some_iff]
  constructor
  · rintro ⟨_, rfl⟩
    refine ⟨by simp; omega, fun index indexLt => ?_⟩
    simp [indexLt]
  · rintro ⟨lengthEq, same⟩
    refine ⟨fits, List.ext_getElem? fun index => ?_⟩
    by_cases indexLt : index < length
    · rw [same index indexLt]
      simp [indexLt]
    · rw [List.getElem?_eq_none (by simp; omega), List.getElem?_eq_none (by omega)]

theorem readExact_left {image first second : List UInt8} {offset length : Nat}
    (read : readExact image offset length = some (first ++ second)) :
    readExact image offset first.length = some first := by
  obtain ⟨fits, slice⟩ := readExact_eq_some_iff.mp read
  have lengthEq := length_of_readExact read
  rw [List.length_append] at lengthEq
  refine readExact_eq_some_iff.mpr ⟨by omega, ?_⟩
  have taken := congrArg (List.take first.length) slice
  rwa [List.take_take, Nat.min_eq_left (by omega), List.take_left] at taken

theorem readExact_right {image first second : List UInt8} {offset length : Nat}
    (read : readExact image offset length = some (first ++ second)) :
    readExact image (offset + first.length) second.length = some second := by
  obtain ⟨fits, slice⟩ := readExact_eq_some_iff.mp read
  have lengthEq := length_of_readExact read
  rw [List.length_append] at lengthEq
  refine readExact_eq_some_iff.mpr ⟨by omega, ?_⟩
  have dropped := congrArg (List.drop first.length) slice
  rw [List.drop_left, List.drop_take, List.drop_drop] at dropped
  rwa [show length - first.length = second.length by omega] at dropped

theorem readExact_append {image first second : List UInt8} {offset : Nat}
    (left : readExact image offset first.length = some first)
    (right : readExact image (offset + first.length) second.length = some second) :
    readExact image offset (first ++ second).length = some (first ++ second) := by
  obtain ⟨-, firstEq⟩ := readExact_eq_some_iff.mp left
  obtain ⟨fits, secondEq⟩ := readExact_eq_some_iff.mp right
  rw [← List.drop_drop] at secondEq
  refine readExact_eq_some_iff.mpr ⟨by rw [List.length_append]; omega, ?_⟩
  rw [List.length_append, List.take_add, firstEq, secondEq]

theorem readExact_window {image bytes : List UInt8} {base width offset length : Nat}
    (read : readExact image (base + offset) length = some bytes)
    (fits : offset + length ≤ width) :
    readExact ((image.drop base).take width) offset length = some bytes := by
  obtain ⟨inside, slice⟩ := readExact_eq_some_iff.mp read
  refine readExact_eq_some_iff.mpr ⟨?_, ?_⟩
  · rw [List.length_take, List.length_drop]
    omega
  · rw [List.drop_take, List.drop_drop, List.take_take, Nat.min_eq_left (by omega), slice]

/-- A read depends only on the bytes it returns. -/
theorem readExact_congr {image other : List UInt8} {offset length : Nat}
    {bytes : List UInt8} (read : readExact image offset length = some bytes)
    (agree : AgreeOn image other offset (offset + length))
    (fits : offset + length ≤ other.length) :
    readExact other offset length = some bytes := by
  have imageFits := (readExact_eq_some_iff.mp read).1
  rw [readExact_eq_some_iff_getElem? imageFits] at read
  rw [readExact_eq_some_iff_getElem? fits]
  refine ⟨read.1, fun index indexLt => ?_⟩
  rw [read.2 index indexLt]
  exact agree (offset + index) (by omega) (by omega)

/-- Two images that return the same bytes have them. -/
theorem agreeOn_of_readExact {image other bytes : List UInt8} {offset length : Nat}
    (read : readExact image offset length = some bytes)
    (otherRead : readExact other offset length = some bytes) :
    AgreeOn image other offset (offset + length) := by
  have same := ((readExact_eq_some_iff_getElem? (readExact_eq_some_iff.mp read).1).mp read).2
  have otherSame :=
    ((readExact_eq_some_iff_getElem? (readExact_eq_some_iff.mp otherRead).1).mp otherRead).2
  intro index above below
  obtain ⟨rest, rfl⟩ := Nat.exists_eq_add_of_le above
  rw [← same rest (by omega), otherSame rest (by omega)]

theorem AgreeOn.join {image other : List UInt8} {first middle last : Nat}
    (left : AgreeOn image other first middle) (right : AgreeOn image other middle last) :
    AgreeOn image other first last := by
  intro index above below
  rcases Nat.lt_or_ge index middle with before | behind
  · exact left index above before
  · exact right index behind below

theorem AgreeOn.length_le {image other : List UInt8} {first last : Nat}
    (agree : AgreeOn image other first last) (nonempty : first < last)
    (fits : last ≤ image.length) :
    last ≤ other.length := by
  have lastByte := agree (last - 1) (by omega) (by omega)
  rw [List.getElem?_eq_getElem (by omega : last - 1 < image.length)] at lastByte
  have present := List.getElem?_eq_some_iff.mp lastByte.symm
  obtain ⟨inside, _⟩ := present
  omega

@[simp]
theorem writeAt_nil (image : List UInt8) (offset : Nat) :
    writeAt image offset [] = image :=
  rfl

theorem length_writeAt {image bytes : List UInt8} {offset : Nat} (nonempty : bytes ≠ []) :
    (writeAt image offset bytes).length = max image.length (offset + bytes.length) := by
  simp only [writeAt, if_neg nonempty, List.length_append, List.length_take,
    List.length_replicate, List.length_drop]
  omega

theorem length_writeAt_of_fits {image bytes : List UInt8} {offset : Nat}
    (fits : offset + bytes.length ≤ image.length) :
    (writeAt image offset bytes).length = image.length := by
  by_cases empty : bytes = []
  · simp [empty]
  · rw [length_writeAt empty]
    omega

theorem length_le_writeAt (image bytes : List UInt8) (offset : Nat) :
    image.length ≤ (writeAt image offset bytes).length := by
  by_cases empty : bytes = []
  · simp [empty]
  · rw [length_writeAt empty]
    omega

/-- Every byte of a written image, the zero-filled gap included. -/
theorem getElem?_writeAt_of_ne_nil {image bytes : List UInt8} {offset : Nat}
    (nonempty : bytes ≠ []) (index : Nat) :
    (writeAt image offset bytes)[index]? =
      if index < offset then some (image[index]?.getD 0)
      else if index < offset + bytes.length then bytes[index - offset]?
      else image[index]? := by
  rw [writeAt, if_neg nonempty]
  have frontLength :
      (image.take offset ++ List.replicate (offset - image.length) 0).length = offset := by
    simp only [List.length_append, List.length_take, List.length_replicate]
    omega
  split
  · next before =>
      rw [List.getElem?_append_left (by omega)]
      by_cases present : index < image.length
      · rw [List.getElem?_append_left (by simp; omega), List.getElem?_take_of_lt before,
          List.getElem?_eq_getElem present]
        rfl
      · rw [List.getElem?_append_right (by simp; omega), List.getElem?_replicate,
          List.getElem?_eq_none (by omega)]
        simp
        omega
  · next notBefore =>
      rw [List.getElem?_append_right (by omega), frontLength]
      split
      · next within => rw [List.getElem?_append_left (by omega)]
      · next beyond =>
          rw [List.getElem?_append_right (by omega), List.getElem?_drop]
          congr 1
          omega

theorem getElem?_writeAt {image bytes : List UInt8} {offset : Nat}
    (inside : offset ≤ image.length) (index : Nat) :
    (writeAt image offset bytes)[index]? =
      if index < offset then image[index]?
      else if index < offset + bytes.length then bytes[index - offset]?
      else image[index]? := by
  by_cases empty : bytes = []
  · subst empty
    simp only [writeAt_nil, List.length_nil, Nat.add_zero]
    split <;> rfl
  · rw [getElem?_writeAt_of_ne_nil empty]
    split
    · rw [List.getElem?_eq_getElem (by omega)]
      rfl
    · rfl

theorem agreeOn_writeAt_before {image bytes : List UInt8} {offset last : Nat}
    (below : last ≤ offset) (inside : last ≤ image.length) (first : Nat) :
    AgreeOn (writeAt image offset bytes) image first last := by
  intro index _ indexLt
  by_cases empty : bytes = []
  · simp [empty]
  · rw [getElem?_writeAt_of_ne_nil empty, if_pos (by omega),
      List.getElem?_eq_getElem (by omega)]
    rfl

theorem agreeOn_writeAt_after {image bytes : List UInt8} {offset : Nat}
    (inside : offset ≤ image.length) {first : Nat}
    (beyond : offset + bytes.length ≤ first) (last : Nat) :
    AgreeOn (writeAt image offset bytes) image first last := by
  intro index above _
  rw [getElem?_writeAt inside, if_neg (by omega), if_neg (by omega)]

theorem agreeOn_writeAt_beyond (image bytes : List UInt8) (offset last : Nat) :
    AgreeOn image (writeAt image offset bytes) (offset + bytes.length) last := by
  intro index above _
  by_cases empty : bytes = []
  · rw [empty, writeAt_nil]
  · rw [getElem?_writeAt_of_ne_nil empty, if_neg (by omega), if_neg (by omega)]

theorem readExact_writeAt_self {image : List UInt8} {offset : Nat} (bytes : List UInt8)
    (inside : offset ≤ image.length) :
    readExact (writeAt image offset bytes) offset bytes.length = some bytes := by
  have fits : offset + bytes.length ≤ (writeAt image offset bytes).length := by
    by_cases empty : bytes = []
    · simp [empty, inside]
    · rw [length_writeAt empty]
      omega
  rw [readExact_eq_some_iff_getElem? fits]
  refine ⟨rfl, fun index indexLt => ?_⟩
  rw [getElem?_writeAt inside, if_neg (by omega), if_pos (by omega)]
  congr 1
  omega

/-- Two adjacent writes are one write of the joined bytes. -/
theorem writeAt_writeAt_adjacent (image first second : List UInt8) (offset : Nat) :
    writeAt (writeAt image offset first) (offset + first.length) second =
      writeAt image offset (first ++ second) := by
  by_cases firstEmpty : first = []
  · simp [firstEmpty]
  by_cases secondEmpty : second = []
  · simp [secondEmpty]
  have joined : first ++ second ≠ [] := by simp [firstEmpty]
  have written : (writeAt image offset first).length = _ := length_writeAt firstEmpty
  apply List.ext_getElem?
  intro index
  rw [getElem?_writeAt (by omega), getElem?_writeAt_of_ne_nil firstEmpty,
    getElem?_writeAt_of_ne_nil joined, List.length_append]
  by_cases before : index < offset
  · rw [if_pos (by omega), if_pos before, if_pos before]
  · rw [if_neg before, if_neg before]
    by_cases inFirst : index < offset + first.length
    · rw [if_pos inFirst, if_pos inFirst, if_pos (by omega),
        List.getElem?_append_left (by omega)]
    · rw [if_neg inFirst, if_neg inFirst, ← Nat.add_assoc]
      split
      · rw [List.getElem?_append_right (by omega)]
        congr 1
        omega
      · rfl

end ByteImage
