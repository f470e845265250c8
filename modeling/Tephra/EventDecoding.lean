import Tephra.EventCodec
import Tephra.LogScan

/-!
# Decoding an event

A record is decoded by parsing the lengths in its header, and checked once: that the
bytes are there, that the names are well-formed strings, and that the tags ascend.
The accessors of a decoded event slice its buffer and check nothing.
-/

namespace Tephra

open LittleEndian Read

/-- A buffer that was checked, and where its payload begins. -/
structure EventRef where
  buf : List UInt8
  dataOffset : Nat
deriving DecidableEq, Repr

namespace EventRef

def readU16 (buf : List UInt8) (at_ : Nat) : Nat :=
  fieldAt buf at_ 2

/-- The lengths of some tags, from the one at an index on. -/
def tagLens (buf : List UInt8) : (idx count : Nat) → List Nat
  | _, 0 => []
  | idx, count + 1 => readU16 buf (fixedHeader + 2 * idx) :: tagLens buf (idx + 1) count

/-- Sum the lengths of tags, none of which is empty. -/
def sumTagLens : List Nat → Except DecodeError Nat
  | [] => .ok 0
  | len :: lens =>
      if len = 0 then .error .emptyTag
      else (sumTagLens lens).map fun total => len + total

/-- Strings in the order of their bytes. -/
def strLe (first second : List UInt8) : Bool :=
  decide (first.map UInt8.toNat ≤ second.map UInt8.toNat)

/-- Check tags of given lengths, each behind the one before it. -/
def checkTags : (lens : List Nat) → (data : List UInt8) → (prev : Option (List UInt8)) →
    Except DecodeError Unit
  | [], _, _ => .ok ()
  | len :: lens, data, prev =>
      let tag := data.take len
      if validUtf8 tag = false then
        .error .invalidUtf8
      else if prev.any fun prev => strLe tag prev then
        .error .tagsNotSorted
      else
        checkTags lens (data.drop len) (some tag)

/-- Decode an event from its encoded bytes. -/
def fromBytes (buf : List UInt8) : Except DecodeError EventRef :=
  if buf.length < fixedHeader then
    .error .truncated
  else
    let typeLen := readU16 buf 0
    let tagCount := readU16 buf 2
    if buf.length < headerLen tagCount then
      .error .truncated
    else if typeLen = 0 then
      .error .emptyType
    else
      match sumTagLens (tagLens buf 0 tagCount) with
      | .error error => .error error
      | .ok tagsTotal =>
          let dataStart := headerLen tagCount + typeLen + tagsTotal
          if buf.length < dataStart then
            .error .truncated
          else if dataStart > 2 ^ 32 - 1 then
            .error .tooLarge
          else if validUtf8 ((buf.drop (headerLen tagCount)).take typeLen) = false then
            .error .invalidUtf8
          else
            match checkTags (tagLens buf 0 tagCount) (buf.drop (headerLen tagCount + typeLen))
                none with
            | .error error => .error error
            | .ok () => .ok ⟨buf, dataStart⟩

def eventType (self : EventRef) : List UInt8 :=
  (self.buf.drop (headerLen (readU16 self.buf 2))).take (readU16 self.buf 0)

/-- Split tags of given lengths off some bytes. -/
def takeTags : (lens : List Nat) → (data : List UInt8) → List (List UInt8)
  | [], _ => []
  | len :: lens, data => data.take len :: takeTags lens (data.drop len)

def tags (self : EventRef) : List (List UInt8) :=
  takeTags (tagLens self.buf 0 (readU16 self.buf 2))
    (self.buf.drop (headerLen (readU16 self.buf 2) + readU16 self.buf 0))

def data (self : EventRef) : List UInt8 :=
  self.buf.drop self.dataOffset

end EventRef

namespace Event

/-- The numbers in the header. -/
def headerNumbers (event : Event) : List Nat :=
  event.eventType.bytes.length :: event.tags.toList.length ::
    event.tags.toList.map fun tag => tag.bytes.length

/-- The bytes behind the header. -/
def body (event : Event) : List UInt8 :=
  event.eventType.bytes ++ (event.tags.toList.flatMap Name.bytes ++ event.data)

theorem asBytes_eq (event : Event) :
    event.asBytes = event.headerNumbers.flatMap (encode 2) ++ event.body := by
  simp [asBytes, headerNumbers, body, List.flatMap_map]

/-- An event of which the header can hold the lengths. -/
structure Encodable (event : Event) : Prop where
  fewTags : event.tags.toList.length < 2 ^ 16
  small : dataStart event.eventType event.tags < 2 ^ 32

instance (event : Event) : Decidable event.Encodable :=
  decidable_of_iff (_ ∧ _)
    ⟨fun both => ⟨both.1, both.2⟩, fun encodable => ⟨encodable.fewTags, encodable.small⟩⟩

variable {event : Event}

theorem lt_of_mem_headerNumbers (encodable : event.Encodable) {number : Nat}
    (member : number ∈ event.headerNumbers) : number < 256 ^ 2 := by
  have few := encodable.fewTags
  simp only [headerNumbers, List.mem_cons, List.mem_map] at member
  rcases member with rfl | rfl | ⟨tag, _, rfl⟩
  · have := event.eventType.length_le
    rw [maxNameLen] at this
    omega
  · omega
  · have := tag.length_le
    rw [maxNameLen] at this
    omega

theorem readU16_asBytes (encodable : event.Encodable) {index number : Nat}
    (here : event.headerNumbers[index]? = some number) :
    EventRef.readU16 event.asBytes (2 * index) = number := by
  rw [asBytes_eq, EventRef.readU16, Nat.mul_comm]
  exact fieldAt_column here (lt_of_mem_headerNumbers encodable (List.mem_of_getElem? here)) _

theorem tagLens_asBytes (encodable : event.Encodable) :
    EventRef.tagLens event.asBytes 0 event.tags.toList.length =
      event.tags.toList.map fun tag => tag.bytes.length := by
  have from_ (front back : List Tag) (split : event.tags.toList = front ++ back) :
      EventRef.tagLens event.asBytes front.length back.length =
        back.map fun tag => tag.bytes.length := by
    induction back generalizing front with
    | nil => rfl
    | cons tag back ih =>
        have here : event.headerNumbers[front.length + 2]? = some tag.bytes.length := by
          simp [headerNumbers, split]
        have read := readU16_asBytes encodable here
        rw [List.length_cons, EventRef.tagLens, List.map_cons]
        congr 1
        · rw [← read, fixedHeader]
          congr 1
          omega
        · have rest := ih (front ++ [tag]) (by simp [split])
          rwa [List.length_append, List.length_singleton] at rest
  exact from_ [] _ rfl

theorem drop_asBytes (event : Event) (more : Nat) :
    event.asBytes.drop (headerLen event.tags.toList.length + more) = event.body.drop more := by
  have len : (event.headerNumbers.flatMap (encode 2)).length =
      headerLen event.tags.toList.length := by
    rw [length_flatMap_encode, headerLen, fixedHeader, headerNumbers]
    simp
    omega
  rw [asBytes_eq, ← len, ← List.drop_drop, List.drop_left]

theorem type_asBytes (event : Event) :
    (event.asBytes.drop (headerLen event.tags.toList.length)).take event.eventType.bytes.length =
      event.eventType.bytes := by
  have drop := drop_asBytes event 0
  rw [Nat.add_zero, List.drop_zero] at drop
  rw [drop, body, List.take_left]

theorem tags_asBytes (event : Event) :
    event.asBytes.drop (headerLen event.tags.toList.length + event.eventType.bytes.length) =
      event.tags.toList.flatMap Name.bytes ++ event.data := by
  rw [drop_asBytes, body, List.drop_left]

end Event

namespace EventRef

theorem sumTagLens_eq (tags : List Tag) :
    sumTagLens (tags.map fun tag => tag.bytes.length) =
      .ok (tags.map fun tag => tag.bytes.length).sum := by
  induction tags with
  | nil => rfl
  | cons tag tags ih =>
      have nonempty : tag.bytes.length ≠ 0 := by
        simpa using tag.nonempty
      rw [List.map_cons, sumTagLens, if_neg nonempty, ih]
      rfl

theorem takeTags_eq (tags : List Tag) (rest : List UInt8) :
    takeTags (tags.map fun tag => tag.bytes.length) (tags.flatMap Name.bytes ++ rest) =
      tags.map Name.bytes := by
  induction tags with
  | nil => rfl
  | cons tag tags ih =>
      rw [List.map_cons, takeTags, List.flatMap_cons, List.append_assoc, List.take_left,
        List.drop_left, ih, List.map_cons]

theorem strLe_bytes (first second : Name) :
    strLe first.bytes second.bytes = decide (first ≤ second) := rfl

/-- Tags that ascend from the one before them pass the check. -/
theorem checkTags_eq {tags : List Tag} (ascends : tags.Pairwise (· < ·)) {prev : Option Tag}
    (behind : ∀ before, prev = some before → ∀ tag ∈ tags, before < tag) (rest : List UInt8) :
    checkTags (tags.map fun tag => tag.bytes.length) (tags.flatMap Name.bytes ++ rest)
      (prev.map Name.bytes) = .ok () := by
  induction tags generalizing prev with
  | nil => rfl
  | cons tag tags ih =>
      obtain ⟨next, ascends⟩ := List.pairwise_cons.mp ascends
      have ordered : ((prev.map Name.bytes).any fun before => strLe tag.bytes before) = false := by
        cases prev with
        | none => rfl
        | some before =>
            have lt := behind before rfl tag List.mem_cons_self
            simpa [strLe_bytes] using lt
      rw [List.map_cons, checkTags, List.flatMap_cons, List.append_assoc]
      simp only [List.take_left, List.drop_left, tag.utf8, ordered, Bool.true_eq_false,
        Bool.false_eq_true, if_false]
      apply @ih ascends (some tag)
      rintro before ⟨⟩
      exact next

end EventRef

namespace Event

variable {event : Event}

theorem readU16_typeLen (encodable : event.Encodable) :
    EventRef.readU16 event.asBytes 0 = event.eventType.bytes.length :=
  @readU16_asBytes event encodable 0 _ rfl

theorem readU16_tagCount (encodable : event.Encodable) :
    EventRef.readU16 event.asBytes 2 = event.tags.toList.length :=
  @readU16_asBytes event encodable 1 _ rfl

/-- An event is decoded from the bytes it is stored as. -/
theorem fromBytes_asBytes (encodable : event.Encodable) :
    EventRef.fromBytes event.asBytes =
      .ok ⟨event.asBytes, dataStart event.eventType event.tags⟩ := by
  have len := length_asBytes event
  have small := encodable.small
  have start : dataStart event.eventType event.tags = headerLen event.tags.toList.length +
      event.eventType.bytes.length + (event.tags.toList.map fun tag => tag.bytes.length).sum := rfl
  have header : headerLen event.tags.toList.length = 4 + 2 * event.tags.toList.length := rfl
  have nonempty : event.eventType.bytes.length ≠ 0 := by
    simpa using event.eventType.nonempty
  have ascend := @EventRef.checkTags_eq _ event.tags.sorted none (by simp) event.data
  rw [EventRef.fromBytes, if_neg (by rw [fixedHeader]; omega)]
  simp only [readU16_typeLen encodable, readU16_tagCount encodable, tagLens_asBytes encodable,
    EventRef.sumTagLens_eq]
  rw [if_neg (by omega), if_neg nonempty, if_neg (by omega), if_neg (by omega), type_asBytes,
    tags_asBytes]
  simp only [event.eventType.utf8, Bool.true_eq_false, if_false]
  rw [Option.map_none] at ascend
  rw [ascend, ← start]

/-- The accessors of a decoded event give what it was encoded from. -/
theorem ref_accessors (encodable : event.Encodable) :
    (⟨event.asBytes, dataStart event.eventType event.tags⟩ : EventRef).eventType =
        event.eventType.bytes ∧
      (⟨event.asBytes, dataStart event.eventType event.tags⟩ : EventRef).tags =
        event.tags.toList.map Name.bytes ∧
      (⟨event.asBytes, dataStart event.eventType event.tags⟩ : EventRef).data = event.data := by
  refine ⟨?_, ?_, ?_⟩
  · rw [EventRef.eventType, readU16_typeLen encodable, readU16_tagCount encodable, type_asBytes]
  · rw [EventRef.tags, readU16_typeLen encodable, readU16_tagCount encodable,
      tagLens_asBytes encodable, tags_asBytes, EventRef.takeTags_eq]
  · rw [EventRef.data, dataStart, Nat.add_assoc, drop_asBytes, body, ← List.drop_drop,
      List.drop_left]
    apply List.drop_left'
    simp [tagsTotal, List.length_flatMap]

end Event

end Tephra
