import Mathlib.Data.List.Sort
import Tephra.Events
import Tephra.LittleEndian

/-!
# Encoding an event

An event is encoded as a header of lengths, its type, its tags in ascending order
and its payload, which has no length of its own.  The constructors of names, tag
sets and events check what the header can hold.
-/

namespace Tephra

inductive NameError where
  | empty (what : String)
  | tooLong (what : String) (len max : Nat)
deriving DecidableEq, Repr

/-- A string becomes a name unless it is empty or too long. -/
def Name.new (what : String) (text : { bytes : List UInt8 // validUtf8 bytes = true }) :
    Except NameError Name :=
  if isEmpty : text.1 = [] then
    .error (.empty what)
  else if tooLong : text.1.length > maxNameLen then
    .error (.tooLong what text.1.length maxNameLen)
  else
    .ok ⟨text.1, text.2, isEmpty, Nat.le_of_not_lt tooLong⟩

inductive TagsError where
  | duplicate (tag : Tag)
deriving DecidableEq

/-- The first tag that equals the one before it. -/
def firstDuplicate : List Tag → Option Tag
  | first :: second :: rest =>
      if second = first then some second else firstDuplicate (second :: rest)
  | _ => none

/-- A sorted list without neighbours that are equal is strictly ascending. -/
theorem pairwise_lt_of_firstDuplicate {tags : List Tag} (sorted : tags.Pairwise (· ≤ ·))
    (distinct : firstDuplicate tags = none) : tags.Pairwise (· < ·) := by
  rw [← List.isChain_iff_pairwise] at sorted ⊢
  induction tags with
  | nil => exact .nil
  | cons first tags ih =>
      cases tags with
      | nil => exact .singleton _
      | cons second rest =>
          obtain ⟨le, sortedRest⟩ := List.isChain_cons_cons.mp sorted
          rw [firstDuplicate] at distinct
          split at distinct
          · cases distinct
          · rename_i different
            exact List.isChain_cons_cons.mpr
              ⟨lt_of_le_of_ne le (Ne.symm different), ih sortedRest distinct⟩

theorem pairwise_mergeSort_tags (tags : List Tag) :
    (tags.mergeSort fun first second => decide (first ≤ second)).Pairwise (· ≤ ·) := by
  have sorted := @List.pairwise_mergeSort _ (fun first second : Tag => decide (first ≤ second))
    (fun first second third => by simpa using le_trans)
    (fun first second => by simpa using le_total first second) tags
  simpa using sorted

/-- Tags become a set when no two of them are equal. -/
def Tags.new (tags : List Tag) : Except TagsError Tags :=
  let sorted := tags.mergeSort fun first second => decide (first ≤ second)
  match distinct : firstDuplicate sorted with
  | some tag => .error (.duplicate tag)
  | none => .ok ⟨sorted, pairwise_lt_of_firstDuplicate (pairwise_mergeSort_tags tags) distinct⟩

theorem Tags.new_nil : Tags.new [] = .ok .empty := by
  rw [Tags.new]
  split
  · rename_i tag found
    simp [firstDuplicate] at found
  · simp [Tags.empty]

inductive EncodeError where
  | tooManyTags (count max : Nat)
  | tooLarge (size max : Nat)
deriving DecidableEq, Repr

/-- The length of the type and the number of tags. -/
def fixedHeader : Nat := 4

/-- Where the type begins. -/
def headerLen (tagCount : Nat) : Nat := fixedHeader + 2 * tagCount

namespace Event

/-- The bytes of all tags. -/
def tagsTotal (tags : Tags) : Nat := (tags.toList.map fun tag => tag.bytes.length).sum

/-- Where the payload begins. -/
def dataStart (eventType : EventType) (tags : Tags) : Nat :=
  headerLen tags.toList.length + eventType.bytes.length + tagsTotal tags

/-- A type, tags and a payload become an event when the header has room for them. -/
def new (eventType : EventType) (tags : Tags) (payload : List UInt8) :
    Except EncodeError Event :=
  let tagCount := tags.toList.length
  if tagCount > 2 ^ 16 - 1 then
    .error (.tooManyTags tagCount (2 ^ 16 - 1))
  else if dataStart eventType tags > 2 ^ 32 - 1 then
    .error (.tooLarge (dataStart eventType tags) (2 ^ 32 - 1))
  else
    .ok ⟨eventType, tags, payload⟩

/-- The encoded event, as the log stores it. -/
def asBytes (event : Event) : List UInt8 :=
  LittleEndian.encode 2 event.eventType.bytes.length ++
    LittleEndian.encode 2 event.tags.toList.length ++
    event.tags.toList.flatMap (fun tag => LittleEndian.encode 2 tag.bytes.length) ++
    event.eventType.bytes ++ event.tags.toList.flatMap (fun tag => tag.bytes) ++ event.data

@[simp]
theorem length_asBytes (event : Event) :
    event.asBytes.length = dataStart event.eventType event.tags + event.data.length := by
  simp only [asBytes, List.length_append, LittleEndian.length_encode, List.length_flatMap,
    List.map_const', List.sum_replicate_nat, dataStart, headerLen, fixedHeader, tagsTotal]
  omega

theorem new_eq_ok {eventType : EventType} {tags : Tags} {payload : List UInt8}
    (few : tags.toList.length < 2 ^ 16) (small : dataStart eventType tags < 2 ^ 32) :
    new eventType tags payload = .ok ⟨eventType, tags, payload⟩ := by
  rw [new, if_neg (by omega), if_neg (by omega)]

end Event

end Tephra
