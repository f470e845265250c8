import Mathlib.Data.List.Lex
import Mathlib.Tactic.Ring
import Tephra.AscendingLists

/-!
# Events and queries

An event has a type, a set of tags and a payload that the store never looks
into.  A query is an alternative of items; an item asks for one of its types and
for all of its tags.  Names are byte strings in UTF-8 and are ordered by their
bytes, and a set of tags is kept ascending.
-/

namespace Tephra

/-- Whether a byte continues a multi-byte character. -/
def isContinuation (byte : UInt8) : Bool :=
  0x80 ≤ byte && byte ≤ 0xBF

/-- Whether a byte may follow the first byte of a three-byte character. -/
def secondOfThree (lead byte : UInt8) : Bool :=
  if lead = 0xE0 then 0xA0 ≤ byte && byte ≤ 0xBF
  else if lead = 0xED then 0x80 ≤ byte && byte ≤ 0x9F
  else isContinuation byte

/-- Whether a byte may follow the first byte of a four-byte character. -/
def secondOfFour (lead byte : UInt8) : Bool :=
  if lead = 0xF0 then 0x90 ≤ byte && byte ≤ 0xBF
  else if lead = 0xF4 then 0x80 ≤ byte && byte ≤ 0x8F
  else isContinuation byte

/-- Whether bytes are a string: well-formed UTF-8. -/
def validUtf8 : List UInt8 → Bool
  | [] => true
  | lead :: bytes =>
      if lead < 0x80 then
        validUtf8 bytes
      else
        match bytes with
        | [] => false
        | second :: bytes =>
            if 0xC2 ≤ lead && lead ≤ 0xDF then
              isContinuation second && validUtf8 bytes
            else
              match bytes with
              | [] => false
              | third :: bytes =>
                  if 0xE0 ≤ lead && lead ≤ 0xEF then
                    secondOfThree lead second && isContinuation third && validUtf8 bytes
                  else
                    match bytes with
                    | [] => false
                    | fourth :: bytes =>
                        0xF0 ≤ lead && lead ≤ 0xF4 && secondOfFour lead second &&
                          isContinuation third && isContinuation fourth && validUtf8 bytes

/-- Largest length of a name in bytes: the field that stores it is a `u16`. -/
def maxNameLen : Nat := 2 ^ 16 - 1

/-- A type or a tag: a non-empty string of bounded length. -/
structure Name where
  bytes : List UInt8
  utf8 : validUtf8 bytes = true
  nonempty : bytes ≠ []
  length_le : bytes.length ≤ maxNameLen

namespace Name

/-- What names are compared by. -/
def key (self : Name) : List Nat := self.bytes.map UInt8.toNat

theorem bytes_injective : Function.Injective bytes := by
  intro first second same
  cases first
  cases second
  simpa using same

theorem key_injective : Function.Injective key := by
  have bytewise : Function.Injective (List.map UInt8.toNat) :=
    List.map_injective_iff.mpr fun first second same => UInt8.toNat_inj.mp same
  exact bytewise.comp bytes_injective

instance : LinearOrder Name := LinearOrder.lift' key key_injective

end Name

abbrev EventType := Name

abbrev Tag := Name

/-- A set of tags, in ascending order. -/
structure Tags where
  toList : List Tag
  sorted : toList.Pairwise (· < ·)
deriving DecidableEq

namespace Tags

/-- The empty set of tags. -/
def empty : Tags := ⟨[], List.Pairwise.nil⟩

/-- The set of one tag. -/
def single (tag : Tag) : Tags := ⟨[tag], List.pairwise_singleton _ _⟩

end Tags

/-- An event. -/
structure Event where
  eventType : EventType
  tags : Tags
  data : List UInt8
deriving DecidableEq

/-- One alternative of a query.  An empty list of types admits every type. -/
structure QueryItem where
  types : List EventType
  tags : Tags
deriving DecidableEq

/-- A query: everything, or the events that match some item. -/
inductive Query where
  | all
  | items (items : List QueryItem)
deriving DecidableEq

/-- The guard of an append. -/
structure AppendCondition where
  failIfEventsMatch : Query
  after : Nat
  failIfExists : Option Query
deriving DecidableEq

/-- Whether every required tag is among the tags of an event; both lists are
ascending, and one walk over the tags of the event decides it. -/
def tagsContained : (required eventTags : List Tag) → Bool
  | [], _ => true
  | _ :: _, [] => false
  | req :: required, tag :: eventTags =>
      if tag < req then
        tagsContained (req :: required) eventTags
      else if tag = req then
        tagsContained required eventTags
      else
        false

namespace QueryItem

/-- The type is one of the item's, and every tag of the item is present. -/
def «matches» (self : QueryItem) (event : Event) : Bool :=
  (self.types.isEmpty || self.types.any fun type => type == event.eventType) &&
    tagsContained self.tags.toList event.tags.toList

end QueryItem

namespace Query

/-- Whether an event satisfies a query. -/
def «matches» (self : Query) (event : Event) : Bool :=
  match self with
  | .all => true
  | .items alternatives => alternatives.any fun item => item.matches event

end Query

/-- On ascending lists the walk decides whether one set is inside the other. -/
theorem tagsContained_iff {required eventTags : List Tag}
    (requiredSorted : required.Pairwise (· < ·)) (tagsSorted : eventTags.Pairwise (· < ·)) :
    tagsContained required eventTags = true ↔ ∀ tag ∈ required, tag ∈ eventTags := by
  induction eventTags generalizing required with
  | nil =>
      cases required with
      | nil => simp [tagsContained]
      | cons req required =>
          rw [tagsContained]
          simpa only [Bool.false_eq_true, false_iff] using
            fun everyTag => List.not_mem_nil (everyTag req (List.mem_cons_self ..))
  | cons tag eventTags ih =>
      cases required with
      | nil => simp [tagsContained]
      | cons req required =>
          obtain ⟨afterTag, tagsRest⟩ := List.pairwise_cons.mp tagsSorted
          obtain ⟨afterReq, requiredRest⟩ := List.pairwise_cons.mp requiredSorted
          rw [tagsContained]
          rcases lt_trichotomy tag req with before | same | beyond
          · -- The tag of the event precedes every required one.
            have skipped : ∀ later ∈ req :: required, later ≠ tag := by
              intro later member
              rcases List.mem_cons.mp member with rfl | member
              · exact before.ne'
              · exact (before.trans (afterReq later member)).ne'
            rw [if_pos before, ih requiredSorted tagsRest]
            exact forall₂_congr fun later member => by simp [skipped later member]
          · subst same
            have skipped : ∀ later ∈ required, later ≠ tag := fun later member =>
              (afterReq later member).ne'
            rw [if_neg (lt_irrefl tag), if_pos rfl, ih requiredRest tagsRest,
              List.forall_mem_cons]
            simp only [List.mem_cons, true_or, true_and]
            exact forall₂_congr fun later member => by simp [skipped later member]
          · have absent : req ∉ tag :: eventTags := by
              intro member
              rcases List.mem_cons.mp member with rfl | member
              · exact lt_irrefl _ beyond
              · exact lt_asymm beyond (afterTag req member)
            rw [if_neg (not_lt.mpr beyond.le), if_neg beyond.ne']
            simpa only [Bool.false_eq_true, false_iff] using
              fun everyTag => absent (everyTag req (List.mem_cons_self ..))

theorem QueryItem.matches_iff {item : QueryItem} {event : Event} :
    item.matches event = true ↔
      (item.types = [] ∨ event.eventType ∈ item.types) ∧
        ∀ tag ∈ item.tags.toList, tag ∈ event.tags.toList := by
  rw [QueryItem.matches, Bool.and_eq_true, tagsContained_iff item.tags.sorted event.tags.sorted]
  simp

end Tephra
