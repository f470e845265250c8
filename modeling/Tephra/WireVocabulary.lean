import Tephra.EventDecoding
import Tephra.WireMessages

/-!
# The vocabulary on the wire

A client builds events, queries and conditions from validated names.  They go over
the wire as strings, and both sides make names of them again.  The server packs an
event for its log, and sends back what it decodes from a record.
-/

namespace Tephra

namespace Pb

structure QueryItem where
  types : List (List UInt8)
  tags : List (List UInt8)
deriving DecidableEq, Repr

/-- A query on the wire.  Its default has no items. -/
structure Query where
  all : Bool := false
  items : List QueryItem := []
deriving DecidableEq, Repr

/-- A condition on the wire, with its messages present or absent. -/
structure AppendCondition where
  failIfEventsMatch : Option Query := none
  after : Nat := 0
  failIfExists : Option Query := none
deriving DecidableEq, Repr

end Pb

namespace Server

def typesFromPb (types : List (List UInt8)) : Except ConvertError (List EventType) :=
  types.mapM (nameFromPb "event type")

def queryItemFromPb (item : Pb.QueryItem) : Except ConvertError QueryItem := do
  let types ← typesFromPb item.types
  let tags ← tagsFromPb item.tags
  return ⟨types, tags⟩

def queryFromPb (query : Pb.Query) : Except ConvertError Query :=
  if query.all then .ok .all
  else (query.items.mapM queryItemFromPb).map .items

def queryItemToPb (item : QueryItem) : Pb.QueryItem :=
  ⟨item.types.map Name.bytes, item.tags.toList.map Name.bytes⟩

def queryToPb : Query → Pb.Query
  | .all => { all := true }
  | .items items => { items := items.map queryItemToPb }

/-- An absent boundary query reads as the default one. -/
def conditionFromPb (condition : Pb.AppendCondition) : Except ConvertError AppendCondition := do
  let query ← queryFromPb (condition.failIfEventsMatch.getD {})
  match condition.failIfExists with
  | none => return ⟨query, condition.after, none⟩
  | some exists_ => do
      let query' ← queryFromPb exists_
      return ⟨query, condition.after, some query'⟩

def conditionToPb (condition : AppendCondition) : Pb.AppendCondition where
  failIfEventsMatch := some (queryToPb condition.failIfEventsMatch)
  after := condition.after
  failIfExists := condition.failIfExists.map queryToPb

/-- Project a decoded event onto the wire. -/
def sequencedRefToProto (position : Nat) (event : EventRef) : Pb.SequencedEvent :=
  ⟨position, ⟨event.eventType, event.tags, event.data⟩⟩

end Server

namespace Client

open Server

/-- A client's event. -/
structure Event where
  eventType : EventType
  tags : Tags
  payload : List UInt8
deriving DecidableEq

structure SequencedEvent where
  position : Nat
  event : Event
deriving DecidableEq

/-- What is wrong with an event that a server has sent. -/
inductive EventError
  | invalidType (source : NameError)
  | malformed (source : ConvertError)
deriving DecidableEq

def eventToPb (event : Event) : Pb.Event :=
  ⟨event.eventType.bytes, event.tags.toList.map Name.bytes, event.payload⟩

def sequencedFromPb (view : Pb.SequencedEvent) : Except EventError SequencedEvent := do
  let text ← (asStr view.event.type).mapError .malformed
  let eventType ← (Name.new "event type" text).mapError .invalidType
  let tags ← (tagsFromPb view.event.tags).mapError .malformed
  return ⟨view.position, ⟨eventType, tags, view.event.payload⟩⟩

end Client

theorem Name.new_bytes (what : String) (name : Name) :
    Name.new what ⟨name.bytes, name.utf8⟩ = .ok name := by
  have short : ¬ name.bytes.length > maxNameLen := Nat.not_lt.mpr name.length_le
  rw [Name.new, dif_neg name.nonempty, dif_neg short]

theorem firstDuplicate_eq_none {tags : List Tag} (ascends : tags.Pairwise (· < ·)) :
    firstDuplicate tags = none := by
  induction tags with
  | nil => rfl
  | cons first tags ih =>
      cases tags with
      | nil => rfl
      | cons second rest =>
          obtain ⟨before, ascends⟩ := List.pairwise_cons.mp ascends
          have apart := ne_of_gt (before second List.mem_cons_self)
          rw [firstDuplicate, if_neg apart]
          exact ih ascends

/-- A set of tags is made of its tags in order. -/
theorem Tags.new_toList (tags : Tags) : Tags.new tags.toList = .ok tags := by
  have sorted : tags.toList.mergeSort (fun first second => decide (first ≤ second)) =
      tags.toList := by
    apply List.mergeSort_of_pairwise
    apply tags.sorted.imp
    intro first second before
    simpa using before.le
  have distinct := firstDuplicate_eq_none tags.sorted
  rw [Tags.new]
  split
  · rename_i tag found
    rw [sorted, distinct] at found
    cases found
  · simp only [sorted]

namespace Server

theorem asStr_bytes (name : Name) : asStr name.bytes = .ok ⟨name.bytes, name.utf8⟩ := by
  rw [asStr, dif_pos name.utf8]

theorem nameFromPb_bytes (what : String) (name : Name) :
    nameFromPb what name.bytes = .ok name := by
  rw [nameFromPb, asStr_bytes]
  change (Name.new what ⟨name.bytes, name.utf8⟩).mapError ConvertError.name = .ok name
  rw [Name.new_bytes]
  rfl

theorem mapM_map_ok {α β ε : Type} {there : α → β} {back : β → Except ε α}
    (inverse : ∀ item, back (there item) = .ok item) (items : List α) :
    (items.map there).mapM back = .ok items := by
  induction items with
  | nil => rfl
  | cons item items ih =>
      rw [List.map_cons, List.mapM_cons, inverse, ih]
      rfl

theorem tagsFromPb_bytes (tags : Tags) :
    tagsFromPb (tags.toList.map Name.bytes) = .ok tags := by
  rw [tagsFromPb, mapM_map_ok (nameFromPb_bytes "tag")]
  change (Tags.new tags.toList).mapError ConvertError.tags = .ok tags
  rw [Tags.new_toList]
  rfl

theorem queryItemFromPb_toPb (item : QueryItem) :
    queryItemFromPb (queryItemToPb item) = .ok item := by
  rw [queryItemFromPb, queryItemToPb, typesFromPb, mapM_map_ok (nameFromPb_bytes "event type"),
    tagsFromPb_bytes]
  rfl

theorem queryFromPb_toPb (query : Query) : queryFromPb (queryToPb query) = .ok query := by
  cases query with
  | all => rfl
  | items items =>
      rw [queryFromPb, queryToPb, if_neg (by simp), mapM_map_ok queryItemFromPb_toPb]
      rfl

theorem sequencedRefToProto_eq {event : Event} (encodable : event.Encodable) (position : Nat) :
    sequencedRefToProto position
        ⟨event.asBytes, Event.dataStart event.eventType event.tags⟩ =
      sequencedToProto position event := by
  obtain ⟨eventType, tags, data⟩ := Event.ref_accessors encodable
  rw [sequencedRefToProto, eventType, tags, data, sequencedToProto]

theorem conditionFromPb_toPb (condition : AppendCondition) :
    conditionFromPb (conditionToPb condition) = .ok condition := by
  obtain ⟨query, after, exists_⟩ := condition
  rw [conditionFromPb, conditionToPb, Option.getD_some, queryFromPb_toPb]
  cases exists_ with
  | none => rfl
  | some query' =>
      simp only [Option.map_some, queryFromPb_toPb]
      rfl

end Server

namespace Client

open Server

/-- An event that the server accepts is what the client has sent, and the header of
its encoding can hold its lengths. -/
theorem eventFromProto_eventToPb {event : Event} {stored : Tephra.Event}
    (accepted : eventFromProto (eventToPb event) = .ok stored) :
    stored = ⟨event.eventType, event.tags, event.payload⟩ ∧ stored.Encodable := by
  rw [eventFromProto, eventToPb, nameFromPb_bytes, tagsFromPb_bytes] at accepted
  change (Tephra.Event.new event.eventType event.tags event.payload).mapError ConvertError.encode =
    .ok stored at accepted
  rw [Tephra.Event.new] at accepted
  split at accepted
  · cases accepted
  split at accepted
  · cases accepted
  · rename_i few small
    cases accepted
    refine ⟨rfl, ?_⟩
    constructor <;> dsimp only <;> omega

theorem sequencedFromPb_eq (position : Nat) (event : Event) :
    sequencedFromPb ⟨position, eventToPb event⟩ = .ok ⟨position, event⟩ := by
  rw [sequencedFromPb, eventToPb, asStr_bytes, tagsFromPb_bytes]
  simp only [Except.mapError, bind, Except.bind, Name.new_bytes]
  rfl

/-- The wire is faithful: an accepted event comes back from its record as it was sent,
and so do every query and every condition. -/
theorem wire_faithful :
    (∀ (event : Event) (stored : Tephra.Event) (position : Nat),
      eventFromProto (eventToPb event) = .ok stored →
        ∃ ref, EventRef.fromBytes stored.asBytes = .ok ref ∧
          sequencedFromPb (sequencedRefToProto position ref) = .ok ⟨position, event⟩) ∧
      (∀ query, queryFromPb (queryToPb query) = .ok query) ∧
      ∀ condition, conditionFromPb (conditionToPb condition) = .ok condition := by
  refine ⟨?_, queryFromPb_toPb, conditionFromPb_toPb⟩
  intro event stored position accepted
  obtain ⟨rfl, encodable⟩ := eventFromProto_eventToPb accepted
  refine ⟨_, Event.fromBytes_asBytes encodable, ?_⟩
  rw [sequencedRefToProto_eq encodable]
  exact sequencedFromPb_eq position event

/-- The tags `a1` and `b1`. -/
def twoTags : Tags :=
  ⟨[⟨[97, 49], rfl, List.cons_ne_nil _ _, Nat.le_of_ble_eq_true rfl⟩,
    ⟨[98, 49], rfl, List.cons_ne_nil _ _, Nat.le_of_ble_eq_true rfl⟩], by decide⟩

/-- An event with two tags. -/
def labelledEvent : Event :=
  ⟨⟨[67], rfl, List.cons_ne_nil _ _, Nat.le_of_ble_eq_true rfl⟩, twoTags, [1, 2]⟩

theorem wire_faithful_labelled :
    ∃ ref, EventRef.fromBytes [1, 0, 2, 0, 2, 0, 2, 0, 67, 97, 49, 98, 49, 1, 2] = .ok ref ∧
      sequencedFromPb (sequencedRefToProto 7 ref) = .ok ⟨7, labelledEvent⟩ := by
  apply wire_faithful.1 labelledEvent ⟨labelledEvent.eventType, twoTags, labelledEvent.payload⟩ 7
  rw [eventFromProto, eventToPb, nameFromPb_bytes, tagsFromPb_bytes]
  rfl

end Client

end Tephra
