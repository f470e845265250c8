import Tephra.CanonicalEvents

/-!
# Matching an encoded event

Whether an event matches a query is decided on its bytes.  The tags of the event are decoded
one after another, and one walk compares them with the tags of an item: both come in
ascending order, so neither is looked up.
-/

namespace Tephra

theorem Name.lt_iff_bytes {first second : Name} : first < second ↔ first.bytes < second.bytes := by
  change first.bytes.map UInt8.toNat < second.bytes.map UInt8.toNat ↔ _
  generalize first.bytes = left
  generalize second.bytes = right
  induction left generalizing right with
  | nil => cases right <;> simp
  | cons byte left ih =>
      cases right with
      | nil => simp
      | cons other right =>
          rw [List.map_cons, List.map_cons, List.cons_lt_cons_iff, List.cons_lt_cons_iff, ih,
            UInt8.toNat_inj, UInt8.lt_iff_toNat_lt]

namespace EventRef

/-- The current tag of an event with the iterator behind it, if any tag is left. -/
abbrev Current := Option (List UInt8 × TagsRef)

theorem TagsRef.next_decreases {self rest : TagsRef} {tag : List UInt8}
    (found : self.next = some (some (tag, rest))) :
    rest.lens.length - 2 * rest.idx < self.lens.length - 2 * self.idx := by
  rw [next] at found
  split at found
  · cases found
  · simp only [Option.bind_eq_bind, Option.bind_eq_some_iff, Option.some.injEq,
      Prod.mk.injEq] at found
    obtain ⟨len, _, head, _, tail, _, _, rfl⟩ := found
    dsimp only
    omega

/-- Tags of the event that precede a required one are skipped.  Where the required tag is
found, the walk goes on behind it. -/
def seek (req : List UInt8) : Current → Option (Option Current)
  | none => some none
  | some (tag, eventTags) =>
      if tag < req then
        match _found : eventTags.next with
        | none => none
        | some none => seek req none
        | some (some (next, rest)) => seek req (some (next, rest))
      else if tag = req then
        eventTags.next.map some
      else
        some none
termination_by current => (current.map fun here => here.2.lens.length - 2 * here.2.idx + 1).getD 0
decreasing_by
  · simp
  · have := TagsRef.next_decreases _found
    simpa using this

/-- The walk over the required tags. -/
def walk : List Tag → Current → Option Bool
  | [], _ => some true
  | req :: required, current =>
      (seek req.bytes current).bind fun found =>
        match found with
        | none => some false
        | some next => walk required next

/-- Whether every required tag is among the tags that an iterator gives.  The result is `none`
where the code panics. -/
def containedIn (required : Tags) (eventTags : TagsRef) : Option Bool :=
  eventTags.next.bind (walk required.toList)

def tagsContained (required : Tags) (event : EventRef) : Option Bool :=
  (decodeTags event.buf).bind (containedIn required)

/-- The walk stands at the first of some tags. -/
def StandsAt (current : Current) (tags : List Tag) : Prop :=
  match tags with
  | [] => current = none
  | tag :: tags => ∃ eventTags, current = some (tag.bytes, eventTags) ∧
      eventTags.Yields (tags.map Name.bytes)

theorem TagsRef.Yields.next_eq {eventTags : TagsRef} {tags : List Tag}
    (yields : eventTags.Yields (tags.map Name.bytes)) :
    ∃ current, eventTags.next = some current ∧ StandsAt current tags := by
  cases tags with
  | nil =>
      cases yields with
      | done ended => exact ⟨none, ended, rfl⟩
  | cons tag tags =>
      cases yields with
      | @step _ rest _ _ found others => exact ⟨_, found, rest, rfl, others⟩

theorem seek_skip {req tag : List UInt8} {eventTags : TagsRef} {current : Current}
    (precedes : tag < req) (found : eventTags.next = some current) :
    seek req (some (tag, eventTags)) = seek req current := by
  rw [seek, if_pos precedes]
  split
  next panics =>
    rw [found] at panics
    cases panics
  next ended =>
    rw [found] at ended
    obtain rfl := Option.some.inj ended
    rfl
  next next rest further =>
    rw [found] at further
    obtain rfl := Option.some.inj further
    rfl

/-- The walk decides as the walk over the lists does, and does not panic. -/
theorem walk_eq {required tags : List Tag} {current : Current} (stands : StandsAt current tags) :
    walk required current = some (Tephra.tagsContained required tags) := by
  induction tags generalizing required current with
  | nil =>
      obtain rfl := stands
      cases required with
      | nil => rfl
      | cons req required =>
          rw [walk, seek]
          rfl
  | cons tag tags ih =>
      cases required with
      | nil => rfl
      | cons req required =>
          obtain ⟨eventTags, rfl, yields⟩ := stands
          obtain ⟨next, found, standsNext⟩ := yields.next_eq
          rw [Tephra.tagsContained, walk]
          by_cases precedes : tag < req
          · rw [if_pos precedes, seek_skip (Name.lt_iff_bytes.mp precedes) found, ← ih standsNext,
              walk]
          rw [if_neg precedes, seek, if_neg (Name.lt_iff_bytes.not.mp precedes), found]
          by_cases same : tag = req
          · rw [if_pos same, if_pos (congrArg Name.bytes same)]
            exact ih standsNext
          · rw [if_neg same, if_neg (Name.bytes_injective.ne same)]
            rfl

theorem containedIn_eq {required eventTags : Tags} {iterator : TagsRef}
    (yields : iterator.Yields (eventTags.toList.map Name.bytes)) :
    containedIn required iterator =
      some (Tephra.tagsContained required.toList eventTags.toList) := by
  obtain ⟨current, found, stands⟩ := yields.next_eq
  rw [containedIn, found]
  exact walk_eq stands

/-- Over the tags of an event the walk returns true exactly if every required tag is one of
them. -/
theorem containedIn_eq_decide {required eventTags : Tags} {iterator : TagsRef}
    (yields : iterator.Yields (eventTags.toList.map Name.bytes)) :
    containedIn required iterator =
      some (decide (∀ tag ∈ required.toList, tag ∈ eventTags.toList)) := by
  rw [containedIn_eq yields, Option.some.injEq, Bool.eq_iff_iff,
    tagsContained_iff required.sorted eventTags.sorted, decide_eq_true_iff]

private def tagX : Tag := ⟨[120], by decide, by decide, by decide⟩

private def tagY : Tag := ⟨[121], by decide, by decide, by decide⟩

theorem containedIn_eq_decide_two :
    containedIn (.single tagY) ⟨[120, 121], [1, 0, 1, 0], 0⟩ = some true := by
  have ordered : [tagX, tagY].Pairwise (· < ·) := by decide
  have yields : TagsRef.Yields ⟨[120, 121], [1, 0, 1, 0], 0⟩ ([tagX, tagY].map Name.bytes) :=
    TagsRef.yields_from [] [tagX, tagY] []
  rw [@containedIn_eq_decide (.single tagY) ⟨[tagX, tagY], ordered⟩ _ yields]
  simp [Tags.single]

end EventRef

/-- `Matches::matches` of an item: its tags are looked at where its types admit the event. -/
def QueryItem.matchesRef (self : QueryItem) (event : EventRef) : Option Bool := do
  let typeOk ← if self.types.isEmpty then some true else
    (EventRef.decodeType event.buf).map fun eventType =>
      self.types.any fun type => type.bytes == eventType
  if typeOk then EventRef.tagsContained self.tags event else some false

/-- `Matches::matches` of a query. -/
def Query.matchesRef (self : Query) (event : EventRef) : Option Bool :=
  match self with
  | .all => some true
  | .items alternatives => alternatives.anyM fun item => item.matchesRef event

variable {ref : EventRef} {event : Event}

theorem QueryItem.matchesRef_eq (item : QueryItem)
    (shown : ref.Shows event.eventType event.tags event.data) :
    item.matchesRef ref = some (item.matches event) := by
  obtain ⟨typeEq, typeInside, tagsEq, ⟨iterator, decoded, yields⟩, -⟩ := shown
  rw [tagsEq] at yields
  have contained : EventRef.tagsContained item.tags ref =
      some (tagsContained item.tags.toList event.tags.toList) := by
    rw [EventRef.tagsContained, decoded]
    exact EventRef.containedIn_eq yields
  have types : (item.types.any fun type => type.bytes == event.eventType.bytes) =
      item.types.any fun type => type == event.eventType := by
    congr 1
    funext type
    rw [Bool.eq_iff_iff, beq_iff_eq, beq_iff_eq, Name.bytes_injective.eq_iff]
  rw [QueryItem.matchesRef, QueryItem.matches, typeInside, typeEq,
    contained, Option.map_some, types]
  cases item.types.isEmpty <;> cases item.types.any fun type => type == event.eventType <;> rfl

/-- On the bytes of an event a query matches as it does on the event, and nothing panics. -/
theorem Query.matchesRef_eq (query : Query)
    (shown : ref.Shows event.eventType event.tags event.data) :
    query.matchesRef ref = some (query.matches event) := by
  cases query with
  | all => rfl
  | items alternatives =>
      induction alternatives with
      | nil => rfl
      | cons item alternatives ih =>
          change (item :: alternatives).anyM (fun item => item.matchesRef ref) = _
          rw [List.anyM, item.matchesRef_eq shown, Query.matches, List.any_cons]
          cases item.matches event with
          | true => rfl
          | false => exact ih

theorem Query.matchesRef_of_fromBytes {buf : List UInt8}
    (accepted : EventRef.fromBytes buf = .ok ref) :
    ∃ event : Event, event.asBytes = buf ∧
      ∀ query : Query, query.matchesRef ref = some (query.matches event) := by
  obtain ⟨event, encodable, rfl, rfl⟩ := EventRef.exists_event_of_fromBytes accepted
  exact ⟨event, rfl, fun query => query.matchesRef_eq (Event.shows_asBytes encodable)⟩

end Tephra
