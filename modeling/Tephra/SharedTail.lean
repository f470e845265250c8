import Tephra.TailContents

/-!
# A tail that is read while it is fed

Feeding an event is a sequence of small steps: its type is interned, each tag gets
a slot and then a name for it, the slot gets the position, and last the column gets
the type.  A reader may look at the tail after any of them.  Its view is bounded:
it has captured the chunks of the columns and the number of visible events, and
sees the tables and the slots as they are when it looks.
-/

namespace Tephra

namespace Index

open AscendingLists DenseIds Positions

/-- The variables of a call of `push`. -/
structure PushCall where
  posting : Nat
  typeId : Nat
  event : Event
deriving DecidableEq

/-- Where the writer stands in feeding. -/
inductive Stage where
  | between
  /-- At the next tag, or at the column if there is none. -/
  | tagging (call : PushCall) (done rest : List Tag)
  /-- A new tag has its slot, and is not in the table yet. -/
  | reserved (call : PushCall) (done : List Tag) (tag : Tag) (rest : List Tag) (term : Nat)
  /-- The tag is in the table, and its slot does not have the position yet. -/
  | interned (call : PushCall) (done : List Tag) (tag : Tag) (rest : List Tag) (term : Nat)
deriving DecidableEq

namespace ActiveTail

/-- Begin to feed the event of a position: intern its type.  The result is `none`
where the code panics. -/
def beginPush (self : ActiveTail) (position : Nat) (event : Event) :
    Option (Except TooManyTypes (ActiveTail × Stage)) :=
  let len := self.typeColumn.len
  if position ≠ self.base + len then
    none
  else
    match self.internType event.eventType with
    | .error refused => some (.error refused)
    | .ok (typeId, self) => some (.ok (self, .tagging ⟨len, typeId, event⟩ [] event.tags.toList))

/-- The next step of feeding. -/
def advance (self : ActiveTail) : Stage → ActiveTail × Stage
  | .between => (self, .between)
  | .tagging call done (tag :: rest) =>
      match self.tags.lookup tag with
      | some term => (self, .interned call done tag rest term)
      | none =>
          let (term, postings) := self.postings.pushWith fun slot => slot
          ({ self with postings := postings }, .reserved call done tag rest term)
  | .reserved call done tag rest term =>
      ({ self with tags := self.tags ++ [(tag, term)] }, .interned call done tag rest term)
  | .interned call done tag rest term =>
      ({ self with postings := self.postings.update term (PostingSlot.pushLocal call.posting) },
        .tagging call (done ++ [tag]) rest)
  | .tagging call _ [] =>
      ({ self with typeColumn := (self.typeColumn.pushWith fun _ => call.typeId).2 }, .between)

/-- Several steps of feeding. -/
def advances : (steps : Nat) → ActiveTail × Stage → ActiveTail × Stage
  | 0, fed => fed
  | steps + 1, fed => advances steps (fed.1.advance fed.2)

theorem advances_tag (self : ActiveTail) (call : PushCall) (done : List Tag) (tag : Tag)
    (rest : List Tag) :
    ∃ steps, ∀ later, advances (steps + later) (self, .tagging call done (tag :: rest)) =
      advances later (self.pushTag call.posting tag, .tagging call (done ++ [tag]) rest) := by
  cases known : self.tags.lookup tag with
  | some term =>
      refine ⟨2, fun later => ?_⟩
      rw [Nat.add_comm]
      simp [advances, advance, pushTag, internTag, known]
  | none =>
      refine ⟨3, fun later => ?_⟩
      rw [Nat.add_comm]
      simp [advances, advance, pushTag, internTag, known]

/-- Without interruption, the steps from the first tag on are those of `push`. -/
theorem advances_tagging (self : ActiveTail) (call : PushCall) (done rest : List Tag) :
    ∃ steps, advances steps (self, .tagging call done rest) =
      ({ rest.foldl (pushTag call.posting) self with
          typeColumn := ((rest.foldl (pushTag call.posting) self).typeColumn.pushWith
            fun _ => call.typeId).2 }, .between) := by
  induction rest generalizing self done with
  | nil => exact ⟨1, rfl⟩
  | cons tag rest ih =>
      obtain ⟨first, pushed⟩ := advances_tag self call done tag rest
      obtain ⟨later, fed⟩ := ih (self.pushTag call.posting tag) (done ++ [tag])
      exact ⟨first + later, (pushed later).trans fed⟩

theorem push_eq_advances {self : ActiveTail} {position : Nat} {event : Event}
    {fed : ActiveTail × Stage} (begun : self.beginPush position event = some (.ok fed)) :
    ∃ steps next, advances steps fed = (next, .between) ∧
      self.push position event = some (.ok next) := by
  rw [beginPush] at begun
  rw [push]
  dsimp only at begun ⊢
  split at begun
  · cases begun
  · rename_i inOrder
    rw [if_neg inOrder]
    cases interned : self.internType event.eventType with
    | error refused => simp [interned] at begun
    | ok result =>
        obtain ⟨steps, finished⟩ := advances_tagging result.2
          ⟨self.typeColumn.len, result.1, event⟩ [] event.tags.toList
        simp only [interned, Option.some.injEq, Except.ok.injEq] at begun
        subst begun
        exact ⟨steps, _, finished, rfl⟩

end ActiveTail

namespace Stage

/-- The event that is being fed. -/
def current : Stage → List Event
  | .between => []
  | .tagging call _ _ | .reserved call _ _ _ _ | .interned call _ _ _ _ => [call.event]

/-- Its tags that have the position already. -/
def done : Stage → List Tag
  | .between => []
  | .tagging _ done _ | .reserved _ done _ _ _ | .interned _ done _ _ _ => done

/-- The tag that is in the table before its slot has the position. -/
def interning : Stage → List Tag
  | .interned _ _ tag _ _ => [tag]
  | _ => []

/-- Slots without a tag. -/
def spare : Stage → Nat
  | .reserved .. => 1
  | _ => 0

/-- The positions of the events that carry a tag, as far as they are in its slot. -/
def locals (events : List Event) (stage : Stage) (tag : Tag) : List Nat :=
  positionsWhere (carries tag) 0 events ++ if tag ∈ stage.done then [events.length] else []

/-- The variables of a call are right. -/
structure CallValid (types : List (EventType × Nat)) (events : List Event) (call : PushCall)
    (tags : List Tag) : Prop where
  posting_eq : call.posting = events.length
  tags_eq : tags = call.event.tags.toList
  type_eq : types.lookup call.event.eventType = some call.typeId

/-- The variables of the writer are right. -/
def Valid (tail : ActiveTail) (events : List Event) : Stage → Prop
  | .between => True
  | .tagging call done rest => CallValid tail.types events call (done ++ rest)
  | .reserved call done tag rest term =>
      CallValid tail.types events call (done ++ tag :: rest) ∧ term = tail.tags.length ∧
        tail.tags.lookup tag = none
  | .interned call done tag rest term =>
      CallValid tail.types events call (done ++ tag :: rest) ∧ tail.tags.lookup tag = some term

/-- The events fed after the next step. -/
def fed (events : List Event) : Stage → List Event
  | .tagging call _ [] => events ++ [call.event]
  | _ => events

end Stage

/-- A tail holds the events fed to it from a base on, and what a stage says of the
next one. -/
structure Feeding (tail : ActiveTail) (base : Nat) (events : List Event) (stage : Stage) :
    Prop where
  base_eq : tail.base = base
  dense : Dense tail.tags
  slots : ∃ slots, tail.postings.Holds (slots ++ List.replicate stage.spare default) ∧
    slots.length = tail.tags.length ∧
    ∀ tag id, tail.tags.lookup tag = some id →
      ∃ slot, slots[id]? = some slot ∧ slot.Holds (stage.locals events tag)
  absent_iff : ∀ tag, tail.tags.lookup tag = none ↔
    stage.locals events tag = [] ∧ tag ∉ stage.interning
  tags_le : tail.tags.length ≤
    tagCount events + stage.done.length + stage.interning.length
  types : TypesHold tail.types ((events ++ stage.current).map Event.eventType)
  column : ∃ column, tail.typeColumn.Holds column ∧
    column.map some = events.map fun event => tail.types.lookup event.eventType
  valid : stage.Valid tail events

theorem feeding_between_iff {tail : ActiveTail} {base : Nat} {events : List Event} :
    Feeding tail base events .between ↔ tail.Holds base events := by
  constructor
  · rintro ⟨baseEq, dense, slots, absentIff, tagsLe, types, column, _⟩
    refine ⟨baseEq, ⟨dense, ?_, ?_⟩, tagsLe, ?_, column⟩
    · simpa [Stage.spare, Stage.locals, Stage.done] using slots
    · simpa [Stage.locals, Stage.done, Stage.interning] using absentIff
    · simpa [Stage.current] using types
  · rintro ⟨baseEq, ⟨dense, slots, absentIff⟩, tagsLe, types, column⟩
    refine ⟨baseEq, dense, ?_, ?_, tagsLe, ?_, column, trivial⟩
    · simpa [Stage.spare, Stage.locals, Stage.done] using slots
    · simpa [Stage.locals, Stage.done, Stage.interning] using absentIff
    · simpa [Stage.current] using types

namespace Feeding

variable {tail : ActiveTail} {base : Nat} {events : List Event}

theorem len_eq {stage : Stage} (feeding : Feeding tail base events stage) :
    tail.len = events.length := by
  obtain ⟨column, columnHolds, types⟩ := feeding.column
  have sameLength := congrArg List.length types
  simp only [List.length_map] at sameLength
  rw [ActiveTail.len, columnHolds.len_eq, sameLength]

/-- The next event begins to be fed, or is refused for a type too many. -/
theorem beginPush (feeding : Feeding tail base events .between) (event : Event) :
    (∃ next stage, tail.beginPush (base + events.length) event = some (.ok (next, stage)) ∧
      Feeding next base events stage ∧ stage.current = [event] ∧
      next.unindexable = tail.unindexable ∧ next.typeColumn = tail.typeColumn ∧
      next.tags = tail.tags) ∨
    tail.beginPush (base + events.length) event = some (.error ⟨maxTypeId + 1⟩) := by
  have holds := feeding_between_iff.mp feeding
  have lenEq : tail.typeColumn.len = events.length := holds.len_eq
  have inOrder : ¬ base + events.length ≠ tail.base + tail.typeColumn.len := by
    rw [holds.base_eq, lenEq]
    simp
  rw [ActiveTail.beginPush, if_neg inOrder, lenEq]
  rcases holds.internType_cases event.eventType with
    ⟨id, types, interned, typesHold, found, kept⟩ | ⟨refused, _, _⟩
  · rw [interned]
    left
    refine ⟨_, _, rfl, ?_, rfl, rfl, rfl, rfl⟩
    obtain ⟨column, columnHolds, columnTypes⟩ := feeding.column
    exact { feeding with
      types := by simpa [Stage.current] using typesHold
      column := by
        refine ⟨column, columnHolds, ?_⟩
        rw [columnTypes]
        exact List.map_congr_left fun earlier member =>
          (kept _ (List.mem_map_of_mem member)).symm
      valid := ⟨rfl, rfl, found⟩ }
  · right
    rw [refused]

private theorem tagKnown {call : PushCall} {done rest : List Tag} {tag : Tag} {term : Nat}
    (feeding : Feeding tail base events (.tagging call done (tag :: rest)))
    (known : tail.tags.lookup tag = some term) :
    Feeding tail base events (.interned call done tag rest term) :=
  { feeding with
    absent_iff := by
      intro other
      rw [feeding.absent_iff other]
      constructor
      · rintro ⟨nowhere, _⟩
        refine ⟨nowhere, fun member => ?_⟩
        rw [Stage.interning, List.mem_singleton] at member
        have absent := (feeding.absent_iff tag).mpr ⟨member ▸ nowhere, List.not_mem_nil⟩
        simp [known] at absent
      · rintro ⟨nowhere, _⟩
        exact ⟨nowhere, List.not_mem_nil⟩
    tags_le := feeding.tags_le.trans (Nat.le_add_right _ _)
    valid := ⟨feeding.valid, known⟩ }

private theorem tagNew {call : PushCall} {done rest : List Tag} {tag : Tag}
    (feeding : Feeding tail base events (.tagging call done (tag :: rest)))
    (fresh : tail.tags.lookup tag = none) (room : tail.tags.length + 1 < 2 ^ 32) :
    Feeding { tail with postings := (tail.postings.pushWith fun slot => slot).2 } base events
        (.reserved call done tag rest (tail.postings.pushWith fun slot => slot).1) := by
  obtain ⟨slots, slotsHold, lengthEq, slotOf⟩ := feeding.slots
  change tail.postings.Holds (slots ++ []) at slotsHold
  rw [List.append_nil] at slotsHold
  exact { feeding with
    slots := ⟨slots, slotsHold.pushWith (by omega) fun slot => slot, lengthEq, slotOf⟩
    valid := ⟨feeding.valid, (slotsHold.pushWith_fst _).trans lengthEq, fresh⟩ }

private theorem insert {call : PushCall} {done rest : List Tag} {tag : Tag} {term : Nat}
    (feeding : Feeding tail base events (.reserved call done tag rest term)) :
    Feeding { tail with tags := tail.tags ++ [(tag, term)] } base events
        (.interned call done tag rest term) := by
  obtain ⟨callValid, rfl, fresh⟩ := feeding.valid
  obtain ⟨slots, slotsHold, lengthEq, slotOf⟩ := feeding.slots
  have nowhere := ((feeding.absent_iff tag).mp fresh).1
  exact { feeding with
    dense := feeding.dense.snoc fresh
    slots := by
      refine ⟨slots ++ [default], ?_, by simp [lengthEq], ?_⟩
      · simpa [Stage.spare] using slotsHold
      · intro other id found
        rw [lookup_snoc fresh] at found
        split at found
        · rename_i same
          subst same
          obtain rfl := Option.some.inj found
          refine ⟨default, by simp [← lengthEq], ?_⟩
          have empty : Stage.locals events
              (.interned call done other rest tail.tags.length) other = [] := nowhere
          rw [empty]
          exact PostingSlot.holds_default
        · obtain ⟨slot, inside, slotHolds⟩ := slotOf other id found
          refine ⟨slot, ?_, slotHolds⟩
          rw [List.getElem?_append_left (List.getElem?_eq_some_iff.mp inside).1]
          exact inside
    absent_iff := by
      intro other
      rw [lookup_snoc fresh, Stage.interning, List.mem_singleton]
      by_cases same : other = tag
      · simp [same]
      · rw [if_neg same, feeding.absent_iff other]
        simp only [Stage.interning, List.not_mem_nil, not_false_iff, and_true, same]
        exact Iff.rfl
    tags_le := by
      have bound := feeding.tags_le
      simp only [Stage.done, Stage.interning, List.length_append, List.length_singleton,
        List.length_nil] at bound ⊢
      omega
    valid := by
      refine ⟨callValid, ?_⟩
      rw [lookup_snoc fresh, if_pos rfl] }

private theorem post {call : PushCall} {done rest : List Tag} {tag : Tag} {term : Nat}
    (feeding : Feeding tail base events (.interned call done tag rest term))
    (room : events.length + 2 < 2 ^ 32) :
    Feeding { tail with
        postings := tail.postings.update term (PostingSlot.pushLocal call.posting) } base events
        (.tagging call (done ++ [tag]) rest) := by
  obtain ⟨callValid, known⟩ := feeding.valid
  obtain ⟨slots, slotsHold, lengthEq, slotOf⟩ := feeding.slots
  change tail.postings.Holds (slots ++ []) at slotsHold
  rw [List.append_nil] at slotsHold
  have distinct : (done ++ tag :: rest).Nodup := by
    rw [callValid.tags_eq]
    exact call.event.tags.sorted.nodup
  have fresh : tag ∉ done := fun member =>
    (List.nodup_append.mp distinct).2.2 tag member tag (List.mem_cons_self ..) rfl
  have before : Stage.locals events (.interned call done tag rest term) tag =
      positionsWhere (carries tag) 0 events := by
    simp [Stage.locals, Stage.done, fresh]
  have after : Stage.locals events (.tagging call (done ++ [tag]) rest) tag =
      positionsWhere (carries tag) 0 events ++ [call.posting] := by
    simp [Stage.locals, Stage.done, callValid.posting_eq]
  have others {other : Tag} (apart : other ≠ tag) :
      Stage.locals events (.tagging call (done ++ [tag]) rest) other =
        Stage.locals events (.interned call done tag rest term) other := by
    by_cases member : other ∈ done <;> simp [Stage.locals, Stage.done, apart, member]
  have shorter : (positionsWhere (carries tag) 0 events).length ≤ events.length := by
    rw [positionsWhere, List.length_map, ← length_positioned 0 events]
    exact List.length_filter_le _ _
  exact { feeding with
    slots := by
      refine ⟨slots.modify term (PostingSlot.pushLocal call.posting), ?_, by simpa, ?_⟩
      · simpa [Stage.spare] using slotsHold.update term (PostingSlot.pushLocal call.posting)
      · intro other id found
        obtain ⟨slot, inside, slotHolds⟩ := slotOf other id found
        by_cases same : other = tag
        · subst same
          obtain rfl := Option.some.inj (known.symm.trans found)
          rw [before] at slotHolds
          rw [after]
          exact ⟨slot.pushLocal call.posting, by simp [inside],
            slotHolds.pushLocal (by omega) call.posting⟩
        · have apart : term ≠ id := by
            rintro rfl
            exact same (feeding.dense.lookup_injective found known)
          rw [others same]
          exact ⟨slot, by simp [apart, inside], slotHolds⟩
    absent_iff := by
      intro other
      change tail.tags.lookup other = none ↔ _
      by_cases same : other = tag
      · subst same
        simp [known, after]
      · rw [others same, feeding.absent_iff other]
        simp [Stage.interning, same]
    tags_le := by
      have bound := feeding.tags_le
      simpa [Stage.done, Stage.interning, Nat.add_assoc] using bound
    valid := by
      rw [Stage.Valid, List.append_assoc, List.singleton_append]
      exact callValid }

/-- Last the column gets the type, and the event is fed. -/
private theorem column_push {call : PushCall} {done : List Tag}
    (feeding : Feeding tail base events (.tagging call done []))
    (room : events.length + 1 < 2 ^ 32) :
    Feeding { tail with typeColumn := (tail.typeColumn.pushWith fun _ => call.typeId).2 } base
        (events ++ [call.event]) .between := by
  have callValid := feeding.valid
  obtain ⟨column, columnHolds, columnTypes⟩ := feeding.column
  have columnLength : column.length = events.length := by
    simpa using congrArg List.length columnTypes
  have tagsEq : done = call.event.tags.toList := by
    simpa using callValid.tags_eq
  have same (tag : Tag) : Stage.locals (events ++ [call.event]) .between tag =
      Stage.locals events (.tagging call done []) tag := by
    rw [Stage.locals, Stage.locals, ActiveTail.Holds.positionsWhere_carries_snoc]
    by_cases carried : tag ∈ call.event.tags.toList <;> simp [Stage.done, tagsEq, carried]
  exact { feeding with
    slots := by
      simp only [same]
      exact feeding.slots
    absent_iff := by
      intro tag
      rw [same]
      exact feeding.absent_iff tag
    tags_le := by
      have bound := feeding.tags_le
      rw [tagCount_snoc, ← tagsEq]
      exact bound
    types := by simpa [Stage.current] using feeding.types
    column := by
      refine ⟨column ++ [call.typeId], columnHolds.pushWith (by omega) fun _ => call.typeId, ?_⟩
      simp [columnTypes, callValid.type_eq]
    valid := trivial }

/-- Every step of feeding keeps what the tail holds. -/
theorem advance {stage : Stage} (feeding : Feeding tail base events stage)
    (fits : FitsSegment (events ++ stage.current)) :
    Feeding (tail.advance stage).1 base (stage.fed events) (tail.advance stage).2 := by
  have short := fits.length_lt
  have few := fits.tagCount_lt
  have tagsLe := feeding.tags_le
  cases stage with
  | between => exact feeding
  | reserved call done tag rest term => exact feeding.insert
  | interned call done tag rest term =>
      simp only [Stage.current, List.length_append, List.length_singleton] at short
      exact feeding.post (by omega)
  | tagging call done rest =>
      simp only [Stage.current, List.length_append, List.length_singleton] at short
      cases rest with
      | nil => exact feeding.column_push (by omega)
      | cons tag rest =>
          rw [Stage.current, tagCount_snoc, ← feeding.valid.tags_eq] at few
          simp only [Stage.done, Stage.interning, List.length_append, List.length_cons,
            List.length_nil] at few tagsLe
          rw [ActiveTail.advance]
          cases known : tail.tags.lookup tag with
          | some term => exact feeding.tagKnown known
          | none => exact feeding.tagNew known (by omega)

end Feeding

/-- A tail was fed: it keeps its tags and has no fewer events. -/
structure ActiveTail.Grows (tail later : ActiveTail) : Prop where
  base_eq : later.base = tail.base
  len_le : tail.len ≤ later.len
  tags : ∀ tag id, tail.tags.lookup tag = some id → later.tags.lookup tag = some id

theorem ActiveTail.Grows.refl (tail : ActiveTail) : tail.Grows tail :=
  ⟨rfl, le_rfl, fun _ _ found => found⟩

theorem Feeding.grows {tail : ActiveTail} {base : Nat} {events : List Event} {stage : Stage}
    (feeding : Feeding tail base events stage) (fits : FitsSegment (events ++ stage.current)) :
    tail.Grows (tail.advance stage).1 := by
  have next := feeding.advance fits
  refine ⟨next.base_eq.trans feeding.base_eq.symm, ?_, ?_⟩
  · rw [feeding.len_eq, next.len_eq, Stage.fed.eq_def]
    split <;> simp
  · intro tag id found
    rw [ActiveTail.advance.eq_def]
    split
    · exact found
    · split <;> exact found
    · rw [List.lookup_append, found]
      rfl
    · exact found
    · exact found

/-- A step of feeding only moves the event from the stage to the tail. -/
theorem ActiveTail.fed_append_current (tail : ActiveTail) (events : List Event) (stage : Stage) :
    stage.fed events ++ (tail.advance stage).2.current = events ++ stage.current := by
  cases stage with
  | between => rfl
  | reserved call done tag rest term => rfl
  | interned call done tag rest term =>
      rfl
  | tagging call done rest =>
      cases rest with
      | nil => exact List.append_nil _
      | cons tag rest =>
          rw [ActiveTail.advance]
          cases tail.tags.lookup tag <;> rfl

@[simp]
theorem ActiveTail.advance_unindexable (tail : ActiveTail) (stage : Stage) :
    (tail.advance stage).1.unindexable = tail.unindexable := by
  rw [ActiveTail.advance.eq_def]
  split
  · rfl
  · split <;> rfl
  · rfl
  · rfl
  · rfl

theorem Feeding.markUnindexable {tail : ActiveTail} {base : Nat} {events : List Event}
    {stage : Stage} (feeding : Feeding tail base events stage) :
    Feeding tail.markUnindexable base events stage := by
  cases stage <;> exact { feeding with valid := feeding.valid }

/-- What a view has captured: how many events it shows, and the chunks of the type
column and of the postings that it knows. -/
structure CapturedView where
  uptoLen : Nat
  typeChunks : Nat
  postingChunks : Nat
deriving DecidableEq, Repr

/-- A view as it reads the tail at some time. -/
def ActiveTail.observe (tail : ActiveTail) (view : CapturedView) : ActiveView :=
  ⟨tail.base, view.uptoLen, { tail.typeColumn with chunks := view.typeChunks },
    { tail.postings with chunks := view.postingChunks }, tail.tags, tail.types⟩

theorem ActiveTail.get_postings_observe (tail : ActiveTail) (view : CapturedView) (term : Nat) :
    (tail.observe view).postings.get term =
      if term / chunkSize < view.postingChunks then some (tail.postings.slots.getD term default)
      else none := rfl

/-- A view has captured enough to show some events of a tail. -/
structure CapturedView.Covers (view : CapturedView) (tail : ActiveTail) (visible : List Event) :
    Prop where
  upto_eq : view.uptoLen = visible.length
  types_le : visible.length ≤ view.typeChunks * chunkSize
  terms : ∀ event ∈ visible, ∀ tag ∈ event.tags.toList, ∃ id,
    tail.tags.lookup tag = some id ∧ id / chunkSize < view.postingChunks

theorem CapturedView.Covers.grows {view : CapturedView} {tail later : ActiveTail}
    {visible : List Event} (covers : view.Covers tail visible) (grows : tail.Grows later) :
    view.Covers later visible :=
  { covers with
    terms := by
      intro event member tag carried
      obtain ⟨id, found, captured⟩ := covers.terms event member tag carried
      exact ⟨id, grows.tags tag id found, captured⟩ }

namespace Feeding

variable {tail : ActiveTail} {base : Nat} {events : List Event} {stage : Stage}

/-- The tags of the events are in the table, and their slots in the chunks. -/
theorem covers_terms (feeding : Feeding tail base events stage) {event : Event}
    (member : event ∈ events) {tag : Tag} (carried : tag ∈ event.tags.toList) :
    ∃ id, tail.tags.lookup tag = some id ∧ id / chunkSize < tail.postings.chunks := by
  obtain ⟨slots, slotsHold, lengthEq, slotOf⟩ := feeding.slots
  obtain ⟨i, bound, here⟩ := List.getElem_of_mem member
  have posted : i ∈ positionsWhere (carries tag) 0 events := by
    rw [mem_positionsWhere]
    exact ⟨event, Nat.zero_le _, by simp [bound, here], by simpa [carries] using carried⟩
  cases known : tail.tags.lookup tag with
  | none =>
      have nowhere := ((feeding.absent_iff tag).mp known).1
      rw [Stage.locals, List.append_eq_nil_iff] at nowhere
      simp [nowhere.1] at posted
  | some id =>
      have inside := feeding.dense.lookup_lt known
      have room := slotsHold.length_le
      rw [List.length_append] at room
      refine ⟨id, rfl, ?_⟩
      rw [Nat.div_lt_iff_lt_mul (by decide)]
      omega

private theorem collectBelow_locals {slot : PostingSlot} {tag : Tag}
    (slotHolds : slot.Holds (stage.locals events tag)) {upto : Nat}
    (inside : upto ≤ events.length) :
    slot.collectBelow upto = positionsWhere (carries tag) 0 (events.take upto) := by
  have ascending : (stage.locals events tag).Pairwise (· < ·) := by
    rw [Stage.locals, List.pairwise_append]
    refine ⟨pairwise_positionsWhere 0 events, ?_, ?_⟩
    · split <;> simp
    · intro position member last isLast
      have bound := lt_of_mem_positionsWhere member
      split at isLast
      · rw [List.mem_singleton.mp isLast]
        omega
      · cases isLast
  have beyond : (if tag ∈ stage.done then [events.length] else []).filter (· < upto) = [] := by
    split <;> simp [inside]
  rw [slotHolds.collectBelow, takeWhile_lt_eq_filter ascending, positionsWhere_take,
    Stage.locals, List.filter_append, beyond, List.append_nil, Nat.zero_add]

/-- Whatever is being fed, a view indexes the events that it covers. -/
theorem indexes_observe (feeding : Feeding tail base events stage) {view : CapturedView}
    {upto : Nat} (inside : upto ≤ events.length)
    (covers : view.Covers tail (events.take upto)) :
    Indexes (tail.observe view) base (events.take upto) := by
  obtain ⟨column, columnHolds, columnTypes⟩ := feeding.column
  have columnLength : column.length = events.length := by
    simpa using congrArg List.length columnTypes
  have length : (events.take upto).length = upto := by simpa using inside
  have shown : view.uptoLen = upto := covers.upto_eq.trans length
  have nowhere {tag : Tag} (unseen : positionsWhere (carries tag) 0 events = []) :
      positionsWhere (carries tag) 0 (events.take upto) = [] := by
    rw [positionsWhere_take, unseen, List.filter_nil]
  constructor
  · exact feeding.base_eq
  · exact covers.upto_eq
  · intro tag
    change ((tail.observe view).termPostings tag).getD [] = _
    cases known : tail.tags.lookup tag with
    | none =>
        rw [(tail.observe view).termPostings_of_unknown known]
        have empty := ((feeding.absent_iff tag).mp known).1
        rw [Stage.locals, List.append_eq_nil_iff] at empty
        rw [nowhere empty.1]
        rfl
    | some id =>
        obtain ⟨slots, slotsHold, lengthEq, slotOf⟩ := feeding.slots
        obtain ⟨slot, found, slotHolds⟩ := slotOf tag id known
        rw [(tail.observe view).termPostings_of_known known, tail.get_postings_observe]
        change (Option.map (fun slot : PostingSlot => slot.collectBelow view.uptoLen) _).getD [] = _
        by_cases captured : id / chunkSize < view.postingChunks
        · have slotAt : tail.postings.slots.getD id default = slot := by
            rw [slotsHold.slots_eq, List.getD_eq_getElem?_getD,
              List.getElem?_append_left (List.getElem?_eq_some_iff.mp found).1, found]
            rfl
          rw [if_pos captured, slotAt, Option.map_some, Option.getD_some, shown,
            collectBelow_locals slotHolds inside]
        · -- A tag without a captured slot came after every visible event.
          rw [if_neg captured, Option.map_none, Option.getD_none]
          symm
          apply List.eq_nil_iff_forall_not_mem.mpr
          intro position member
          obtain ⟨event, _, visible, carried⟩ := mem_positionsWhere.mp member
          obtain ⟨other, foundOther, below⟩ := covers.terms event
            (List.mem_of_getElem? visible) tag (by simpa [carries] using carried)
          obtain rfl := Option.some.inj (known.symm.trans foundOther)
          exact captured below
  · intro name unknown event member same
    have seen : name ∈ keys tail.types := by
      rw [feeding.types.mem_iff, ← same, List.map_append]
      exact List.mem_append_left _ (List.mem_map_of_mem (List.mem_of_mem_take member))
    exact lookup_eq_none_iff.mp unknown seen
  · intro name id known i event found
    have below := (List.getElem?_eq_some_iff.mp found).1
    have foundAll : events[i]? = some event := by
      rw [List.getElem?_take] at found
      split at found
      · exact found
      · simp at found
    have columnAt : column[i]?.map some = some (tail.types.lookup event.eventType) := by
      rw [← List.getElem?_map, columnTypes, List.getElem?_map, foundAll, Option.map_some]
    obtain ⟨own, ownAt, ownEq⟩ := Option.map_eq_some_iff.mp columnAt
    have captured : i / chunkSize < view.typeChunks := by
      rw [Nat.div_lt_iff_lt_mul (by decide)]
      exact Nat.lt_of_lt_of_le below covers.types_le
    have typeAt : SegmentIndex.typeAt (tail.observe view) i = own := by
      change (ChunkedVec.get { tail.typeColumn with chunks := view.typeChunks } i).getD 0 = _
      rw [ChunkedVec.get, if_pos captured, columnHolds.slots_eq, List.getD_eq_getElem?_getD, ownAt]
      rfl
    rw [typeAt]
    constructor
    · rintro rfl
      exact feeding.types.dense.lookup_injective ownEq.symm known
    · rintro rfl
      exact Option.some.inj (ownEq.trans known)

end Feeding

end Index

end Tephra
