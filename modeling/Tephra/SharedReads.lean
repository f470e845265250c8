import Tephra.Histories
import Tephra.IndexRecovery
import Tephra.LogScan
import Tephra.SharedTail

/-!
# Reading while the writer feeds

The writer makes a batch durable, feeds its events to the active tail, publishes
the segments if the batch has started a new one, and then publishes the watermark.
A reader loads the watermark, then the segments, and then captures its view of the
active tail, at any time between the steps of the writer.  A batch that fails
before a rollover leaves nothing behind and is no step.

A view shows the events of its segment up to the watermark, whatever is fed after
it was captured.
-/

namespace Tephra

namespace Read

open Histories Index Positions

/-- A segment of the log with the tail that indexes it. -/
structure IndexedSegment where
  base : Nat
  events : List Event
  tail : ActiveTail

/-- The next step of the writer. -/
inductive FeedPhase where
  | idle
  /-- A batch is durable in a new segment, before the old tail is sealed. -/
  | sealing (batch : List Event)
  /-- With the events to be fed, after the one of the stage. -/
  | feeding (rolled : Bool) (pending : List (Nat × Event)) (stage : Stage)
  | publishing
  | marking
  | panicked

/-- The next step of a reader. -/
inductive ReaderPhase where
  | idle
  | marked (watermark : Nat)
  | loaded (watermark segIdx : Nat)
  | checked (watermark segIdx : Nat)
  /-- With the chunks of the type column. -/
  | column (watermark segIdx chunks : Nat)
  | viewing (watermark segIdx : Nat) (view : CapturedView)

/-- The log and its index since the store was opened, and what is published. -/
structure Shared where
  sealed : List IndexedSegment
  active : IndexedSegment
  activeUnindexable : Bool
  writer : FeedPhase
  /-- The active segment of the published snapshot. -/
  published : Nat
  watermark : Nat
  reader : ReaderPhase

inductive SharedStep where
  | appendBatch (batch : List Event) (rollover : Bool)
  | sealActive
  | feed
  | publishSegments
  | publishWatermark
  | loadWatermark
  | loadSegments
  | checkIndex
  | captureColumn
  | capturePostings
  | finish

namespace Shared

/-- The segments, the active one last. -/
def segments (self : Shared) : List IndexedSegment := self.sealed ++ [self.active]

/-- Open the index over an active segment of the log. -/
def opened (base : Nat) (events : List Event) : Option Shared :=
  (rebuild base events).map fun rebuilt =>
    ⟨[], ⟨base, events, rebuilt.index⟩, rebuilt.unindexable, .idle, 0, base + events.length - 1,
      .idle⟩

/-- Put a batch behind the events of the active segment, or into a new one. -/
def appendBatch (self : Shared) (batch : List Event) (rollover : Bool) : Option Shared :=
  let events := self.active.events ++ batch
  let next := self.active.base + self.active.events.length
  if batch = [] then
    none
  else if rollover then
    if FitsSegment batch then some { self with writer := .sealing batch } else none
  else if FitsSegment events then
    some { self with
      active := { self.active with events := events },
      writer := .feeding false (positioned next batch) .between }
  else
    none

/-- Replace the active tail by one that starts at a new segment. -/
def sealActive (self : Shared) (batch : List Event) : Shared :=
  let next := self.active.base + self.active.events.length
  { self with
    sealed := self.sealed ++ [self.active],
    active := ⟨next, batch, ActiveTail.new next⟩,
    activeUnindexable := false,
    writer := .feeding true (positioned next batch) .between }

/-- Take one step of feeding. -/
def feed (self : Shared) (rolled : Bool) (pending : List (Nat × Event)) (stage : Stage) :
    Shared :=
  match stage, pending with
  | .between, [] => { self with writer := if rolled then .publishing else .marking }
  | .between, (position, event) :: pending =>
      if self.activeUnindexable then
        { self with writer := .feeding rolled pending .between }
      else
        match self.active.tail.beginPush position event with
        | none => { self with writer := .panicked }
        | some (.error _) =>
            { self with
              active := { self.active with tail := self.active.tail.markUnindexable },
              activeUnindexable := true,
              writer := .feeding rolled pending .between }
        | some (.ok (tail, stage)) =>
            { self with
              active := { self.active with tail := tail },
              writer := .feeding rolled pending stage }
  | stage, pending =>
      { self with
        active := { self.active with tail := (self.active.tail.advance stage).1 },
        writer := .feeding rolled pending (self.active.tail.advance stage).2 }

/-- A step of the writer or of a reader. -/
def step (self : Shared) : SharedStep → Option Shared
  | .appendBatch batch rollover =>
      match self.writer with
      | .idle => self.appendBatch batch rollover
      | _ => none
  | .sealActive =>
      match self.writer with
      | .sealing batch => some (self.sealActive batch)
      | _ => none
  | .feed =>
      match self.writer with
      | .feeding rolled pending stage => some (self.feed rolled pending stage)
      | _ => none
  | .publishSegments =>
      match self.writer with
      | .publishing => some { self with published := self.sealed.length, writer := .marking }
      | _ => none
  | .publishWatermark =>
      match self.writer with
      | .marking =>
          some { self with
            watermark := self.active.base + self.active.events.length - 1, writer := .idle }
      | _ => none
  | .loadWatermark =>
      match self.reader with
      | .idle => some { self with reader := .marked self.watermark }
      | _ => none
  | .loadSegments =>
      match self.reader with
      | .marked watermark => some { self with reader := .loaded watermark self.published }
      | _ => none
  | .checkIndex =>
      match self.reader with
      | .loaded watermark segIdx =>
          (self.segments[segIdx]?).map fun segment =>
            -- a segment that cannot be indexed is scanned instead
            { self with
              reader := if segment.tail.unindexable then .idle else .checked watermark segIdx }
      | _ => none
  | .captureColumn =>
      match self.reader with
      | .checked watermark segIdx =>
          (self.segments[segIdx]?).map fun segment =>
            { self with reader := .column watermark segIdx segment.tail.typeColumn.chunks }
      | _ => none
  | .capturePostings =>
      match self.reader with
      | .column watermark segIdx chunks =>
          (self.segments[segIdx]?).map fun segment =>
            { self with
              reader := .viewing watermark segIdx
                ⟨min (segment.tail.visibleLen watermark) (chunks * chunkSize % 2 ^ 32), chunks,
                  segment.tail.postings.chunks⟩ }
      | _ => none
  | .finish => some { self with reader := .idle }

end Shared

/-- The tail of a segment has been fed the events before some that are pending, or
those before the first one that was refused. -/
def IndexedSegment.Held (segment : IndexedSegment) (stage : Stage) (pending : List Event) : Prop :=
  FitsSegment segment.events ∧ ∃ fed rest, segment.events = fed ++ rest ∧
    Feeding segment.tail segment.base fed stage ∧
    (segment.tail.unindexable = false → rest = stage.current ++ pending) ∧
    (segment.tail.unindexable = true → stage = .between)

namespace IndexedSegment.Held

variable {segment : IndexedSegment} {stage : Stage} {pending : List Event}

theorem len_le (held : segment.Held stage pending) :
    segment.tail.len ≤ segment.events.length := by
  obtain ⟨_, fed, rest, split, feeding, _⟩ := held
  rw [feeding.len_eq, split, List.length_append]
  exact Nat.le_add_right ..

theorem len_eq (held : segment.Held stage pending) (indexed : segment.tail.unindexable = false) :
    segment.tail.len + (stage.current.length + pending.length) = segment.events.length := by
  obtain ⟨_, fed, rest, split, feeding, whole, _⟩ := held
  rw [feeding.len_eq, split, whole indexed, List.length_append, List.length_append]

theorem indexes (held : segment.Held stage pending) {view : CapturedView} {upto : Nat}
    (inside : upto ≤ segment.tail.len)
    (covers : view.Covers segment.tail (segment.events.take upto)) :
    Indexes (segment.tail.observe view) segment.base (segment.events.take upto) := by
  obtain ⟨_, fed, rest, split, feeding, _⟩ := held
  rw [feeding.len_eq] at inside
  rw [split, List.take_append_of_le_length inside] at covers ⊢
  exact feeding.indexes_observe inside covers

theorem len_le_covered (held : segment.Held stage pending) :
    segment.tail.len ≤ segment.tail.typeColumn.covered := by
  obtain ⟨fits, fed, rest, split, feeding, _⟩ := held
  obtain ⟨column, columnHolds, types⟩ := feeding.column
  have columnLength : column.length = fed.length := by
    simpa using congrArg List.length types
  rw [split] at fits
  rw [feeding.len_eq, ← columnLength]
  exact columnHolds.length_le_covered (columnLength ▸ fits.prefix.length_lt)

theorem covers (held : segment.Held stage pending) {watermark chunks : Nat}
    (below : watermark < segment.base + segment.tail.len)
    (captured : watermark + 1 - segment.base ≤ chunks * chunkSize % 2 ^ 32) :
    (⟨min (segment.tail.visibleLen watermark) (chunks * chunkSize % 2 ^ 32), chunks,
        segment.tail.postings.chunks⟩ : CapturedView).Covers segment.tail
      (segment.events.take (watermark + 1 - segment.base)) := by
  have bound := held.len_le
  obtain ⟨fits, fed, rest, split, feeding, _⟩ := held
  have short := fits.length_lt
  have length : (segment.events.take (watermark + 1 - segment.base)).length =
      watermark + 1 - segment.base := by
    rw [List.length_take]
    omega
  refine ⟨?_, ?_, ?_⟩
  · rw [length, ActiveTail.visibleLen, feeding.base_eq]
    dsimp only
    split <;> omega
  · rw [length]
    exact captured.trans (Nat.mod_le ..)
  · intro event member tag carried
    rw [feeding.len_eq] at below
    rw [split, List.take_append_of_le_length (by omega)] at member
    exact feeding.covers_terms (List.mem_of_mem_take member) carried

end IndexedSegment.Held

/-- A segment later on: it has no fewer events, and its tail no less. -/
structure IndexedSegment.Grows (segment later : IndexedSegment) : Prop where
  base_eq : later.base = segment.base
  events : segment.events <+: later.events
  tail : segment.tail.Grows later.tail

theorem IndexedSegment.Grows.refl (segment : IndexedSegment) : segment.Grows segment :=
  ⟨rfl, List.prefix_rfl, .refl _⟩

namespace Shared

/-- All segments are there later on. -/
def Grows (self later : Shared) : Prop :=
  ∀ (segIdx : Nat) (segment : IndexedSegment), self.segments[segIdx]? = some segment →
    ∃ grown, later.segments[segIdx]? = some grown ∧ segment.Grows grown

variable {self later : Shared}

theorem Grows.refl (self : Shared) : self.Grows self :=
  fun _ segment found => ⟨segment, found, .refl segment⟩

theorem grows_of_active (sealed : later.sealed = self.sealed)
    (active : self.active.Grows later.active) : self.Grows later := by
  intro segIdx segment found
  rw [segments, List.getElem?_append] at found ⊢
  rw [sealed]
  split at found
  · rename_i inside
    rw [if_pos inside]
    exact ⟨segment, found, .refl segment⟩
  · rename_i outside
    rw [if_neg outside]
    cases place : segIdx - self.sealed.length with
    | zero =>
        rw [place, List.getElem?_cons_zero, Option.some.injEq] at found
        subst found
        exact ⟨later.active, rfl, active⟩
    | succ k => simp [place] at found

theorem grows_sealActive (self : Shared) (batch : List Event) :
    self.Grows (self.sealActive batch) := by
  intro segIdx segment found
  refine ⟨segment, ?_, .refl segment⟩
  change (self.segments ++ _)[segIdx]? = _
  rw [List.getElem?_append_left (List.getElem?_eq_some_iff.mp found).1]
  exact found

/-- A position is covered by the events of a segment. -/
def Covered (self : Shared) (watermark segIdx : Nat) : Prop :=
  ∃ segment, self.segments[segIdx]? = some segment ∧
    watermark < segment.base + segment.events.length

/-- A position was fed, and something more holds of its segment. -/
def Exposed (self : Shared) (watermark segIdx : Nat) (shown : IndexedSegment → Prop) : Prop :=
  ∃ segment, self.segments[segIdx]? = some segment ∧
    watermark < segment.base + segment.tail.len ∧ shown segment

/-- What holds of the writer. -/
def WriterSound (self : Shared) : Prop :=
  match self.writer with
  | .idle | .marking =>
      self.active.Held .between [] ∧ self.published = self.sealed.length
  | .sealing batch =>
      self.active.Held .between [] ∧ self.published = self.sealed.length ∧ FitsSegment batch
  | .feeding rolled pending stage =>
      ∃ events, pending =
          positioned (self.active.base + self.active.events.length - events.length) events ∧
        self.active.Held stage events ∧
        self.watermark + (stage.current.length + events.length) <
          self.active.base + self.active.events.length ∧
        (rolled = false → self.published = self.sealed.length)
  | .publishing =>
      self.active.Held .between [] ∧
        self.watermark < self.active.base + self.active.events.length
  | .panicked => False

/-- What holds of a reader. -/
def ReaderSound (self : Shared) : Prop :=
  match self.reader with
  | .idle => True
  | .marked watermark => watermark ≤ self.watermark
  | .loaded watermark segIdx => watermark ≤ self.watermark ∧ self.Covered watermark segIdx
  | .checked watermark segIdx => self.Exposed watermark segIdx fun _ => True
  | .column watermark segIdx chunks =>
      self.Exposed watermark segIdx fun segment =>
        watermark + 1 - segment.base ≤ chunks * chunkSize % 2 ^ 32
  | .viewing watermark segIdx view =>
      self.Exposed watermark segIdx fun segment =>
        view.Covers segment.tail (segment.events.take (watermark + 1 - segment.base))

structure Sound (shared : Shared) : Prop where
  sealed : ∀ segment ∈ shared.sealed, segment.Held .between []
  flag : shared.activeUnindexable = shared.active.tail.unindexable
  started : 0 < shared.active.base
  writer : shared.WriterSound
  published : shared.Covered shared.watermark shared.published
  reader : shared.ReaderSound

theorem Covered.grows {watermark segIdx : Nat} (covered : self.Covered watermark segIdx)
    (grows : self.Grows later) : later.Covered watermark segIdx := by
  obtain ⟨segment, found, below⟩ := covered
  obtain ⟨grown, foundLater, more⟩ := grows segIdx segment found
  have length := more.events.length_le
  exact ⟨grown, foundLater, by rw [more.base_eq]; omega⟩

/-- What a reader relies on stays as the segments grow. -/
theorem ReaderSound.grows (sound : self.ReaderSound)
    (short : ∀ segment ∈ self.segments, segment.tail.len ≤ segment.events.length)
    (grows : self.Grows later) (mark : self.watermark ≤ later.watermark)
    (same : later.reader = self.reader) : later.ReaderSound := by
  have exposed {watermark segIdx : Nat} {shown : IndexedSegment → Prop}
      (before : self.Exposed watermark segIdx shown)
      (kept : ∀ segment grown, segment ∈ self.segments → segment.Grows grown →
        watermark < segment.base + segment.tail.len → shown segment → shown grown) :
      later.Exposed watermark segIdx shown := by
    obtain ⟨segment, found, below, shows⟩ := before
    obtain ⟨grown, foundLater, more⟩ := grows segIdx segment found
    have longer := more.tail.len_le
    exact ⟨grown, foundLater, by rw [more.base_eq]; omega,
      kept segment grown (List.mem_of_getElem? found) more below shows⟩
  rw [ReaderSound] at sound ⊢
  rw [same]
  cases phase : self.reader with
  | idle => trivial
  | marked watermark =>
      rw [phase] at sound
      exact sound.trans mark
  | loaded watermark segIdx =>
      rw [phase] at sound
      exact ⟨sound.1.trans mark, sound.2.grows grows⟩
  | checked watermark segIdx =>
      rw [phase] at sound
      exact exposed sound fun _ _ _ _ _ _ => trivial
  | column watermark segIdx chunks =>
      rw [phase] at sound
      apply exposed sound
      intro segment grown _ more _ captured
      rwa [more.base_eq]
  | viewing watermark segIdx view =>
      rw [phase] at sound
      apply exposed sound
      intro segment grown member more below covers
      have bound := short segment member
      obtain ⟨extra, longer⟩ := more.events
      rw [more.base_eq, ← longer, List.take_append_of_le_length (by omega)]
      exact covers.grows more.tail

namespace Sound

theorem held (sound : Sound self) {segment : IndexedSegment} (member : segment ∈ self.segments) :
    ∃ stage pending, segment.Held stage pending ∧
      (segment.tail.unindexable = false → ∀ watermark ≤ self.watermark,
        watermark < segment.base + segment.events.length →
          watermark < segment.base + segment.tail.len) := by
  rw [segments, List.mem_append, List.mem_singleton] at member
  rcases member with isSealed | rfl
  · have held := sound.sealed segment isSealed
    refine ⟨_, _, held, fun indexed watermark _ below => ?_⟩
    have length := held.len_eq indexed
    simp only [Stage.current, List.length_nil] at length
    omega
  · have writer := sound.writer
    rw [WriterSound] at writer
    have whole (held : self.active.Held .between []) : ∃ stage pending,
        self.active.Held stage pending ∧ (self.active.tail.unindexable = false →
          ∀ watermark ≤ self.watermark, watermark < self.active.base + self.active.events.length →
            watermark < self.active.base + self.active.tail.len) := by
      refine ⟨_, _, held, fun indexed watermark _ below => ?_⟩
      have length := held.len_eq indexed
      simp only [Stage.current, List.length_nil] at length
      omega
    split at writer
    · exact whole writer.1
    · exact whole writer.1
    · exact whole writer.1
    · obtain ⟨events, _, held, behind, _⟩ := writer
      refine ⟨_, _, held, fun indexed watermark old _ => ?_⟩
      have length := held.len_eq indexed
      omega
    · exact whole writer.1
    · exact writer.elim

theorem len_le (sound : Sound self) :
    ∀ segment ∈ self.segments, segment.tail.len ≤ segment.events.length := by
  intro segment member
  obtain ⟨stage, pending, held, _⟩ := sound.held member
  exact held.len_le

/-- A step of the writer that lets the segments grow, and publishes neither
segments nor a watermark, leaves the readers sound. -/
theorem ofWriter (sound : Sound self) (grows : self.Grows later)
    (same : later.published = self.published ∧ later.watermark = self.watermark ∧
      later.reader = self.reader)
    (sealed : ∀ segment ∈ later.sealed, segment.Held .between [])
    (flag : later.activeUnindexable = later.active.tail.unindexable)
    (started : 0 < later.active.base) (writer : later.WriterSound) : Sound later where
  sealed := sealed
  flag := flag
  started := started
  writer := writer
  published := by
    rw [same.1, same.2.1]
    exact sound.published.grows grows
  reader := sound.reader.grows sound.len_le grows same.2.1.ge same.2.2

theorem watermark_lt (sound : Sound self) (current : self.published = self.sealed.length) :
    self.watermark < self.active.base + self.active.events.length := by
  obtain ⟨segment, found, below⟩ := sound.published
  rw [current, segments, List.getElem?_append_right le_rfl, Nat.sub_self,
    List.getElem?_cons_zero, Option.some.injEq] at found
  subst found
  exact below

theorem appendBatch (sound : Sound self) (held : self.active.Held .between [])
    (current : self.published = self.sealed.length) {batch : List Event} {rollover : Bool}
    (appended : self.appendBatch batch rollover = some later) : Sound later := by
  have below := sound.watermark_lt current
  rw [Shared.appendBatch] at appended
  simp only [Option.ite_none_left_eq_some] at appended
  obtain ⟨nonempty, appended⟩ := appended
  split at appended
  · rw [Option.ite_none_right_eq_some, Option.some.injEq] at appended
    obtain ⟨fits, rfl⟩ := appended
    exact sound.ofWriter (.refl self) ⟨rfl, rfl, rfl⟩ sound.sealed sound.flag sound.started
      ⟨held, current, fits⟩
  · rw [Option.ite_none_right_eq_some, Option.some.injEq] at appended
    obtain ⟨fits, rfl⟩ := appended
    refine sound.ofWriter (grows_of_active rfl ⟨rfl, List.prefix_append .., .refl _⟩)
      ⟨rfl, rfl, rfl⟩ sound.sealed sound.flag sound.started ⟨batch, ?_, ?_, ?_, fun _ => current⟩
    · simp only [List.length_append]
      congr 1
      omega
    · obtain ⟨_, fed, rest, split, feeding, whole, latched⟩ := held
      refine ⟨fits, fed, rest ++ batch, ?_, feeding, ?_, latched⟩
      · simp [split]
      · intro indexed
        rw [whole indexed]
        rfl
    · simp only [Stage.current, List.length_nil, List.length_append]
      omega

theorem sealActive (sound : Sound self) (held : self.active.Held .between [])
    (current : self.published = self.sealed.length) {batch : List Event}
    (fits : FitsSegment batch) : Sound (self.sealActive batch) := by
  have below := sound.watermark_lt current
  refine sound.ofWriter (grows_sealActive self batch) ⟨rfl, rfl, rfl⟩ ?_ rfl
    (Nat.add_pos_left sound.started _) ⟨batch, ?_, ?_, ?_, by simp⟩
  · exact List.forall_mem_append.mpr ⟨sound.sealed, List.forall_mem_singleton.mpr held⟩
  · simp [Shared.sealActive]
  · exact ⟨fits, [], batch, rfl, feeding_between_iff.mpr (ActiveTail.holds_new _), fun _ => rfl,
      fun _ => rfl⟩
  · simp only [Stage.current, List.length_nil, Shared.sealActive]
    omega

/-- The next event is fed, skipped or refused, or all are fed. -/
theorem feedBetween (sound : Sound self) {rolled : Bool} {events : List Event}
    (held : self.active.Held .between events)
    (behind : self.watermark + events.length < self.active.base + self.active.events.length)
    (current : rolled = false → self.published = self.sealed.length) :
    Sound (self.feed rolled (positioned
      (self.active.base + self.active.events.length - events.length) events) .between) := by
  cases events with
  | nil =>
      refine sound.ofWriter (.refl self) ⟨rfl, rfl, rfl⟩ sound.sealed sound.flag sound.started ?_
      cases rolled with
      | true => exact ⟨held, behind⟩
      | false => exact ⟨held, current rfl⟩
  | cons event events =>
      rw [List.length_cons] at behind
      have position : self.active.base + self.active.events.length - (events.length + 1) + 1 =
          self.active.base + self.active.events.length - events.length := by
        omega
      rw [List.length_cons, positioned_cons, position]
      cases latched : self.activeUnindexable with
      | true =>
          have indexed : self.active.tail.unindexable = true := sound.flag.symm.trans latched
          have skipped (rest : List (Nat × Event)) (position : Nat) :
              self.feed rolled ((position, event) :: rest) .between =
                { self with writer := .feeding rolled rest .between } := by
            simp [Shared.feed, latched]
          rw [skipped]
          refine sound.ofWriter (.refl self) ⟨rfl, rfl, rfl⟩ sound.sealed sound.flag
            sound.started ⟨events, rfl, ?_, ?_, current⟩
          · obtain ⟨fits, fed, rest, split, feeding, whole, between⟩ := held
            exact ⟨fits, fed, rest, split, feeding, by simp [indexed], between⟩
          · simp only [Stage.current, List.length_nil]
            omega
      | false =>
          have indexed : self.active.tail.unindexable = false := sound.flag.symm.trans latched
          obtain ⟨fits, fed, rest, split, feeding, whole, between⟩ := held
          obtain rfl := whole indexed
          have next : self.active.base + self.active.events.length - (events.length + 1) =
              self.active.base + fed.length := by
            rw [split]
            simp only [Stage.current, List.nil_append, List.length_append, List.length_cons]
            omega
          rw [next]
          rcases feeding.beginPush event with
            ⟨tail, stage, begun, feedingNext, stageCurrent, flag, column, tags⟩ | refused
          · have stepped (rest : List (Nat × Event)) :
                self.feed rolled ((self.active.base + fed.length, event) :: rest) .between =
                  { self with
                    active := { self.active with tail := tail },
                    writer := .feeding rolled rest stage } := by
              simp [Shared.feed, latched, begun]
            rw [stepped]
            refine sound.ofWriter (grows_of_active rfl ⟨rfl, List.prefix_rfl, ?_⟩)
              ⟨rfl, rfl, rfl⟩ sound.sealed ?_ sound.started ⟨events, rfl, ?_, ?_, current⟩
            · refine ⟨feedingNext.base_eq.trans feeding.base_eq.symm, ?_, fun _ _ => ?_⟩
              · rw [ActiveTail.len, ActiveTail.len, column]
              · rw [tags]
                exact id
            · exact latched.trans (flag.trans indexed).symm
            · refine ⟨fits, fed, _, split, feedingNext, fun _ => ?_, fun isLatched => ?_⟩
              · rw [stageCurrent]
                rfl
              · simp [flag, indexed] at isLatched
            · rw [stageCurrent, List.length_singleton]
              dsimp only
              omega
          · have stepped (rest : List (Nat × Event)) :
                self.feed rolled ((self.active.base + fed.length, event) :: rest) .between =
                  { self with
                    active := { self.active with tail := self.active.tail.markUnindexable },
                    activeUnindexable := true,
                    writer := .feeding rolled rest .between } := by
              simp [Shared.feed, latched, refused]
            rw [stepped]
            refine sound.ofWriter (grows_of_active rfl ⟨rfl, List.prefix_rfl, rfl, le_rfl,
              fun _ _ found => found⟩) ⟨rfl, rfl, rfl⟩ sound.sealed rfl sound.started
              ⟨events, rfl, ?_, ?_, current⟩
            · exact ⟨fits, fed, _, split, feeding.markUnindexable,
                by simp [ActiveTail.markUnindexable], fun _ => rfl⟩
            · simp only [Stage.current, List.length_nil]
              omega

theorem feedStage (sound : Sound self) {rolled : Bool} {events : List Event} {stage : Stage}
    (busy : stage ≠ .between) (held : self.active.Held stage events)
    (behind : self.watermark + (stage.current.length + events.length) <
      self.active.base + self.active.events.length)
    (current : rolled = false → self.published = self.sealed.length) :
    Sound (self.feed rolled (positioned
      (self.active.base + self.active.events.length - events.length) events) stage) := by
  obtain ⟨fits, fed, rest, split, feeding, whole, between⟩ := held
  have indexed : self.active.tail.unindexable = false := by
    cases latched : self.active.tail.unindexable with
    | false => rfl
    | true => exact absurd (between latched) busy
  obtain rfl := whole indexed
  have fitsStage : FitsSegment (fed ++ stage.current) := by
    rw [split, ← List.append_assoc] at fits
    exact fits.prefix
  have moved := self.active.tail.fed_append_current fed stage
  have lengths := congrArg List.length moved
  simp only [List.length_append] at lengths
  have fedNext : Feeding (self.active.tail.advance stage).1 self.active.base (stage.fed fed)
      (self.active.tail.advance stage).2 := feeding.advance fitsStage
  have longer : fed.length ≤ (stage.fed fed).length := by
    have grown := (feeding.grows fitsStage).len_le
    rwa [feeding.len_eq, fedNext.len_eq] at grown
  have stepped : self.feed rolled (positioned
      (self.active.base + self.active.events.length - events.length) events) stage =
      { self with
        active := { self.active with tail := (self.active.tail.advance stage).1 },
        writer := .feeding rolled (positioned
          (self.active.base + self.active.events.length - events.length) events)
          (self.active.tail.advance stage).2 } := by
    cases stage <;> first | exact absurd rfl busy | rfl
  rw [stepped]
  refine sound.ofWriter (grows_of_active rfl ⟨rfl, List.prefix_rfl, feeding.grows fitsStage⟩)
    ⟨rfl, rfl, rfl⟩ sound.sealed ?_ sound.started ⟨events, rfl, ?_, ?_, current⟩
  · exact sound.flag.trans (self.active.tail.advance_unindexable stage).symm
  · refine ⟨fits, stage.fed fed, (self.active.tail.advance stage).2.current ++ events, ?_, fedNext,
      fun _ => rfl, fun isLatched => ?_⟩
    · change self.active.events = _
      rw [split, ← List.append_assoc, ← List.append_assoc, moved]
    · rw [ActiveTail.advance_unindexable, indexed] at isLatched
      cases isLatched
  · dsimp only
    omega

theorem covered_active {watermark : Nat}
    (below : watermark < self.active.base + self.active.events.length) :
    self.Covered watermark self.sealed.length := by
  refine ⟨self.active, ?_, below⟩
  rw [segments, List.getElem?_append_right le_rfl, Nat.sub_self, List.getElem?_cons_zero]

theorem publishSegments (sound : Sound self) (held : self.active.Held .between [])
    (below : self.watermark < self.active.base + self.active.events.length) :
    Sound { self with published := self.sealed.length, writer := .marking } where
  sealed := sound.sealed
  flag := sound.flag
  started := sound.started
  writer := ⟨held, rfl⟩
  published := covered_active below
  reader := sound.reader.grows sound.len_le (grows_of_active rfl (.refl _)) le_rfl rfl

theorem publishWatermark (sound : Sound self) (held : self.active.Held .between [])
    (current : self.published = self.sealed.length) :
    Sound { self with
      watermark := self.active.base + self.active.events.length - 1, writer := .idle } where
  sealed := sound.sealed
  flag := sound.flag
  started := sound.started
  writer := ⟨held, current⟩
  published := by
    have started := sound.started
    rw [current]
    exact covered_active (by dsimp only; omega)
  reader := by
    have below := sound.watermark_lt current
    refine sound.reader.grows sound.len_le (grows_of_active rfl (.refl _)) ?_ rfl
    dsimp only
    omega

theorem writerStep (sound : Sound self) {label : SharedStep}
    (ofWriter : label = .sealActive ∨ label = .feed ∨ label = .publishSegments ∨
      label = .publishWatermark ∨ ∃ batch rollover, label = .appendBatch batch rollover)
    (stepped : self.step label = some later) : Sound later := by
  have writer := sound.writer
  rw [WriterSound] at writer
  rcases ofWriter with rfl | rfl | rfl | rfl | ⟨batch, rollover, rfl⟩
  all_goals
    cases phase : self.writer <;> simp [step, phase] at stepped writer
  · subst stepped
    exact sound.sealActive writer.1 writer.2.1 writer.2.2
  · subst stepped
    rename_i rolled pending stage
    obtain ⟨events, rfl, held, behind, current⟩ := writer
    by_cases busy : stage = .between
    · subst busy
      exact sound.feedBetween held (by simpa [Stage.current] using behind) current
    · exact sound.feedStage busy held behind current
  · subst stepped
    exact sound.publishSegments writer.1 writer.2
  · subst stepped
    exact sound.publishWatermark writer.1 writer.2
  · exact sound.appendBatch writer.1 writer.2 stepped

theorem withReader (sound : Sound self) {reader : ReaderPhase}
    (next : ReaderSound { self with reader := reader }) : Sound { self with reader := reader } :=
  { sound with reader := next }

theorem readerStep (sound : Sound self) {label : SharedStep}
    (ofReader : label = .loadWatermark ∨ label = .loadSegments ∨ label = .checkIndex ∨
      label = .captureColumn ∨ label = .capturePostings ∨ label = .finish)
    (stepped : self.step label = some later) : Sound later := by
  have reader := sound.reader
  rw [ReaderSound] at reader
  rcases ofReader with rfl | rfl | rfl | rfl | rfl | rfl
  · cases phase : self.reader <;> simp [step, phase] at stepped
    subst stepped
    exact sound.withReader (le_refl self.watermark)
  · cases phase : self.reader <;> simp [step, phase] at stepped reader
    subst stepped
    obtain ⟨segment, found, below⟩ := sound.published
    exact sound.withReader ⟨reader, segment, found, reader.trans_lt below⟩
  · cases phase : self.reader <;> simp [step, phase] at stepped reader
    obtain ⟨segment, found, rfl⟩ := stepped
    obtain ⟨old, other, foundOther, below⟩ := reader
    obtain rfl := Option.some.inj (found.symm.trans foundOther)
    obtain ⟨stage, pending, held, exposed⟩ := sound.held (List.mem_of_getElem? found)
    apply sound.withReader
    cases indexed : segment.tail.unindexable with
    | true => trivial
    | false => exact ⟨segment, found, exposed indexed _ old below, trivial⟩
  · cases phase : self.reader <;> simp [step, phase] at stepped reader
    obtain ⟨segment, found, rfl⟩ := stepped
    obtain ⟨other, foundOther, below, _⟩ := reader
    obtain rfl := Option.some.inj (found.symm.trans foundOther)
    obtain ⟨stage, pending, held, exposed⟩ := sound.held (List.mem_of_getElem? found)
    have room := held.len_le_covered
    refine sound.withReader ⟨segment, found, below, ?_⟩
    rw [ChunkedVec.covered] at room
    omega
  · cases phase : self.reader <;> simp [step, phase] at stepped reader
    obtain ⟨segment, found, rfl⟩ := stepped
    obtain ⟨other, foundOther, below, captured⟩ := reader
    obtain rfl := Option.some.inj (found.symm.trans foundOther)
    obtain ⟨stage, pending, held, exposed⟩ := sound.held (List.mem_of_getElem? found)
    exact sound.withReader ⟨segment, found, below, held.covers below (by omega)⟩
  · simp only [step, Option.some.injEq] at stepped
    subst stepped
    exact sound.withReader trivial

theorem step (sound : Sound self) {label : SharedStep}
    (stepped : self.step label = some later) : Sound later := by
  cases label with
  | appendBatch batch rollover => exact sound.writerStep (by simp) stepped
  | sealActive | feed | publishSegments | publishWatermark =>
      exact sound.writerStep (by simp) stepped
  | loadWatermark | loadSegments | checkIndex | captureColumn | capturePostings | finish =>
      exact sound.readerStep (by simp) stepped

end Sound

/-- A store opens with everything fed, if the types of the active segment fit. -/
theorem opened_sound {base : Nat} (started : 0 < base) {events : List Event}
    (fits : FitsSegment events) (few : (distinctTypes events).length ≤ maxTypeId + 1) :
    ∃ start, opened base events = some start ∧ Sound start := by
  obtain ⟨built, rebuilt, holds⟩ := rebuild_holds base fits
  refine ⟨_, by rw [opened, rebuilt]; rfl, ?_⟩
  have indexed := holds.unindexable_iff.mpr few
  have unmarked := holds.unmarked
  obtain ⟨_, _, fed, rest, split, tailHolds, whole, _⟩ := holds
  obtain rfl := whole indexed
  rw [List.append_nil] at split
  subst split
  have held : (⟨base, events, built.index⟩ : IndexedSegment).Held .between [] :=
    ⟨fits, events, [], (List.append_nil _).symm, feeding_between_iff.mpr tailHolds, fun _ => rfl,
      fun _ => rfl⟩
  exact {
    sealed := by simp
    flag := indexed.trans unmarked.symm
    started := started
    writer := ⟨held, rfl⟩
    published := Sound.covered_active (by dsimp only; omega)
    reader := trivial }

/-- A view shows the committed events of its segment, and no others. -/
theorem view_exposes_committed {base : Nat} (started : 0 < base) {events : List Event}
    (fits : FitsSegment events) (few : (distinctTypes events).length ≤ maxTypeId + 1)
    {labels : List SharedStep} :
    ∃ start, opened base events = some start ∧ ∀ last, run step start labels = some last →
      last.writer ≠ .panicked ∧
      ∀ watermark segIdx view, last.reader = .viewing watermark segIdx view →
        ∃ segment, last.segments[segIdx]? = some segment ∧
          watermark < segment.base + segment.events.length ∧
          Indexes (segment.tail.observe view) segment.base
            (segment.events.take (watermark + 1 - segment.base)) := by
  obtain ⟨start, opens, fresh⟩ := opened_sound started fits few
  refine ⟨start, opens, fun last ran => ?_⟩
  have sound : Sound last := invariant_of_steps (fun _ _ _ sound stepped => sound.step stepped)
    fresh ran
  constructor
  · intro panicked
    have writer := sound.writer
    rw [WriterSound, panicked] at writer
    exact writer
  · intro watermark segIdx view viewing
    have reader := sound.reader
    rw [ReaderSound, viewing] at reader
    obtain ⟨segment, found, below, covers⟩ := reader
    obtain ⟨stage, pending, held, _⟩ := sound.held (List.mem_of_getElem? found)
    have short := held.len_le
    exact ⟨segment, found, by omega, held.indexes (by omega) covers⟩

/-- A printable character. -/
def printable (n : Nat) : UInt8 := UInt8.ofNat (n % 64 + 32)

theorem toNat_printable (n : Nat) : (printable n).toNat = n % 64 + 32 := by
  rw [printable, UInt8.toNat_ofNat', Nat.mod_eq_of_lt (by omega)]

theorem printable_lt (n : Nat) : printable n < 0x80 := by
  rw [UInt8.lt_iff_toNat_lt, toNat_printable]
  change _ < 128
  omega

/-- Names of three characters. -/
def numberedName (n : Nat) : Name where
  bytes := [printable n, printable (n / 64), printable (n / 4096)]
  utf8 := by simp [validUtf8, printable_lt]
  nonempty := List.cons_ne_nil _ _
  length_le := by simp [maxNameLen]

theorem numberedName_injective {first second : Nat} (smallFirst : first < 2 ^ 18)
    (smallSecond : second < 2 ^ 18) (same : numberedName first = numberedName second) :
    first = second := by
  have bytes := congrArg Name.bytes same
  simp only [numberedName, List.cons.injEq, and_true, ← UInt8.toNat_inj, toNat_printable] at bytes
  omega

/-- An event without tags and payload. -/
def numberedEvent (n : Nat) : Event := ⟨numberedName n, .empty, []⟩

def numberedEvents (count : Nat) : List Event := (List.range count).map numberedEvent

theorem segmentBytes_numberedEvents (count : Nat) :
    segmentBytes (numberedEvents count) = count * 15 := by
  have each : (fun event => Seglog.recordHeadSize + encodedLen event) ∘ numberedEvent =
      fun _ => 15 := rfl
  rw [segmentBytes, numberedEvents, List.map_map, each, List.map_const', List.sum_replicate_nat,
    List.length_range]

theorem numberedEvents_fits {count : Nat} (few : count ≤ 2 ^ 18) :
    FitsSegment (numberedEvents count) := by
  rw [FitsSegment, segmentBytes_numberedEvents]
  omega

theorem length_distinctTypes_numbered {events : List Event} {count : Nat} (few : count ≤ 2 ^ 18)
    (types : events.map Event.eventType = (List.range count).map numberedName) :
    (distinctTypes events).length = count := by
  have distinct : ((List.range count).map numberedName).Nodup := by
    apply List.Nodup.map_on _ List.nodup_range
    intro first memberFirst second memberSecond
    rw [List.mem_range] at memberFirst memberSecond
    exact numberedName_injective (by omega) (by omega)
  rw [distinctTypes, types, distinct.dedup, List.length_map, List.length_range]

theorem types_numberedEvents (count : Nat) :
    (numberedEvents count).map Event.eventType = (List.range count).map numberedName := by
  rw [numberedEvents, List.map_map]
  rfl

/-- A reader looks while the second event is fed. -/
def overlappedRead : List SharedStep :=
  [.appendBatch [numberedEvent 0] false, .feed, .feed, .feed, .publishWatermark, .loadWatermark,
    .appendBatch [numberedEvent 1] false, .feed, .loadSegments, .checkIndex, .captureColumn,
    .capturePostings, .feed]

theorem view_exposes_committed_overlapped :
    ∃ start last segment, opened 1 [] = some start ∧ run step start overlappedRead = some last ∧
      last.segments[0]? = some segment ∧
      Indexes (segment.tail.observe ⟨1, 1, 0⟩) segment.base (segment.events.take 1) := by
  obtain ⟨start, opens, exposes⟩ := @view_exposes_committed 1 Nat.one_pos []
    (by decide) (by decide) overlappedRead
  have opensEmpty : opened 1 [] =
      some ⟨[], ⟨1, [], ActiveTail.new 1⟩, false, .idle, 0, 0, .idle⟩ := rfl
  obtain rfl := Option.some.inj (opens.symm.trans opensEmpty)
  obtain ⟨segment, found, _, indexes⟩ := (exposes _ rfl).2 1 0 ⟨1, 1, 0⟩ rfl
  refine ⟨_, _, segment, opens, rfl, found, ?_⟩
  have base : segment.base = 1 := by
    obtain rfl := Option.some.inj found
    rfl
  rwa [base] at indexes ⊢

/-- The steps of one read. -/
def oneRead : List SharedStep :=
  [.loadWatermark, .loadSegments, .checkIndex, .captureColumn, .capturePostings]

/-- Opened with more types than fit, the tail is not marked, and a view misses an event. -/
theorem view_misses_refused {base : Nat} {events : List Event}
    (fits : FitsSegment events) (many : maxTypeId + 1 < (distinctTypes events).length) :
    ∃ start last view segment, opened base events = some start ∧
      run step start oneRead = some last ∧
      last.reader = .viewing (base + events.length - 1) 0 view ∧
      last.segments[0]? = some segment ∧ segment.base = base ∧ segment.events = events ∧
      ¬ Indexes (segment.tail.observe view) base events := by
  obtain ⟨built, rebuilt, holds⟩ := rebuild_holds base fits
  have latched : built.unindexable = true := by
    cases flag : built.unindexable with
    | true => rfl
    | false => exact absurd (holds.unindexable_iff.mp flag) (by omega)
  have unmarked := holds.unmarked
  obtain ⟨_, _, fed, rest, split, _, _, refused⟩ := holds
  obtain ⟨_, event, member, absent⟩ := refused latched
  let segment : IndexedSegment := ⟨base, events, built.index⟩
  let watermark := base + events.length - 1
  let chunks := built.index.typeColumn.chunks
  let view : CapturedView :=
    ⟨min (built.index.visibleLen watermark) (chunks * chunkSize % 2 ^ 32), chunks,
      built.index.postings.chunks⟩
  let start : Shared := ⟨[], segment, built.unindexable, .idle, 0, watermark, .idle⟩
  have opens : opened base events = some start := by
    rw [opened, rebuilt]
    rfl
  have looked : run step start oneRead =
      some { start with reader := .viewing watermark 0 view } := by
    simp [oneRead, run, step, segments, start, segment, view, chunks, watermark, unmarked]
  refine ⟨start, _, view, segment, opens, looked, rfl, rfl, rfl, rfl, ?_⟩
  intro indexes
  exact indexes.absent_type event.eventType absent event
    (split ▸ List.mem_append_right fed member) rfl

/-- One type too many in the active segment of a store that is opened. -/
theorem reopened_view_misses_event :
    ∃ start last view segment, opened 1 (numberedEvents 65537) = some start ∧
      run step start oneRead = some last ∧ last.reader = .viewing 65537 0 view ∧
      last.segments[0]? = some segment ∧
      ¬ Indexes (segment.tail.observe view) segment.base
        (segment.events.take (65537 + 1 - segment.base)) := by
  have length : (numberedEvents 65537).length = 65537 := by
    rw [numberedEvents, List.length_map, List.length_range]
  obtain ⟨start, last, view, segment, opens, ran, viewing, found, base, events, misses⟩ :=
    @view_misses_refused 1 (numberedEvents 65537) (numberedEvents_fits (by omega)) (by
      rw [length_distinctTypes_numbered (by omega) (types_numberedEvents 65537)]
      decide)
  rw [length] at viewing
  refine ⟨start, last, view, segment, opens, ran, viewing, found, ?_⟩
  rw [base, events, List.take_of_length_le (by rw [length])]
  exact misses

end Shared

end Read

end Tephra
