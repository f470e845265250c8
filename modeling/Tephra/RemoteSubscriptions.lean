import Tephra.RemoteReads
import Tephra.SubscriptionMarkers

/-!
# Remote subscriptions

A subscription of a blocking client takes the frames that the server's thread sends, event by
event and marker by marker.  It ends quietly when the connection closes between two frames, and
with an error when it breaks within one.  What a client has seen in front of a marker is
everything that matches up to the marker.
-/

namespace Tephra

open Framing Read

namespace Blocking

open Tephra.Server Tephra.Client

/-- What a subscription gives. -/
inductive SubEvent
  | event (event : SequencedEvent)
  | caughtUp (watermark : Nat)

/-- Why a subscription fails: a frame cannot be read, or is not what it should be. -/
inductive SubscribeError (ε : Type)
  | frame (source : FrameError ε)
  | call (source : CallError)

/-- The stream of a subscription.  It reads frames on demand. -/
structure SubscribeStream where
  requestId : Nat
  buffered : List SubEvent
  done : Bool

namespace SubscribeStream

variable {ε : Type}

def new (id : Nat) : SubscribeStream := ⟨id, [], false⟩

/-- Read frames until one has events or a marker, or the stream ends.  The frames end as the
connection does. -/
def fill (ending : Ending ε) (self : SubscribeStream) :
    List Response → Except (SubscribeError ε) Unit × SubscribeStream × List Response
  | [] =>
      match ending with
      | .eof => (.ok (), { self with done := true }, [])
      | .failed error => (.error (.frame error), self, [])
  | response :: socket =>
      let got := response.requestId
      if got ≠ self.requestId ∧ got ≠ unattributed then
        (.error (.call (.mismatched got self.requestId)), { self with done := true }, socket)
      else
        match response.kind with
        | .readEvents events =>
            let taken := ReadStream.takeEvents events
            let self := { self with buffered := self.buffered ++ taken.1.map .event }
            match taken.2 with
            | some source =>
                (.error (.call (.failed (.protocol (.malformed source)))), self, socket)
            | none =>
                if self.buffered.isEmpty then fill ending self socket else (.ok (), self, socket)
        | .caughtUp watermark =>
            (.ok (), { self with buffered := self.buffered ++ [.caughtUp watermark] }, socket)
        | .error source =>
            (.error (.call (.failed (serverError source))), { self with done := true }, socket)
        | other =>
            (.error (.call (.failed (.protocol
                (.unexpected "unexpected response during subscribe" other)))),
              { self with done := true }, socket)

/-- The next item of the stream. -/
def next (ending : Ending ε) (self : SubscribeStream) (socket : List Response) :
    Option (Except (SubscribeError ε) SubEvent) × SubscribeStream × List Response :=
  match self.buffered with
  | item :: rest => (some (.ok item), { self with buffered := rest }, socket)
  | [] =>
      if self.done then
        (none, self, socket)
      else
        match fill ending self socket with
        | (.ok (), self, socket) =>
            (self.buffered.head?.map .ok, { self with buffered := self.buffered.tail }, socket)
        | (.error error, self, socket) => (some (.error error), { self with done := true }, socket)

/-- A loop over the stream that ends with it, or behind a number of items. -/
def items (ending : Ending ε) (self : SubscribeStream) (socket : List Response) :
    (count : Nat) → List (Except (SubscribeError ε) SubEvent)
  | 0 => []
  | count + 1 =>
      match self.next ending socket with
      | (none, _, _) => []
      | (some item, self, socket) => item :: items ending self socket count

/-- The items of some frames.  The events in front of a malformed one come behind its error. -/
def contents (ending : Ending ε) :
    List ResponseKind → List (Except (SubscribeError ε) SubEvent)
  | [] =>
      match ending with
      | .eof => []
      | .failed error => [.error (.frame error)]
  | .readEvents events :: answer =>
      let taken := ReadStream.takeEvents events
      match taken.2 with
      | some source =>
          .error (.call (.failed (.protocol (.malformed source)))) ::
            taken.1.map fun event => .ok (.event event)
      | none => (taken.1.map fun event => .ok (.event event)) ++ contents ending answer
  | .caughtUp watermark :: answer => .ok (.caughtUp watermark) :: contents ending answer
  | .error source :: _ => [.error (.call (.failed (serverError source)))]
  | other :: _ =>
      [.error (.call (.failed (.protocol
        (.unexpected "unexpected response during subscribe" other))))]

/-- What the stream has still to give. -/
def remaining (ending : Ending ε) (self : SubscribeStream) (answer : List ResponseKind) :
    List (Except (SubscribeError ε) SubEvent) :=
  self.buffered.map .ok ++ if self.done then [] else contents ending answer

/-- What reading frames does to a stream with an empty buffer: it has its next items, or fails
with the first of them. -/
def Filled (ending : Ending ε) (before : SubscribeStream) (answer : List ResponseKind)
    (result : Except (SubscribeError ε) Unit) (after : SubscribeStream)
    (rest : List ResponseKind) : Prop :=
  after.requestId = before.requestId ∧
    ((result = .ok () ∧ after.remaining ending rest = contents ending answer ∧
        (after.buffered = [] → after.done = true)) ∨
      ∃ error, result = .error error ∧
        contents ending answer = .error error :: after.buffered.map .ok)

theorem fill_frames {ending : Ending ε} {self : SubscribeStream} (empty : self.buffered = [])
    (going : self.done = false) (answer : List ResponseKind) :
    ∃ result after rest,
      self.fill ending (Client.frames self.requestId answer) =
          (result, after, Client.frames self.requestId rest) ∧
        Filled ending self answer result after rest := by
  obtain ⟨id, buffered, done⟩ := self
  obtain rfl : buffered = [] := empty
  obtain rfl : done = false := going
  have mine : ¬ (id ≠ id ∧ id ≠ unattributed) := fun differs => differs.1 rfl
  induction answer with
  | nil =>
      cases ending with
      | eof => exact ⟨_, _, [], rfl, rfl, .inl ⟨rfl, rfl, fun _ => rfl⟩⟩
      | failed error => exact ⟨_, _, [], rfl, rfl, .inr ⟨_, rfl, rfl⟩⟩
  | cons kind answer ih =>
      rw [Client.frames, List.map_cons, fill, if_neg mine]
      cases kind with
      | readEvents events =>
          rcases taken : ReadStream.takeEvents events with ⟨taken_events, _ | source⟩
          · simp only [taken]
            cases taken_events with
            | nil =>
                obtain ⟨result, after, rest, filled, same, spec⟩ := ih
                refine ⟨result, after, rest, filled, same, ?_⟩
                have skip : contents ending (.readEvents events :: answer) =
                    contents ending answer := by
                  rw [contents, taken]
                  rfl
                rwa [skip]
            | cons event more =>
                refine ⟨.ok (), _, answer, rfl, rfl, .inl ⟨rfl, ?_, by simp⟩⟩
                rw [contents, taken]
                simp [remaining]
          · simp only [taken]
            refine ⟨_, _, answer, rfl, rfl, .inr ⟨_, rfl, ?_⟩⟩
            rw [contents, taken]
            simp
      | caughtUp watermark => exact ⟨_, _, answer, rfl, rfl, .inl ⟨rfl, rfl, by simp⟩⟩
      | error source => exact ⟨_, _, answer, rfl, rfl, .inr ⟨_, rfl, rfl⟩⟩
      | append first last => exact ⟨_, _, answer, rfl, rfl, .inr ⟨_, rfl, rfl⟩⟩
      | readEnd watermark => exact ⟨_, _, answer, rfl, rfl, .inr ⟨_, rfl, rfl⟩⟩
      | stats stats => exact ⟨_, _, answer, rfl, rfl, .inr ⟨_, rfl, rfl⟩⟩
      | helloAck => exact ⟨_, _, answer, rfl, rfl, .inr ⟨_, rfl, rfl⟩⟩
      | notSet => exact ⟨_, _, answer, rfl, rfl, .inr ⟨_, rfl, rfl⟩⟩

theorem next_frames (ending : Ending ε) (self : SubscribeStream) (answer : List ResponseKind) :
    ∃ item after rest,
      self.next ending (Client.frames self.requestId answer) =
          (item, after, Client.frames self.requestId rest) ∧
        after.requestId = self.requestId ∧ item = (self.remaining ending answer).head? ∧
        (item ≠ none → after.remaining ending rest = (self.remaining ending answer).tail) := by
  rcases buffered : self.buffered with _ | ⟨item, more⟩
  · by_cases done : self.done = true
    · refine ⟨none, self, answer, by simp [next, buffered, done], rfl, ?_, by simp⟩
      simp [remaining, buffered, done]
    · have going : self.done = false := by simpa using done
      have remaining_eq : self.remaining ending answer = contents ending answer := by
        simp [remaining, buffered, going]
      obtain ⟨result, after, rest, filled, same, spec⟩ := fill_frames buffered going answer
      rw [next, buffered]
      dsimp only
      rw [if_neg done, filled, remaining_eq]
      rcases spec with ⟨rfl, contents_eq, ended⟩ | ⟨error, rfl, contents_eq⟩
      · refine ⟨_, _, rest, rfl, same, ?_, ?_⟩
        · rw [← contents_eq, remaining]
          cases held : after.buffered with
          | nil => simp [ended held]
          | cons item more => rfl
        · rw [← contents_eq, remaining, remaining]
          cases held : after.buffered with
          | nil => simp
          | cons item more => intro _; rfl
      · refine ⟨_, _, rest, rfl, same, ?_, ?_⟩
        · rw [contents_eq]
          rfl
        · rw [contents_eq]
          simp [remaining]
  · refine ⟨some (.ok item), { self with buffered := more }, answer, ?_, rfl, ?_, ?_⟩
    · simp [next, buffered]
    · simp [remaining, buffered]
    · simp [remaining, buffered]

/-- The items of a stream are those of its frames. -/
theorem items_frames (ending : Ending ε) (self : SubscribeStream) (answer : List ResponseKind)
    (count : Nat) :
    self.items ending (Client.frames self.requestId answer) count =
      (self.remaining ending answer).take count := by
  induction count generalizing self answer with
  | zero => rfl
  | succ count ih =>
      obtain ⟨item, after, rest, next_eq, same, head, tail⟩ := self.next_frames ending answer
      rw [items, next_eq]
      cases left : self.remaining ending answer with
      | nil =>
          rw [left] at head
          subst head
          rfl
      | cons first more =>
          rw [left] at head tail
          subst head
          have later := ih after rest
          rw [same, tail (by simp)] at later
          exact congrArg (first :: ·) later

end SubscribeStream

end Blocking

namespace Remote

open Client Server Blocking Index SortedMaps Writer.CommitSeam

/-- A frame on the wire. -/
structure SubscribeResponse where
  requestId : Nat
  kind : SubscribeFrame

/-- What a client makes of the frames of a subscription.  Their errors are internal ones. -/
def subscribeKind (display : ReadError → List UInt8) : SubscribeFrame → Client.ResponseKind
  | .readEvents events => .readEvents events
  | .caughtUp watermark => .caughtUp watermark
  | .error source => .error ⟨Pb.internalCode, display source, none, false⟩

section Frames

variable {ε : Type} {ending : Ending ε} {display : ReadError → List UInt8}

/-- The events among the items of a subscription. -/
def eventsSeen (items : List (Except (SubscribeError ε) SubEvent)) : List SequencedEvent :=
  items.filterMap fun item =>
    match item with
    | .ok (.event event) => some event
    | _ => none

theorem eventsSeen_append (front back : List (Except (SubscribeError ε) SubEvent)) :
    eventsSeen (front ++ back) = eventsSeen front ++ eventsSeen back :=
  List.filterMap_append

theorem eventsSeen_events (events : List SequencedEvent) :
    eventsSeen (events.map fun event => (.ok (.event event) : Except (SubscribeError ε) _)) =
      events := by
  rw [eventsSeen, List.filterMap_map]
  exact List.filterMap_some

theorem takeEvents_append {front back : List Pb.SequencedEvent}
    {first later : List SequencedEvent} (front_eq : ReadStream.takeEvents front = (first, none))
    (back_eq : ReadStream.takeEvents back = (later, none)) :
    ReadStream.takeEvents (front ++ back) = (first ++ later, none) := by
  induction front generalizing first with
  | nil =>
      obtain rfl := (Prod.mk.inj front_eq).1
      exact back_eq
  | cons view front ih =>
      rw [ReadStream.takeEvents] at front_eq
      rw [List.cons_append, ReadStream.takeEvents]
      cases known : sequencedFromPb view with
      | error source => simp [known] at front_eq
      | ok event =>
          simp only [known] at front_eq
          obtain ⟨rfl, whole⟩ := Prod.mk.inj front_eq
          simp only [@ih _ (Prod.ext rfl whole), List.cons_append]

theorem takeEvents_parts {front back : List Pb.SequencedEvent} {events : List SequencedEvent}
    (parsed : ReadStream.takeEvents (front ++ back) = (events, none)) :
    ∃ first later, ReadStream.takeEvents front = (first, none) ∧
      ReadStream.takeEvents back = (later, none) ∧ events = first ++ later := by
  induction front generalizing events with
  | nil => exact ⟨[], events, rfl, parsed, rfl⟩
  | cons view front ih =>
      rw [List.cons_append, ReadStream.takeEvents] at parsed
      rw [ReadStream.takeEvents]
      cases known : sequencedFromPb view with
      | error source => simp [known] at parsed
      | ok event =>
          simp only [known] at parsed
          obtain ⟨rfl, whole⟩ := Prod.mk.inj parsed
          obtain ⟨first, later, front_eq, back_eq, split⟩ := @ih _ (Prod.ext rfl whole)
          refine ⟨event :: first, later, ?_, back_eq, ?_⟩
          · simp only [front_eq]
          · exact congrArg (event :: ·) split

theorem contents_readEvents {views : List Pb.SequencedEvent} {events : List SequencedEvent}
    (parsed : ReadStream.takeEvents (SubscribeFrame.readEvents views).events = (events, none))
    (frames : List SubscribeFrame) :
    SubscribeStream.contents ending ((.readEvents views :: frames).map (subscribeKind display)) =
      (events.map fun event => .ok (.event event)) ++
        SubscribeStream.contents ending (frames.map (subscribeKind display)) := by
  have parsed : ReadStream.takeEvents views = (events, none) := parsed
  rw [List.map_cons, subscribeKind, SubscribeStream.contents, parsed]

/-- Whatever the frames are, the events come in order. -/
theorem eventsSeen_contents {frames : List SubscribeFrame} {events : List SequencedEvent}
    (parsed : ReadStream.takeEvents (Server.eventsOf frames) = (events, none)) :
    eventsSeen (SubscribeStream.contents ending (frames.map (subscribeKind display))) <+:
      events := by
  induction frames generalizing events with
  | nil =>
      obtain rfl := (Prod.mk.inj parsed).1
      cases ending <;> exact List.prefix_rfl
  | cons frame frames ih =>
      rw [Server.eventsOf_cons] at parsed
      cases frame with
      | readEvents views =>
          obtain ⟨first, later, first_eq, later_eq, rfl⟩ := takeEvents_parts parsed
          rw [contents_readEvents first_eq, eventsSeen_append, eventsSeen_events,
            List.prefix_append_right_inj]
          exact ih later_eq
      | caughtUp watermark => exact ih parsed
      | error source => exact List.nil_prefix

/-- What a client is to see of a frame. -/
def itemsOf : SubscribeFrame → List SubEvent
  | .readEvents events => (ReadStream.takeEvents events).1.map .event
  | .caughtUp watermark => [.caughtUp watermark]
  | .error _ => []

theorem contents_whole {frames : List SubscribeFrame} {events : List SequencedEvent}
    (parsed : ReadStream.takeEvents (Server.eventsOf frames) = (events, none))
    (fine : ∀ source, .error source ∉ frames) :
    SubscribeStream.contents (.eof : Ending ε) (frames.map (subscribeKind display)) =
      (frames.flatMap itemsOf).map .ok := by
  induction frames generalizing events with
  | nil => rfl
  | cons frame frames ih =>
      rw [Server.eventsOf_cons] at parsed
      have later_fine : ∀ source, .error source ∉ frames := fun source member =>
        fine source (List.mem_cons_of_mem _ member)
      rw [List.flatMap_cons, List.map_append]
      cases frame with
      | readEvents views =>
          obtain ⟨first, later, first_eq, later_eq, rfl⟩ := takeEvents_parts parsed
          have parsed_first : ReadStream.takeEvents views = (first, none) := first_eq
          rw [contents_readEvents first_eq, ih later_eq later_fine, itemsOf, parsed_first,
            List.map_map]
          rfl
      | caughtUp watermark => exact congrArg (_ :: ·) (ih parsed later_fine)
      | error source => exact absurd List.mem_cons_self (fine source)

/-- A marker among the items is one of the frames, with the events of the frames before it. -/
theorem marker_of_contents {frames : List SubscribeFrame} {events : List SequencedEvent}
    (parsed : ReadStream.takeEvents (Server.eventsOf frames) = (events, none))
    {before after : List (Except (SubscribeError ε) SubEvent)} {mark : Nat}
    (split : SubscribeStream.contents ending (frames.map (subscribeKind display)) =
      before ++ .ok (.caughtUp mark) :: after) :
    ∃ front back, frames = front ++ .caughtUp mark :: back ∧
      ReadStream.takeEvents (Server.eventsOf front) = (eventsSeen before, none) := by
  induction frames generalizing events before with
  | nil =>
      cases ending with
      | eof => simp [SubscribeStream.contents] at split
      | failed error =>
          have member : .ok (.caughtUp mark) ∈
              SubscribeStream.contents (.failed error) ([].map (subscribeKind display)) := by
            rw [split]
            simp
          simp [SubscribeStream.contents] at member
  | cons frame frames ih =>
      rw [Server.eventsOf_cons] at parsed
      cases frame with
      | readEvents views =>
          obtain ⟨first, later, first_eq, later_eq, rfl⟩ := takeEvents_parts parsed
          rw [contents_readEvents first_eq] at split
          -- The marker is behind the events of the batch.
          obtain ⟨between, rfl, behind⟩ : ∃ between,
              before = (first.map fun event => .ok (.event event)) ++ between ∧
                SubscribeStream.contents ending (frames.map (subscribeKind display)) =
                  between ++ .ok (.caughtUp mark) :: after := by
            rcases List.append_eq_append_iff.mp split with
              ⟨between, before_eq, rest_eq⟩ | ⟨events, events_eq, rest_eq⟩
            · exact ⟨between, before_eq, rest_eq⟩
            · cases events with
              | nil =>
                  rw [List.append_nil] at events_eq
                  exact ⟨[], by rw [events_eq, List.append_nil], rest_eq.symm⟩
              | cons item events =>
                  obtain ⟨rfl, -⟩ := List.cons.inj rest_eq
                  have member : .ok (.caughtUp mark) ∈
                      first.map fun event =>
                        (.ok (.event event) : Except (SubscribeError ε) SubEvent) := by
                    rw [events_eq]
                    simp
                  simp at member
          obtain ⟨front, back, rfl, front_eq⟩ := ih later_eq behind
          refine ⟨.readEvents views :: front, back, rfl, ?_⟩
          rw [Server.eventsOf_cons, eventsSeen_append, eventsSeen_events]
          exact takeEvents_append first_eq front_eq
      | caughtUp watermark =>
          cases before with
          | nil =>
              obtain ⟨same, -⟩ := List.cons.inj split
              cases same
              exact ⟨[], frames, rfl, rfl⟩
          | cons item before =>
              obtain ⟨rfl, behind⟩ := List.cons.inj split
              obtain ⟨front, back, rfl, front_eq⟩ := ih parsed behind
              exact ⟨.caughtUp watermark :: front, back, rfl, front_eq⟩
      | error source =>
          cases before with
          | nil =>
              obtain ⟨same, -⟩ := List.cons.inj split
              cases same
          | cons item before =>
              obtain ⟨-, behind⟩ := List.cons.inj split
              simp at behind

theorem takeEvents_onWire (items : List Sequenced) :
    ReadStream.takeEvents (onWire items) = (items.map row, none) :=
  takeEvents_batch items

theorem onWire_front {items : List Sequenced} {front : List Pb.SequencedEvent}
    (inOrder : front <+: onWire items) : ∃ first, first <+: items ∧ front = onWire first := by
  rw [onWire, Batch.of, List.prefix_map_iff] at inOrder
  obtain ⟨first, isFirst, rfl⟩ := inOrder
  exact ⟨first, isFirst, rfl⟩

end Frames

/-- What a client makes of a response. -/
def receive (display : ReadError → List UInt8) (response : SubscribeResponse) : Client.Response :=
  ⟨response.requestId, subscribeKind display response.kind⟩

/-- What a client is told of a subscription to a log: the first of the matching events, in order,
and in front of every marker all that match up to it. -/
structure Told {ε : Type} (query : Query) (start watermark : Nat) (log : List Event)
    (items : List (Except (SubscribeError ε) SubEvent)) : Prop where
  inOrder : eventsSeen items <+: (scanOracle query start watermark log).map row
  marked : ∀ before mark after, items = before ++ .ok (.caughtUp mark) :: after →
    eventsSeen before = (scanOracle query start mark log).map row

theorem Told.take {ε : Type} {query : Query} {start watermark : Nat} {log : List Event}
    {items : List (Except (SubscribeError ε) SubEvent)}
    (told : Told query start watermark log items) (count : Nat) :
    Told query start watermark log (items.take count) where
  inOrder := by
    refine List.IsPrefix.trans ⟨eventsSeen (items.drop count), ?_⟩ told.inOrder
    rw [← eventsSeen_append, List.take_append_drop]
  marked before mark after split := by
    refine told.marked before mark (after ++ items.drop count) ?_
    rw [← List.cons_append, ← List.append_assoc, ← split, List.take_append_drop]

/-- What arrives of the frames of a thread tells the truth. -/
theorem told_of_truthful {ε : Type} {format : MapFormat} {query : Query} {start : Nat}
    {last : SubscribeWorker format} (truthful : SubscribeWorker.Truthful query start last) (display : ReadError → List UInt8)
    (ending : Ending ε) {frames : List SubscribeFrame} (front : frames <+: last.frames) :
    Told query start last.worker.watermark last.worker.set.events
      (SubscribeStream.contents ending (frames.map (subscribeKind display))) := by
  obtain ⟨rest, split⟩ := front
  have inOrder := truthful.inOrder
  rw [← split, Server.eventsOf_append] at inOrder
  obtain ⟨rows, isFirst, sent⟩ :=
    onWire_front (List.IsPrefix.trans (List.prefix_append _ _) inOrder)
  have parsed := takeEvents_onWire rows
  rw [← sent] at parsed
  constructor
  · refine (eventsSeen_contents parsed).trans (List.IsPrefix.map row (isFirst.trans ?_))
    rcases truthful.cursor_le with same | below
    · rw [same, Reads.scanOracle_eq_nil le_rfl]
      exact List.nil_prefix
    · rw [scanOracle_split truthful.start_le below]
      exact List.prefix_append _ _
  · intro before mark after contents
    obtain ⟨earlier, back, rfl, earlier_eq⟩ := marker_of_contents parsed contents
    have marked := truthful.marked earlier mark (back ++ rest)
      (by rw [← split, List.append_assoc, List.cons_append])
    rw [marked, takeEvents_onWire] at earlier_eq
    exact (Prod.mk.inj earlier_eq).1.symm

/-- Along every run of the writer and of a subscription's thread, and however the bytes of its
frames arrive, the client is told the truth, if the active segment of the log that was opened does
not have too many types and no append fails behind its rollover.  If everything arrives and no
poll fails, it is told every event and every marker. -/
theorem remote_subscription_truthful {format : MapFormat} (lawful : format.Lawful)
    {crc : List UInt8 → UInt32} {set : SegmentedLog} {index : IndexSet format}
    (opened : Worker.Opened crc set index)
    (few : (distinctTypes set.active.events).length ≤ maxTypeId + 1) (cfg : WriterConfig)
    (sub : Subscription) {config : ServerConfig} {scanBias : Nat} {labels : List SubscribeStep}
    {last : SubscribeWorker format}
    (allowed : Histories.Allowed (SubscribeWorker.step crc config scanBias)
      SubscribeWorker.StepAllowed (SubscribeWorker.new (.start cfg set index) sub) labels)
    (ran : Histories.run (SubscribeWorker.step crc config scanBias)
      (SubscribeWorker.new (.start cfg set index) sub) labels = some last) {ε ς : Type}
    (serialize : SubscribeResponse → Except ς (List UInt8))
    (parse : List UInt8 → Except ε SubscribeResponse)
    (undoes : ∀ {msg : SubscribeResponse} {body : List UInt8},
      serialize msg = .ok body → parse body = .ok msg)
    (max : UInt32) (display : ReadError → List UInt8) (requestId : Nat)
    {sent : List SubscribeResponse} {stream : List UInt8} {script : List Arrival}
    (front : sent <+: last.frames.map (SubscribeResponse.mk requestId))
    (written : writeMessages serialize max.toNat sent = .ok stream)
    (arrived : bytesOf script <+: stream) :
    ∃ got ending, Delivers parse max.toNat script (got, ending) ∧
      (∀ count, Told sub.query sub.cursor last.worker.watermark last.worker.set.events
        ((SubscribeStream.new requestId).items ending (got.map (receive display)) count)) ∧
      (sent = last.frames.map (SubscribeResponse.mk requestId) → bytesOf script = stream →
        (∀ source, .error source ∉ last.frames) →
        ∀ count, (last.frames.flatMap itemsOf).length ≤ count →
          (SubscribeStream.new requestId).items ending (got.map (receive display)) count =
            (last.frames.flatMap itemsOf).map .ok) := by
  have truthful : SubscribeWorker.Truthful sub.query sub.cursor last :=
    (SubscribeWorker.Truthful.new (opened.serves_start lawful few cfg) sub).run lawful allowed ran
  obtain ⟨got, ending, delivers, isFirst, all⟩ := delivered_front undoes written arrived
  obtain ⟨frames, first, rfl⟩ := List.prefix_map_iff.mp (isFirst.trans front)
  have socket : (frames.map (SubscribeResponse.mk requestId)).map (receive display) =
      Client.frames requestId (frames.map (subscribeKind display)) := by
    rw [Client.frames, List.map_map, List.map_map]
    rfl
  have items : ∀ count, (SubscribeStream.new requestId).items ending
      ((frames.map (SubscribeResponse.mk requestId)).map (receive display)) count =
        (SubscribeStream.contents ending (frames.map (subscribeKind display))).take count := by
    intro count
    rw [socket]
    exact SubscribeStream.items_frames ending (.new requestId) _ count
  refine ⟨_, ending, delivers, ?_, ?_⟩
  · intro count
    rw [items]
    exact (told_of_truthful truthful display ending first).take count
  · intro complete same fine count enough
    obtain ⟨rfl, rfl⟩ := all same
    have injective : Function.Injective (SubscribeResponse.mk requestId) := by
      intro one other same
      exact (SubscribeResponse.mk.inj same).2
    obtain rfl : frames = last.frames := List.map_injective_iff.mpr injective complete
    obtain ⟨rows, -, whole⟩ := onWire_front truthful.inOrder
    have parsed := takeEvents_onWire rows
    rw [← whole] at parsed
    rw [items, contents_whole parsed fine, List.take_of_length_le]
    rwa [List.length_map]

/-- The two responses to a subscription to one event, as they are serialized. -/
def serializeMarked : SubscribeResponse → Except Unit (List UInt8)
  | ⟨2, .readEvents [⟨1, ⟨[97], [], []⟩⟩]⟩ => .ok [8, 2, 26, 9, 10, 7, 8, 1, 18, 3, 10, 1, 97]
  | ⟨2, .caughtUp 1⟩ => .ok [8, 2, 50, 2, 8, 1]
  | _ => .error ()

def parseMarked : List UInt8 → Except Unit SubscribeResponse
  | [8, 2, 26, 9, 10, 7, 8, 1, 18, 3, 10, 1, 97] => .ok ⟨2, .readEvents [⟨1, ⟨[97], [], []⟩⟩]⟩
  | [8, 2, 50, 2, 8, 1] => .ok ⟨2, .caughtUp 1⟩
  | _ => .error ()

theorem parseMarked_undoes {msg : SubscribeResponse} {body : List UInt8}
    (serialized : serializeMarked msg = .ok body) : parseMarked body = .ok msg := by
  unfold serializeMarked at serialized
  split at serialized
  · cases serialized
    rfl
  · cases serialized
    rfl
  · cases serialized

/-- An event is committed and sent, and the edge behind it is announced. -/
def markedRun : List SubscribeStep :=
  [.write (.request ⟨[Worker.untaggedEvent], none⟩), .write (.commit .appended 7), .check true,
    .loadMark, .read .between, .send true, .send true, .check true, .loadMark, .read .between,
    .announce true]

def markedStart : SubscribeWorker flatTable :=
  .new (.start Worker.plainConfig Writer.emptyLog (IndexSet.new flatTable 1))
    ⟨.all, 0, 1, Nat.one_pos⟩

/-- The bytes of the two frames, one piece after another. -/
def markedPieces : List Arrival :=
  [.data 0 [0, 0], .data 13 [8, 2, 26, 9, 10, 7, 8, 1, 18, 3, 10, 1, 97], .interrupted,
    .data 0 [0, 0, 6, 8, 2, 50, 2, 8, 1]]

/-- The event, and the marker behind it. -/
def showsMarked : List SubscribeFrame → Bool
  | [.readEvents [⟨1, ⟨[97], [], []⟩⟩], .caughtUp 1] => true
  | _ => false

theorem remote_subscription_truthful_marked :
    ∃ got ending, Delivers parseMarked 64 markedPieces (got, ending) ∧
      (SubscribeStream.new 2).items ending (got.map (receive fun _ => [])) 2 =
        [.ok (.event (row ⟨1, Worker.untaggedEvent⟩)), .ok (.caughtUp 1)] := by
  have computed : (Histories.run (SubscribeWorker.step Seglog.crc32 ⟨64, 1, 1⟩ 4) markedStart
      markedRun).any (fun last => showsMarked last.frames) = true := by
    decide +kernel
  obtain ⟨last, ran, shown⟩ := (Option.any_eq_true _ _).mp computed
  have frames : last.frames = [.readEvents [⟨1, ⟨[97], [], []⟩⟩], .caughtUp 1] := by
    unfold showsMarked at shown
    split at shown
    · assumption
    · cases shown
  have allowed : Histories.Allowed (SubscribeWorker.step Seglog.crc32 ⟨64, 1, 1⟩ 4)
      SubscribeWorker.StepAllowed markedStart markedRun := by
    decide +kernel
  obtain ⟨got, ending, delivers, -, whole⟩ := remote_subscription_truthful flatTable_lawful
    Worker.emptyLog_opened (by decide) Worker.plainConfig ⟨.all, 0, 1, Nat.one_pos⟩ allowed ran
    serializeMarked parseMarked parseMarked_undoes 64 (fun _ => []) 2 List.prefix_rfl
    (by rw [frames]; decide +kernel) (List.prefix_rfl : bytesOf markedPieces <+: _)
  refine ⟨got, ending, delivers, ?_⟩
  rw [whole rfl rfl (by simp [frames]) 2 (by rw [frames]; decide +kernel), frames,
    List.flatMap_cons, itemsOf]
  have parsed : ReadStream.takeEvents [⟨1, ⟨[97], [], []⟩⟩] =
      ([row ⟨1, Worker.untaggedEvent⟩], none) := takeEvents_onWire [⟨1, Worker.untaggedEvent⟩]
  rw [parsed]
  rfl

end Remote

end Tephra
