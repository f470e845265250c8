import Tephra.ClientDelivery

/-!
# The blocking client

A blocking client sends one request at a time and reads its response frames from the
socket.  A read hands out a stream, which reads frames on demand and discards the rest of
its response when it is dropped.  What a later operation reads first is what the earlier
ones have left in the socket.
-/

namespace Tephra.Blocking

open Tephra.Server Tephra.Client

/-- The id of a response that answers no request. -/
def unattributed : Nat := 0

/-- Why an operation fails. -/
inductive CallError
  | failed (source : ClientError)
  | mismatched (got expected : Nat)
  | noWatermark
  | unsent

/-- The next request id, and the frames that the server has sent and nobody has read. -/
structure Client where
  nextId : Nat
  socket : List Response

/-- Read a frame. -/
def recv : List Response → Except CallError Response × List Response
  | [] => (.error (.failed .unexpectedEof), [])
  | response :: socket => (.ok response, socket)

def checkResponseId (response : Response) (expected : Nat) : Except CallError Unit :=
  let got := response.requestId
  if got ≠ expected ∧ got ≠ unattributed then .error (.mismatched got expected) else .ok ()

/-- What an append returns for a response. -/
def appendOutcome : ResponseKind → Except CallError Value
  | .append first last => .ok (.appended first last)
  | .error source => .error (.failed (serverError source))
  | other => .error (.failed (.protocol (.unexpected "unexpected response to append" other)))

/-- What a stats request returns for a response. -/
def statsOutcome : ResponseKind → Except CallError Value
  | .stats stats => .ok (.stats (statsFromPb stats))
  | .error source => .error (.failed (serverError source))
  | other => .error (.failed (.protocol (.unexpected "unexpected response to stats" other)))

/-- Receive the one response to a request. -/
def call (outcome : ResponseKind → Except CallError Value) (id : Nat) (socket : List Response) :
    Except CallError Value × List Response :=
  match recv socket with
  | (.error error, socket) => (.error error, socket)
  | (.ok response, socket) =>
      match checkResponseId response id with
      | .error error => (.error error, socket)
      | .ok () => (outcome response.kind, socket)

structure ReadStream where
  requestId : Nat
  buffered : List SequencedEvent
  watermark : Option Nat
  done : Bool

namespace ReadStream

def new (id : Nat) : ReadStream := ⟨id, [], none, false⟩

/-- The events of a batch, up to one that is malformed. -/
def takeEvents : List Pb.SequencedEvent → List SequencedEvent × Option EventError
  | [] => ([], none)
  | view :: views =>
      match sequencedFromPb view with
      | .error source => ([], some source)
      | .ok event =>
          let rest := takeEvents views
          (event :: rest.1, rest.2)

/-- Read frames until one has events, or the read ends. -/
def fill (self : ReadStream) :
    List Response → Except CallError Unit × ReadStream × List Response
  | [] => (.error (.failed .unexpectedEof), self, [])
  | response :: socket =>
      let got := response.requestId
      if got ≠ self.requestId ∧ got ≠ unattributed then
        (.error (.mismatched got self.requestId), { self with done := true }, socket)
      else
        match response.kind with
        | .readEvents events =>
            let taken := takeEvents events
            let self := { self with buffered := self.buffered ++ taken.1 }
            match taken.2 with
            | some source => (.error (.failed (.protocol (.malformed source))), self, socket)
            | none =>
                if self.buffered.isEmpty then fill self socket else (.ok (), self, socket)
        | .readEnd watermark =>
            (.ok (), { self with watermark := some watermark, done := true }, socket)
        | .error source =>
            (.error (.failed (serverError source)), { self with done := true }, socket)
        | other =>
            (.error (.failed (.protocol (.unexpected "unexpected response during read" other))),
              { self with done := true }, socket)

/-- Discard frames through one that ends a read. -/
def drain : List Response → List Response
  | [] => []
  | response :: socket =>
      match response.kind with
      | .readEnd _ => socket
      | .error _ => socket
      | _ => drain socket

/-- Take an event from the front of the buffer. -/
def popFront (self : ReadStream) : Option SequencedEvent × ReadStream :=
  (self.buffered.head?, { self with buffered := self.buffered.tail })

/-- The next item of the stream. -/
def next (self : ReadStream) (socket : List Response) :
    Option (Except CallError SequencedEvent) × ReadStream × List Response :=
  match self.buffered with
  | event :: rest => (some (.ok event), { self with buffered := rest }, socket)
  | [] =>
      if self.done then
        (none, self, socket)
      else
        match fill self socket with
        | (.ok (), self, socket) =>
            let popped := self.popFront
            (popped.1.map .ok, popped.2, socket)
        | (.error error, self, socket) => (some (.error error), { self with done := true }, socket)

/-- What is left in the socket when the stream is dropped. -/
def drop (self : ReadStream) (socket : List Response) : List Response :=
  if self.done then socket else drain socket

/-- A number of items one after another. -/
def nexts (self : ReadStream) (socket : List Response) :
    Nat → List (Option (Except CallError SequencedEvent)) × ReadStream × List Response
  | 0 => ([], self, socket)
  | count + 1 =>
      match self.next socket with
      | (item, self, socket) =>
          let rest := nexts self socket count
          (item :: rest.1, rest.2)

/-- Take all items; the first error ends the loop.  Without enough fuel there is no result. -/
def drainRead (self : ReadStream) (socket : List Response) (events : List SequencedEvent) :
    (fuel : Nat) →
      Option (Except CallError (List SequencedEvent × Nat) × ReadStream × List Response)
  | 0 => none
  | fuel + 1 =>
      match self.next socket with
      | (some (.ok event), self, socket) => drainRead self socket (events ++ [event]) fuel
      | (some (.error error), self, socket) => some (.error error, self, socket)
      | (none, self, socket) =>
          match self.watermark with
          | some watermark => some (.ok (events, watermark), self, socket)
          | none => some (.error .noWatermark, self, socket)

end ReadStream

/-- An operation, with the answer that the server will send; there is none when the request
cannot be sent. -/
inductive Op
  | append (answer : Option (List ResponseKind))
  | stats (answer : Option (List ResponseKind))
  | read (answer : Option (List ResponseKind)) (count : Nat)
  | readAll (answer : Option (List ResponseKind))

inductive Outcome
  | value (result : Except CallError Value)
  | stream (items : List (Option (Except CallError SequencedEvent))) (watermark : Option Nat)
  | all (result : Except CallError (List SequencedEvent × Nat))

namespace Client

/-- The frames of an answer to a request. -/
def frames (id : Nat) (answer : List ResponseKind) : List Response :=
  answer.map fun kind => ⟨id, kind⟩

/-- The number of events in the socket. -/
def eventsIn (socket : List Response) : Nat :=
  (socket.map fun response =>
    match response.kind with
    | .readEvents events => events.length
    | _ => 0).sum

/-- Do an operation. -/
def step (self : Client) : Op → Outcome × Client
  | .append none => (.value (.error .unsent), { self with nextId := self.nextId + 1 })
  | .append (some answer) =>
      let id := self.nextId
      let called := call appendOutcome id (self.socket ++ frames id answer)
      (.value called.1, ⟨id + 1, called.2⟩)
  | .stats none => (.value (.error .unsent), { self with nextId := self.nextId + 1 })
  | .stats (some answer) =>
      let id := self.nextId
      let called := call statsOutcome id (self.socket ++ frames id answer)
      (.value called.1, ⟨id + 1, called.2⟩)
  | .read none _ => (.stream [some (.error .unsent)] none, { self with nextId := self.nextId + 1 })
  | .read (some answer) count =>
      let id := self.nextId
      match (ReadStream.new id).nexts (self.socket ++ frames id answer) count with
      | (items, stream, socket) => (.stream items stream.watermark, ⟨id + 1, stream.drop socket⟩)
  | .readAll none => (.all (.error .unsent), { self with nextId := self.nextId + 1 })
  | .readAll (some answer) =>
      let id := self.nextId
      let socket := self.socket ++ frames id answer
      match (ReadStream.new id).drainRead socket [] (eventsIn socket + 2) with
      | none => (.all (.error .noWatermark), ⟨id + 1, socket⟩)
      | some (result, stream, socket) => (.all result, ⟨id + 1, stream.drop socket⟩)

/-- An operation of a run, with the client before and behind it. -/
structure Step where
  before : Client
  op : Op
  outcome : Outcome
  after : Client

/-- The operations of a run. -/
def run (self : Client) : List Op → List Step
  | [] => []
  | op :: ops =>
      let done := self.step op
      ⟨self, op, done.1, done.2⟩ :: run done.2 ops

end Client

/-- The answer to a read: batches, and the frame that ends it. -/
inductive Ends : List ResponseKind → Prop
  | readEnd (watermark : Nat) : Ends [.readEnd watermark]
  | error (source : ErrorResponse) : Ends [.error source]
  | readEvents (events : List Pb.SequencedEvent) {answer : List ResponseKind} :
      Ends answer → Ends (.readEvents events :: answer)

namespace ReadStream

/-- The items of a read.  The events in front of a malformed one come behind its error. -/
def contents : List ResponseKind → List (Except CallError SequencedEvent)
  | [] => [.error (.failed .unexpectedEof)]
  | .readEvents events :: answer =>
      let taken := takeEvents events
      match taken.2 with
      | some source => .error (.failed (.protocol (.malformed source))) :: taken.1.map .ok
      | none => taken.1.map .ok ++ contents answer
  | .readEnd _ :: _ => []
  | .error source :: _ => [.error (.failed (serverError source))]
  | other :: _ =>
      [.error (.failed (.protocol (.unexpected "unexpected response during read" other)))]

/-- The watermark that a read ends with. -/
def endsAt : List ResponseKind → Option Nat
  | .readEvents events :: answer =>
      if (takeEvents events).2.isSome then none else endsAt answer
  | .readEnd watermark :: _ => some watermark
  | _ => none

/-- A number of items from the front of a list, and nothing behind its end. -/
def takeItems {α : Type} (items : List α) : Nat → List (Option α)
  | 0 => []
  | count + 1 => items.head? :: takeItems items.tail count

/-- All events, or the first error. -/
def collect : List (Except CallError SequencedEvent) → Except CallError (List SequencedEvent)
  | [] => .ok []
  | .ok event :: items => (collect items).map (event :: ·)
  | .error error :: _ => .error error

/-- All events of a read and its watermark. -/
def all (items : List (Except CallError SequencedEvent)) (watermark : Option Nat) :
    Except CallError (List SequencedEvent × Nat) :=
  match collect items, watermark with
  | .ok events, some watermark => .ok (events, watermark)
  | .ok _, none => .error .noWatermark
  | .error error, _ => .error error

/-- A read of a number of items finds no malformed event on its way. -/
def Clean : Nat → List ResponseKind → Prop
  | count + 1, .readEvents events :: answer =>
      (takeEvents events).2 = none ∧ Clean (count + 1 - (takeEvents events).1.length) answer
  | _, _ => True

/-- What the stream has still to give. -/
def remaining (self : ReadStream) (answer : List ResponseKind) :
    List (Except CallError SequencedEvent) :=
  self.buffered.map .ok ++ if self.done then [] else contents answer

/-- The watermark that the stream comes to. -/
def mark (self : ReadStream) (answer : List ResponseKind) : Option Nat :=
  if self.done then self.watermark else endsAt answer

/-- The unread frames are those of an unfinished read, in which the next items are clean. -/
def CleanFor (self : ReadStream) (count : Nat) (answer : List ResponseKind) : Prop :=
  if self.done then answer = [] else Ends answer ∧ Clean (count - self.buffered.length) answer

/-- What reading the frames of an answer does to a stream with an empty buffer. -/
inductive Filled (before : ReadStream) (answer : List ResponseKind) :
    Except CallError Unit → ReadStream → List ResponseKind → Prop
  | ok {after : ReadStream} {rest : List ResponseKind}
      (requestId_eq : after.requestId = before.requestId)
      (fresh : after.done = false → after.watermark = none)
      (remaining_eq : after.remaining rest = contents answer)
      (mark_eq : after.mark rest = endsAt answer)
      (ended : after.buffered = [] ↔ after.done = true)
      (clean : ∀ count, Ends answer → Clean (count + 1) answer →
        after.CleanFor (count + 1) rest) :
      Filled before answer (.ok ()) after rest
  | error {error : CallError} {after : ReadStream} {rest : List ResponseKind}
      (requestId_eq : after.requestId = before.requestId)
      (contents_eq : contents answer = .error error :: after.buffered.map .ok)
      (endsAt_eq : endsAt answer = none)
      (watermark_eq : after.watermark = none)
      (clean : ∀ count, Ends answer → Clean (count + 1) answer → rest = []) :
      Filled before answer (.error error) after rest

theorem Filled.behind_empty {before after : ReadStream} {answer rest : List ResponseKind}
    {result : Except CallError Unit} {events : List Pb.SequencedEvent}
    (taken : takeEvents events = ([], none)) (filled : Filled before answer result after rest) :
    Filled before (.readEvents events :: answer) result after rest := by
  have contents_eq : contents (.readEvents events :: answer) = contents answer := by
    simp [contents, taken]
  have endsAt_eq : endsAt (.readEvents events :: answer) = endsAt answer := by
    simp [endsAt, taken]
  have clean_of : ∀ count, Ends (.readEvents events :: answer) →
      Clean (count + 1) (.readEvents events :: answer) →
      Ends answer ∧ Clean (count + 1) answer := by
    intro count ends clean
    cases ends with
    | readEvents _ ends =>
        have clean := clean.2
        rw [taken] at clean
        exact ⟨ends, clean⟩
  cases filled with
  | ok requestId_eq fresh remaining_eq mark_eq ended clean =>
      refine .ok requestId_eq fresh (remaining_eq.trans contents_eq.symm)
        (mark_eq.trans endsAt_eq.symm) ended ?_
      intro count ends reads
      obtain ⟨ends, reads⟩ := clean_of count ends reads
      exact clean count ends reads
  | error requestId_eq error_eq none_eq watermark_eq clean =>
      refine .error requestId_eq (contents_eq.trans error_eq) (endsAt_eq.trans none_eq)
        watermark_eq ?_
      intro count ends reads
      obtain ⟨ends, reads⟩ := clean_of count ends reads
      exact clean count ends reads

theorem Filled.events {self : ReadStream} (going : self.done = false)
    (fresh : self.watermark = none) {events : List Pb.SequencedEvent}
    {taken : List SequencedEvent} (all : takeEvents events = (taken, none))
    (nonempty : taken ≠ []) (answer : List ResponseKind) :
    Filled self (.readEvents events :: answer) (.ok ()) { self with buffered := taken } answer := by
  refine .ok rfl (fun _ => fresh) ?_ ?_ ?_ ?_
  · simp [remaining, contents, all, going]
  · simp [mark, endsAt, all, going]
  · simp [going, nonempty]
  · intro count ends clean
    cases ends with
    | readEvents _ ends =>
        have clean := clean.2
        rw [all] at clean
        rw [CleanFor, if_neg (by simp [going])]
        exact ⟨ends, clean⟩

/-- The events in front of a malformed one are buffered, and the fill fails. -/
theorem Filled.malformed {self : ReadStream} (fresh : self.watermark = none)
    {events : List Pb.SequencedEvent} {taken : List SequencedEvent} {source : EventError}
    (some_taken : takeEvents events = (taken, some source)) (answer : List ResponseKind) :
    Filled self (.readEvents events :: answer) (.error (.failed (.protocol (.malformed source))))
      { self with buffered := taken } answer := by
  refine .error rfl ?_ ?_ fresh ?_
  · simp [contents, some_taken]
  · simp [endsAt, some_taken]
  · intro count _ clean
    exact absurd clean.1 (by simp [some_taken])

theorem Filled.readEnd {self : ReadStream} (empty : self.buffered = []) (watermark : Nat)
    (answer : List ResponseKind) :
    Filled self (.readEnd watermark :: answer) (.ok ())
      { self with watermark := some watermark, done := true } answer := by
  refine .ok rfl ?_ ?_ rfl ?_ ?_
  · intro going
    cases going
  · simp [remaining, contents, empty]
  · simp [empty]
  · intro count ends _
    cases ends
    simp [CleanFor]

theorem Filled.refused {self : ReadStream} (empty : self.buffered = [])
    (fresh : self.watermark = none) (source : ErrorResponse) (answer : List ResponseKind) :
    Filled self (.error source :: answer) (.error (.failed (serverError source)))
      { self with done := true } answer := by
  refine .error rfl ?_ rfl fresh ?_
  · simp [contents, empty]
  · intro count ends _
    cases ends
    rfl

theorem fill_frames {self : ReadStream} (empty : self.buffered = []) (going : self.done = false)
    (fresh : self.watermark = none) (answer : List ResponseKind) :
    ∃ result after rest,
      self.fill (Client.frames self.requestId answer) =
          (result, after, Client.frames self.requestId rest) ∧
        Filled self answer result after rest := by
  have unexpected : ∀ kind answer,
      contents (kind :: answer) = [.error
        (.failed (.protocol (.unexpected "unexpected response during read" kind)))] →
      endsAt (kind :: answer) = none → ¬ Ends (kind :: answer) →
      Filled self (kind :: answer)
        (.error (.failed (.protocol (.unexpected "unexpected response during read" kind))))
        { self with done := true } answer := by
    intro kind answer contents_eq endsAt_eq not
    refine .error rfl ?_ endsAt_eq fresh (fun _ ends => absurd ends not)
    simp only [contents_eq, empty, List.map_nil]
  induction answer with
  | nil =>
      refine ⟨.error (.failed .unexpectedEof), self, [], rfl, .error rfl ?_ rfl fresh ?_⟩
      · simp only [contents, empty, List.map_nil]
      · intro _ _ _
        rfl
  | cons kind answer ih =>
      have mine : ¬ (self.requestId ≠ self.requestId ∧ self.requestId ≠ unattributed) :=
        fun differs => differs.1 rfl
      cases kind with
      | readEvents events =>
          rcases taken : takeEvents events with ⟨taken_events, _ | source⟩
          · rcases taken_events with _ | ⟨event, more⟩
            · obtain ⟨result, after, rest, filled, spec⟩ := ih
              refine ⟨result, after, rest, ?_, spec.behind_empty taken⟩
              have same : { self with buffered := self.buffered ++ [] } = self := by
                rw [List.append_nil]
              rw [← filled, Client.frames, List.map_cons, fill, if_neg mine]
              simp only [taken, same]
              rw [if_pos (by rw [empty]; rfl)]
              rfl
            · refine ⟨_, _, answer, ?_, .events going fresh taken (by simp) answer⟩
              simp [Client.frames, fill, taken, empty]
          · refine ⟨_, _, answer, ?_, .malformed fresh taken answer⟩
            simp [Client.frames, fill, taken, empty]
      | readEnd watermark =>
          refine ⟨_, _, answer, ?_, .readEnd empty watermark answer⟩
          simp [Client.frames, fill]
      | error source =>
          refine ⟨_, _, answer, ?_, .refused empty fresh source answer⟩
          simp [Client.frames, fill]
      | append first last =>
          refine ⟨_, _, answer, ?_, unexpected (.append first last) answer rfl rfl (by rintro ⟨⟩)⟩
          simp [Client.frames, fill]
      | caughtUp watermark =>
          refine ⟨_, _, answer, ?_, unexpected (.caughtUp watermark) answer rfl rfl (by rintro ⟨⟩)⟩
          simp [Client.frames, fill]
      | stats stats =>
          refine ⟨_, _, answer, ?_, unexpected (.stats stats) answer rfl rfl (by rintro ⟨⟩)⟩
          simp [Client.frames, fill]
      | helloAck =>
          refine ⟨_, _, answer, ?_, unexpected .helloAck answer rfl rfl (by rintro ⟨⟩)⟩
          simp [Client.frames, fill]
      | notSet =>
          refine ⟨_, _, answer, ?_, unexpected .notSet answer rfl rfl (by rintro ⟨⟩)⟩
          simp [Client.frames, fill]

/-- What an item of the stream is, and what it leaves. -/
structure Next (before : ReadStream) (answer : List ResponseKind)
    (item : Option (Except CallError SequencedEvent)) (after : ReadStream)
    (rest : List ResponseKind) : Prop where
  requestId_eq : after.requestId = before.requestId
  fresh : after.done = false → after.watermark = none
  head : item = (before.remaining answer).head?
  tail : after.remaining rest = (before.remaining answer).tail
  mark_eq : after.mark rest = before.mark answer
  kept : before.done = true → after.done = true
  ended : item = none → after.done = true
  stopped : before.done = false → after.done = true → item ≠ none → before.mark answer = none
  clean : ∀ count, before.CleanFor (count + 1) answer → after.CleanFor count rest

/-- Taking the front of the buffer is an item. -/
theorem next_popFront {before after : ReadStream} {answer rest : List ResponseKind}
    (going : before.done = false)
    (fresh : after.done = false → after.watermark = none)
    (requestId_eq : after.requestId = before.requestId)
    (remaining_eq : after.remaining rest = before.remaining answer)
    (mark_eq : after.mark rest = before.mark answer)
    (ended : after.buffered = [] ↔ after.done = true)
    (clean : ∀ count, before.CleanFor (count + 1) answer → after.CleanFor (count + 1) rest) :
    Next before answer (after.popFront.1.map .ok) after.popFront.2 rest := by
  refine ⟨requestId_eq, fresh, ?_, ?_, mark_eq, ?_, ?_, ?_, ?_⟩
  · rw [← remaining_eq]
    rcases h : after.buffered with _ | ⟨event, more⟩
    · simp [popFront, remaining, h, ended.1 h]
    · simp [popFront, remaining, h]
  · rw [← remaining_eq]
    rcases h : after.buffered with _ | ⟨event, more⟩
    · simp [popFront, remaining, h, ended.1 h]
    · simp [popFront, remaining, h]
  · intro done
    exact absurd (going.symm.trans done) (by decide)
  · intro none_left
    apply ended.1
    simpa [popFront] using none_left
  · intro _ done some_item
    have empty : after.buffered = [] := ended.2 done
    simp [popFront, empty] at some_item
  · intro count reads
    have reads := clean count reads
    by_cases done : after.done = true
    · simpa [CleanFor, popFront, done] using reads
    · rw [CleanFor, if_neg done] at reads
      rw [CleanFor, if_neg (by simpa [popFront] using done)]
      refine ⟨reads.1, ?_⟩
      rcases h : after.buffered with _ | ⟨event, more⟩
      · exact absurd (ended.1 h) done
      · simpa [popFront, h] using reads.2

theorem next_frames {self : ReadStream} (fresh : self.done = false → self.watermark = none)
    (answer : List ResponseKind) :
    ∃ item after rest,
      self.next (Client.frames self.requestId answer) =
          (item, after, Client.frames self.requestId rest) ∧
        Next self answer item after rest := by
  rcases buffered : self.buffered with _ | ⟨event, more⟩
  · by_cases done : self.done = true
    · refine ⟨none, self, answer, by simp [next, buffered, done], rfl, fresh, ?_, ?_, rfl,
        id, fun _ => done, ?_, ?_⟩
      · simp [remaining, buffered, done]
      · simp [remaining, buffered, done]
      · intro going
        exact absurd done (by simp [going])
      · intro count reads
        rw [CleanFor, if_pos done] at reads ⊢
        exact reads
    · have going : self.done = false := by simpa using done
      obtain ⟨result, after, rest, filled, spec⟩ :=
        fill_frames buffered going (fresh going) answer
      have remaining_eq : self.remaining answer = contents answer := by
        simp [remaining, buffered, going]
      have mark_eq : self.mark answer = endsAt answer := by
        simp [mark, going]
      have clean_of : ∀ count, self.CleanFor count answer → Ends answer ∧ Clean count answer := by
        intro count reads
        rw [CleanFor, if_neg done, buffered] at reads
        exact reads
      cases spec with
      | ok requestId_eq after_fresh contents_eq end_eq ended clean =>
          refine ⟨after.popFront.1.map .ok, after.popFront.2, rest, ?_, ?_⟩
          · simp [next, buffered, going, filled]
          · refine next_popFront going after_fresh requestId_eq
              (contents_eq.trans remaining_eq.symm) (end_eq.trans mark_eq.symm) ended ?_
            intro count reads
            obtain ⟨ends, reads⟩ := clean_of _ reads
            exact clean count ends reads
      | @error error _ _ requestId_eq contents_eq none_eq watermark_eq clean =>
          refine ⟨some (.error error), { after with done := true }, rest, ?_, ?_⟩
          · simp [next, buffered, going, filled]
          · refine ⟨requestId_eq, fun _ => watermark_eq, ?_, ?_, ?_, fun _ => rfl, fun _ => rfl,
              ?_, ?_⟩
            · rw [remaining_eq, contents_eq]
              rfl
            · rw [remaining_eq, contents_eq]
              simp [remaining]
            · rw [mark_eq, none_eq]
              simpa [mark] using watermark_eq
            · intro _ _ _
              exact mark_eq.trans none_eq
            · intro count reads
              obtain ⟨ends, reads⟩ := clean_of _ reads
              exact clean count ends reads
  · refine ⟨some (.ok event), { self with buffered := more }, answer, ?_, ?_⟩
    · simp [next, buffered]
    · refine ⟨rfl, fresh, ?_, ?_, rfl, id, ?_, ?_, ?_⟩
      · simp [remaining, buffered]
      · simp [remaining, buffered]
      · intro none_left
        cases none_left
      · intro going done
        exact absurd (going.symm.trans done) (by decide)
      · intro count reads
        by_cases done : self.done = true
        · simpa [CleanFor, done] using reads
        · simpa [CleanFor, done, buffered] using reads

/-- What taking a number of items leaves. -/
structure Taken (before : ReadStream) (answer : List ResponseKind) (count : Nat)
    (after : ReadStream) (rest : List ResponseKind) : Prop where
  requestId_eq : after.requestId = before.requestId
  fresh : after.done = false → after.watermark = none
  mark_eq : after.mark rest = before.mark answer
  kept : before.done = true → after.done = true
  ended : (before.remaining answer).length < count → after.done = true
  stopped : before.done = false → after.done = true →
    count ≤ (before.remaining answer).length → before.mark answer = none
  clean : before.CleanFor count answer → after.CleanFor 0 rest

theorem nexts_frames {self : ReadStream} (fresh : self.done = false → self.watermark = none)
    (answer : List ResponseKind) (count : Nat) :
    ∃ after rest,
      self.nexts (Client.frames self.requestId answer) count =
          (takeItems (self.remaining answer) count, after,
            Client.frames self.requestId rest) ∧
        Taken self answer count after rest := by
  induction count generalizing self answer with
  | zero =>
      refine ⟨self, answer, rfl, rfl, fresh, rfl, id, ?_, ?_, id⟩
      · intro less
        cases less
      · intro going done
        exact absurd (going.symm.trans done) (by decide)
  | succ count ih =>
      obtain ⟨item, after, rest, next_eq, spec⟩ := next_frames fresh answer
      obtain ⟨last, left, nexts_eq, taken⟩ := ih spec.fresh rest
      rw [spec.requestId_eq, spec.tail] at nexts_eq
      refine ⟨last, left, ?_, ?_⟩
      · rw [nexts, next_eq]
        dsimp only
        rw [nexts_eq, takeItems, spec.head]
      · have length_eq := congrArg List.length spec.tail
        rw [List.length_tail] at length_eq
        refine ⟨taken.requestId_eq.trans spec.requestId_eq, taken.fresh,
          taken.mark_eq.trans spec.mark_eq, taken.kept ∘ spec.kept, ?_, ?_, ?_⟩
        · intro less
          by_cases none_left : self.remaining answer = []
          · apply taken.kept
            apply spec.ended
            rw [spec.head, none_left]
            rfl
          · have positive := List.length_pos_iff.2 none_left
            exact taken.ended (by omega)
        · intro going done enough
          by_cases stopped : after.done = true
          · apply spec.stopped going stopped
            rw [spec.head]
            intro none_left
            rw [List.head?_eq_none_iff.1 none_left] at enough
            cases enough
          · rw [← spec.mark_eq]
            exact taken.stopped (by simpa using stopped) done (by omega)
        · exact fun clean => taken.clean (spec.clean count clean)

/-- The watermark of a stream that has given a number of the items of a read. -/
theorem Taken.watermark_eq {id : Nat} {answer : List ResponseKind} {count : Nat}
    {after : ReadStream} {rest : List ResponseKind}
    (taken : Taken (new id) answer count after rest) :
    after.watermark = if (contents answer).length < count then endsAt answer else none := by
  have mark_eq : after.mark rest = endsAt answer := taken.mark_eq
  by_cases less : (contents answer).length < count
  · have done : after.done = true := taken.ended less
    rw [if_pos less, ← mark_eq, mark, if_pos done]
  · rw [if_neg less]
    by_cases done : after.done = true
    · have none_eq : endsAt answer = none := taken.stopped rfl done (Nat.le_of_not_lt less)
      rw [← none_eq, ← mark_eq, mark, if_pos done]
    · exact taken.fresh (by simpa using done)

theorem drain_frames (id : Nat) {answer : List ResponseKind} (ends : Ends answer) :
    drain (Client.frames id answer) = [] := by
  induction ends with
  | readEnd watermark => rfl
  | error source => rfl
  | readEvents events _ ih => exact ih

/-- The dropped stream leaves no frame of its read. -/
theorem drop_frames {self : ReadStream} (id : Nat) {answer : List ResponseKind}
    (clean : self.CleanFor 0 answer) : self.drop (Client.frames id answer) = [] := by
  rw [CleanFor] at clean
  by_cases done : self.done = true
  · rw [if_pos done] at clean
    rw [drop, if_pos done, clean]
    rfl
  · rw [if_neg done] at clean
    rw [drop, if_neg done]
    exact drain_frames id clean.1

theorem drainRead_frames {self : ReadStream} (fresh : self.done = false → self.watermark = none)
    (answer : List ResponseKind) (events : List SequencedEvent) {fuel : Nat}
    (enough : (self.remaining answer).length < fuel) :
    ∃ after rest,
      self.drainRead (Client.frames self.requestId answer) events fuel =
          some ((all (self.remaining answer) (self.mark answer)).map
            fun result => (events ++ result.1, result.2),
            after, Client.frames self.requestId rest) ∧
        ((∀ count, self.CleanFor count answer) → after.CleanFor 0 rest) := by
  induction fuel generalizing self answer events with
  | zero => cases enough
  | succ fuel ih =>
      obtain ⟨item, after, rest, next_eq, spec⟩ := next_frames fresh answer
      have head := spec.head
      have tail := spec.tail
      rcases left : self.remaining answer with _ | ⟨error | event, more⟩ <;>
        rw [left] at head tail enough <;> subst head
      · have done : after.done = true := spec.ended rfl
        have mark_eq : after.watermark = self.mark answer := by
          rw [← spec.mark_eq, mark, if_pos done]
        refine ⟨after, rest, ?_, fun clean => spec.clean 0 (clean 1)⟩
        rw [drainRead, next_eq]
        simp only [List.head?_nil]
        rw [mark_eq]
        rcases self.mark answer with _ | watermark
        · rfl
        · simp [all, collect, Except.map]
      · refine ⟨after, rest, ?_, fun clean => spec.clean 0 (clean 1)⟩
        rw [drainRead, next_eq]
        rfl
      · have fewer : (after.remaining rest).length < fuel := by
          rw [tail]
          exact Nat.lt_of_succ_lt_succ enough
        obtain ⟨last, unread, drained, clean⟩ := ih spec.fresh rest (events ++ [event]) fewer
        refine ⟨last, unread, ?_, fun reads => clean fun count => spec.clean count (reads _)⟩
        rw [drainRead, next_eq]
        simp only [List.head?_cons]
        rw [← spec.requestId_eq, drained, tail, spec.mark_eq]
        rcases collected : collect more with error | rest_events
        · simp [all, collect, collected, Except.map]
        · rcases self.mark answer with _ | watermark
          · simp [all, collect, collected, Except.map]
          · simp [all, collect, collected, Except.map]

/-- There are at most as many items as events and one error. -/
theorem takeEvents_length (views : List Pb.SequencedEvent) :
    (takeEvents views).1.length + (takeEvents views).2.toList.length ≤ views.length := by
  induction views with
  | nil => simp [takeEvents]
  | cons view views ih =>
      cases parsed : sequencedFromPb view with
      | error source => simp [takeEvents, parsed]
      | ok event =>
          simp only [takeEvents, parsed, List.length_cons]
          omega

theorem length_contents_le (id : Nat) (answer : List ResponseKind) :
    (contents answer).length ≤ Client.eventsIn (Client.frames id answer) + 1 := by
  induction answer with
  | nil => simp [contents]
  | cons kind answer ih =>
      cases kind with
      | readEvents events =>
          have few := takeEvents_length events
          have split : Client.eventsIn (Client.frames id (.readEvents events :: answer)) =
              events.length + Client.eventsIn (Client.frames id answer) := rfl
          rw [split]
          rcases taken : takeEvents events with ⟨taken_events, _ | source⟩
          · rw [taken] at few
            simp [contents, taken] at few ⊢
            omega
          · rw [taken] at few
            simp [contents, taken] at few ⊢
            omega
      | _ => simp [contents]

/-- A frame of another request. -/
def Foreign (id : Nat) (response : Response) : Prop :=
  response.requestId ≠ id ∧ response.requestId ≠ unattributed

theorem next_foreign {id : Nat} {response : Response} (foreign : Foreign id response)
    (socket : List Response) :
    (new id).next (response :: socket) =
      (some (.error (.mismatched response.requestId id)),
        { new id with done := true }, socket) := by
  have filled : (new id).fill (response :: socket) =
      (.error (.mismatched response.requestId id), { new id with done := true }, socket) := by
    rw [fill]
    exact if_pos foreign
  have empty : (new id).buffered = [] := rfl
  have going : (new id).done = false := rfl
  simp [next, empty, going, filled]

theorem nexts_ended {self : ReadStream} (empty : self.buffered = []) (done : self.done = true)
    (socket : List Response) (count : Nat) :
    self.nexts socket count = (List.replicate count none, self, socket) := by
  induction count with
  | zero => rfl
  | succ count ih =>
      have next_eq : self.next socket = (none, self, socket) := by
        rw [next, empty]
        exact if_pos done
      rw [nexts, next_eq]
      dsimp only
      rw [ih, List.replicate_succ]

theorem drain_suffix (socket : List Response) : drain socket <:+ socket := by
  induction socket with
  | nil => exact List.suffix_rfl
  | cons response socket ih =>
      cases kind : response.kind with
      | readEnd watermark =>
          rw [drain, kind]
          exact List.suffix_cons response socket
      | error source =>
          rw [drain, kind]
          exact List.suffix_cons response socket
      | _ =>
          rw [drain, kind]
          exact ih.trans (List.suffix_cons response socket)

theorem drop_suffix (self : ReadStream) (socket : List Response) : self.drop socket <:+ socket := by
  rw [drop]
  split
  · exact List.suffix_rfl
  · exact drain_suffix socket

end ReadStream

end Tephra.Blocking
