import Tephra.BlockingClient

/-!
# Runs of the blocking client

An operation that finds an empty socket reads its own answer and nothing else.  One that
finds frames of an earlier request fails at the first of them.  A read that comes to a
malformed event leaves the rest of its frames in the socket.
-/

namespace Tephra.Blocking

open Tephra.Server Tephra.Client

/-- The events of an answer's batches, each up to a malformed event. -/
def eventsOf (answer : List ResponseKind) : List SequencedEvent :=
  answer.flatMap fun kind =>
    match kind with
    | .readEvents events => (ReadStream.takeEvents events).1
    | _ => []

/-- The events among the items of a stream. -/
def eventsAmong (items : List (Option (Except CallError SequencedEvent))) : List SequencedEvent :=
  items.filterMap fun item =>
    match item with
    | some (.ok event) => some event
    | _ => none

namespace Op

/-- The answer is one that the server gives: one response, or the frames of a read. -/
def Conforms : Op → Prop
  | append answer => ∀ kinds, answer = some kinds →
      (∃ first last, kinds = [.append first last]) ∨ ∃ source, kinds = [.error source]
  | stats answer => ∀ kinds, answer = some kinds →
      (∃ stats, kinds = [.stats stats]) ∨ ∃ source, kinds = [.error source]
  | read answer _ => ∀ kinds, answer = some kinds → Ends kinds
  | readAll answer => ∀ kinds, answer = some kinds → Ends kinds

/-- The operation comes to no malformed event. -/
def Clean : Op → Prop
  | append _ => True
  | stats _ => True
  | read answer count => ∀ kinds, answer = some kinds → ReadStream.Clean count kinds
  | readAll answer => ∀ kinds, answer = some kinds →
      ∀ events, .readEvents events ∈ kinds → (ReadStream.takeEvents events).2 = none

/-- The outcome is data of the operation's own answer, or an error. -/
def Own : Op → Outcome → Prop
  | append answer, .value (.ok value) =>
      ∃ first last, answer = some [.append first last] ∧ value = .appended first last
  | append _, .value (.error _) => True
  | stats answer, .value (.ok value) =>
      ∃ stats, answer = some [.stats stats] ∧ value = .stats (statsFromPb stats)
  | stats _, .value (.error _) => True
  | read answer _, .stream items watermark =>
      eventsAmong items <+: eventsOf (answer.getD []) ∧
        ∀ last, watermark = some last → .readEnd last ∈ answer.getD []
  | readAll answer, .all (.ok result) =>
      ∃ kinds, answer = some kinds ∧ result.1 = eventsOf kinds ∧ .readEnd result.2 ∈ kinds
  | readAll _, .all (.error _) => True
  | _, _ => False

/-- What the operation's own answer says. -/
def answered : Op → Outcome
  | append none => .value (.error .unsent)
  | append (some kinds) => .value (kinds.head?.elim (.error (.failed .unexpectedEof)) appendOutcome)
  | stats none => .value (.error .unsent)
  | stats (some kinds) => .value (kinds.head?.elim (.error (.failed .unexpectedEof)) statsOutcome)
  | read none _ => .stream [some (.error .unsent)] none
  | read (some kinds) count =>
      .stream (ReadStream.takeItems (ReadStream.contents kinds) count)
        (if (ReadStream.contents kinds).length < count then ReadStream.endsAt kinds else none)
  | readAll none => .all (.error .unsent)
  | readAll (some kinds) =>
      .all (ReadStream.all (ReadStream.contents kinds) (ReadStream.endsAt kinds))

end Op

namespace Client

/-- What is unread answers an earlier request. -/
structure Valid (client : Client) : Prop where
  id_pos : unattributed < client.nextId
  earlier : ∀ response ∈ client.socket,
    unattributed < response.requestId ∧ response.requestId < client.nextId

/-- A frame behind an operation was there before it, or answers the operation. -/
def Left (self after : Client) : Prop :=
  ∀ response ∈ after.socket, response ∈ self.socket ∨ response.requestId = self.nextId

theorem requestId_of_frames {id : Nat} {answer : List ResponseKind} {response : Response}
    (held : response ∈ frames id answer) : response.requestId = id := by
  obtain ⟨kind, _, rfl⟩ := List.mem_map.1 held
  rfl

/-- The frames behind a stream's own are of the same request. -/
theorem left_drop (self : Client) (stream : ReadStream) (answer : List ResponseKind) :
    self.Left ⟨self.nextId + 1, stream.drop (frames self.nextId answer)⟩ := by
  intro response held
  exact .inr (requestId_of_frames ((ReadStream.drop_suffix stream _).subset held))

theorem call_own (outcome : ResponseKind → Except CallError Value) {self : Client}
    (idle : self.socket = []) (kind : ResponseKind) :
    call outcome self.nextId (self.socket ++ frames self.nextId [kind]) = (outcome kind, []) := by
  rw [idle]
  simp [call, recv, frames, checkResponseId]

theorem read_aligned {self : Client} (idle : self.socket = []) (kinds : List ResponseKind)
    (count : Nat) :
    (self.step (.read (some kinds) count)).1 = Op.answered (.read (some kinds) count) ∧
      self.Left (self.step (.read (some kinds) count)).2 ∧
      (Ends kinds → ReadStream.Clean count kinds →
        (self.step (.read (some kinds) count)).2.socket = []) := by
  obtain ⟨after, rest, nexts_eq, taken⟩ :=
    ReadStream.nexts_frames (fun _ => rfl : (ReadStream.new self.nextId).done = false → _)
      kinds count
  have step_eq : self.step (.read (some kinds) count) =
      (.stream (ReadStream.takeItems (ReadStream.contents kinds) count) after.watermark,
        ⟨self.nextId + 1, after.drop (frames self.nextId rest)⟩) := by
    rw [step, idle, List.nil_append]
    have nexts_eq : (ReadStream.new self.nextId).nexts (frames self.nextId kinds) count =
        (ReadStream.takeItems (ReadStream.contents kinds) count, after,
          frames self.nextId rest) := nexts_eq
    rw [nexts_eq]
  refine ⟨?_, ?_, ?_⟩
  · rw [step_eq, taken.watermark_eq]
    rfl
  · rw [step_eq]
    exact self.left_drop after rest
  · intro ends clean
    rw [step_eq]
    exact ReadStream.drop_frames self.nextId (taken.clean ⟨ends, clean⟩)

/-- A read without malformed events is clean whatever number of items it takes. -/
theorem clean_of_all {kinds : List ResponseKind}
    (clean : ∀ events, .readEvents events ∈ kinds → (ReadStream.takeEvents events).2 = none)
    (count : Nat) : ReadStream.Clean count kinds := by
  induction kinds generalizing count with
  | nil => simp [ReadStream.Clean]
  | cons kind kinds ih =>
      have rest := ih fun events held => clean events (List.mem_cons_of_mem kind held)
      cases count with
      | zero => simp [ReadStream.Clean]
      | succ count =>
          cases kind with
          | readEvents events => exact ⟨clean events List.mem_cons_self, rest _⟩
          | _ => simp [ReadStream.Clean]

theorem readAll_aligned {self : Client} (idle : self.socket = []) (kinds : List ResponseKind) :
    (self.step (.readAll (some kinds))).1 = Op.answered (.readAll (some kinds)) ∧
      self.Left (self.step (.readAll (some kinds))).2 ∧
      (Ends kinds → (∀ count, ReadStream.Clean count kinds) →
        (self.step (.readAll (some kinds))).2.socket = []) := by
  have enough := ReadStream.length_contents_le self.nextId kinds
  obtain ⟨after, rest, drained, clean⟩ :=
    @ReadStream.drainRead_frames (ReadStream.new self.nextId) (fun _ => rfl) kinds []
      (eventsIn (frames self.nextId kinds) + 2) (Nat.lt_succ_of_le enough)
  have step_eq : self.step (.readAll (some kinds)) =
      (.all (ReadStream.all (ReadStream.contents kinds) (ReadStream.endsAt kinds)),
        ⟨self.nextId + 1, after.drop (frames self.nextId rest)⟩) := by
    have drained : (ReadStream.new self.nextId).drainRead (frames self.nextId kinds) []
        (eventsIn (frames self.nextId kinds) + 2) =
          some (ReadStream.all (ReadStream.contents kinds) (ReadStream.endsAt kinds), after,
            frames self.nextId rest) := by
      have unchanged :
          (fun result : List SequencedEvent × Nat => ([] ++ result.1, result.2)) = id := rfl
      rw [unchanged, Except.map_id] at drained
      exact drained
    rw [step, idle, List.nil_append, drained]
  refine ⟨?_, ?_, ?_⟩
  · rw [step_eq]
    rfl
  · rw [step_eq]
    exact self.left_drop after rest
  · intro ends reads
    rw [step_eq]
    exact ReadStream.drop_frames self.nextId (clean fun count => ⟨ends, reads count⟩)

theorem step_aligned {self : Client} (idle : self.socket = []) {op : Op} (conforms : op.Conforms) :
    (self.step op).1 = op.answered ∧ self.Left (self.step op).2 ∧
      (op.Clean → (self.step op).2.socket = []) := by
  have nothing : ∀ id, self.Left ⟨id, []⟩ := by
    intro id response held
    cases held
  have unsent : ∀ id, self.Left ⟨id, self.socket⟩ := fun _ _ held => .inl held
  cases op with
  | append answer =>
      cases answer with
      | none => exact ⟨rfl, unsent _, fun _ => idle⟩
      | some kinds =>
          rcases conforms kinds rfl with ⟨first, last, rfl⟩ | ⟨source, rfl⟩
          · rw [step, call_own appendOutcome idle]
            exact ⟨rfl, nothing _, fun _ => rfl⟩
          · rw [step, call_own appendOutcome idle]
            exact ⟨rfl, nothing _, fun _ => rfl⟩
  | stats answer =>
      cases answer with
      | none => exact ⟨rfl, unsent _, fun _ => idle⟩
      | some kinds =>
          rcases conforms kinds rfl with ⟨stats, rfl⟩ | ⟨source, rfl⟩
          · rw [step, call_own statsOutcome idle]
            exact ⟨rfl, nothing _, fun _ => rfl⟩
          · rw [step, call_own statsOutcome idle]
            exact ⟨rfl, nothing _, fun _ => rfl⟩
  | read answer count =>
      cases answer with
      | none => exact ⟨rfl, unsent _, fun _ => idle⟩
      | some kinds =>
          obtain ⟨answered, left, rest⟩ := read_aligned idle kinds count
          exact ⟨answered, left, fun clean => rest (conforms kinds rfl) (clean kinds rfl)⟩
  | readAll answer =>
      cases answer with
      | none => exact ⟨rfl, unsent _, fun _ => idle⟩
      | some kinds =>
          obtain ⟨answered, left, rest⟩ := readAll_aligned idle kinds
          exact ⟨answered, left, fun clean =>
            rest (conforms kinds rfl) fun count => clean_of_all (clean kinds rfl) count⟩

end Client

namespace ReadStream

theorem endsAt_mem {answer : List ResponseKind} {watermark : Nat}
    (ends : endsAt answer = some watermark) : .readEnd watermark ∈ answer := by
  induction answer with
  | nil => cases ends
  | cons kind answer ih =>
      cases kind with
      | readEvents events =>
          rw [endsAt] at ends
          split at ends
          · cases ends
          · exact List.mem_cons_of_mem _ (ih ends)
      | readEnd last =>
          cases ends
          exact List.mem_cons_self
      | _ => cases ends

/-- The events among the items of a read. -/
def okEvents (items : List (Except CallError SequencedEvent)) : List SequencedEvent :=
  items.filterMap Except.toOption

theorem okEvents_append_ok (events : List SequencedEvent)
    (items : List (Except CallError SequencedEvent)) :
    okEvents (events.map .ok ++ items) = events ++ okEvents items := by
  induction events with
  | nil => rfl
  | cons event events ih => exact congrArg (event :: ·) ih

theorem eventsAmong_takeItems (items : List (Except CallError SequencedEvent)) (count : Nat) :
    eventsAmong (takeItems items count) <+: okEvents items := by
  induction count generalizing items with
  | zero => exact List.nil_prefix
  | succ count ih =>
      rcases items with _ | ⟨error | event, items⟩
      · exact ih []
      · exact ih items
      · exact List.prefix_cons_inj event |>.2 (ih items)

theorem contents_batch {events : List Pb.SequencedEvent} {taken : List SequencedEvent}
    (parsed : takeEvents events = (taken, none)) (answer : List ResponseKind) :
    contents (.readEvents events :: answer) = taken.map .ok ++ contents answer := by
  simp [contents, parsed]

theorem contents_malformed {events : List Pb.SequencedEvent} {taken : List SequencedEvent}
    {source : EventError} (parsed : takeEvents events = (taken, some source))
    (answer : List ResponseKind) :
    contents (.readEvents events :: answer) =
      .error (.failed (.protocol (.malformed source))) :: taken.map .ok := by
  simp [contents, parsed]

theorem okEvents_contents (answer : List ResponseKind) :
    okEvents (contents answer) <+: eventsOf answer := by
  induction answer with
  | nil => exact List.nil_prefix
  | cons kind answer ih =>
      cases kind with
      | readEvents events =>
          have split : eventsOf (.readEvents events :: answer) =
              (takeEvents events).1 ++ eventsOf answer := rfl
          rw [split]
          rcases taken : takeEvents events with ⟨taken_events, _ | source⟩
          · rw [contents_batch taken, okEvents_append_ok]
            exact List.prefix_append_right_inj taken_events |>.2 ih
          · have events_eq := okEvents_append_ok taken_events []
            rw [List.append_nil] at events_eq
            rw [contents_malformed taken]
            refine events_eq.symm ▸ ?_
            exact List.prefix_append_right_inj taken_events |>.2 List.nil_prefix
      | _ => exact List.nil_prefix

theorem of_all {items : List (Except CallError SequencedEvent)} {mark : Option Nat}
    {result : List SequencedEvent × Nat} (all_eq : all items mark = .ok result) :
    collect items = .ok result.1 ∧ mark = some result.2 := by
  unfold all at all_eq
  split at all_eq
  · cases all_eq
    exact ⟨by assumption, rfl⟩
  · cases all_eq
  · cases all_eq

theorem collect_append (events : List SequencedEvent)
    (items : List (Except CallError SequencedEvent)) :
    collect (events.map .ok ++ items) = (collect items).map (events ++ ·) := by
  induction events with
  | nil => exact (congrFun Except.map_id (collect items)).symm
  | cons event events ih =>
      rw [List.map_cons, List.cons_append, collect, ih]
      cases collect items with
      | error error => rfl
      | ok rest => rfl

theorem collect_contents {answer : List ResponseKind} (ends : Ends answer)
    {events : List SequencedEvent} (collected : collect (contents answer) = .ok events) :
    events = eventsOf answer := by
  induction ends generalizing events with
  | readEnd watermark =>
      cases collected
      rfl
  | error source => cases collected
  | @readEvents views answer _ ih =>
      have split : eventsOf (.readEvents views :: answer) =
          (takeEvents views).1 ++ eventsOf answer := rfl
      rw [split]
      rcases taken : takeEvents views with ⟨taken_events, _ | source⟩
      · rw [contents_batch taken, collect_append] at collected
        cases rest : collect (contents answer) with
        | error error =>
            rw [rest] at collected
            cases collected
        | ok more =>
            rw [rest] at collected
            cases collected
            rw [ih rest]
      · rw [contents_malformed taken] at collected
        cases collected

end ReadStream

theorem Op.own_answered {op : Op} (conforms : op.Conforms) : op.Own op.answered := by
  cases op with
  | append answer =>
      cases answer with
      | none => exact trivial
      | some kinds =>
          rcases conforms kinds rfl with ⟨first, last, rfl⟩ | ⟨source, rfl⟩
          · exact ⟨first, last, rfl, rfl⟩
          · exact trivial
  | stats answer =>
      cases answer with
      | none => exact trivial
      | some kinds =>
          rcases conforms kinds rfl with ⟨stats, rfl⟩ | ⟨source, rfl⟩
          · exact ⟨stats, rfl, rfl⟩
          · exact trivial
  | read answer count =>
      cases answer with
      | none =>
          refine ⟨List.nil_prefix, ?_⟩
          intro _ none_eq
          cases none_eq
      | some kinds =>
          constructor
          · exact (ReadStream.eventsAmong_takeItems _ count).trans
              (ReadStream.okEvents_contents kinds)
          · intro last ends
            by_cases less : (ReadStream.contents kinds).length < count
            · rw [if_pos less] at ends
              exact ReadStream.endsAt_mem ends
            · rw [if_neg less] at ends
              cases ends
  | readAll answer =>
      cases answer with
      | none => exact trivial
      | some kinds =>
          rw [answered]
          cases result : ReadStream.all (ReadStream.contents kinds) (ReadStream.endsAt kinds) with
          | error error => exact trivial
          | ok events =>
              obtain ⟨collected, ends⟩ := ReadStream.of_all result
              exact ⟨kinds, rfl, ReadStream.collect_contents (conforms kinds rfl) collected,
                ReadStream.endsAt_mem ends⟩

namespace Client

/-- What a stream's own frames and older ones leave is one of them. -/
theorem left_suffix {self : Client} {socket : List Response} {kinds : List ResponseKind}
    (suffix : socket <:+ self.socket ++ frames self.nextId kinds) (id : Nat) :
    self.Left ⟨id, socket⟩ := by
  intro response held
  rcases List.mem_append.1 (suffix.subset held) with old | own
  · exact .inl old
  · exact .inr (requestId_of_frames own)

theorem call_foreign {self : Client} {response : Response} {stale : List Response}
    (socket : self.socket = response :: stale)
    (foreign : ReadStream.Foreign self.nextId response)
    (outcome : ResponseKind → Except CallError Value) (kinds : List ResponseKind) :
    call outcome self.nextId (self.socket ++ frames self.nextId kinds) =
      (.error (.mismatched response.requestId self.nextId),
        stale ++ frames self.nextId kinds) := by
  have fails : checkResponseId response self.nextId =
      .error (.mismatched response.requestId self.nextId) := if_pos foreign
  rw [socket, List.cons_append, call, recv]
  simp only [fails]

/-- Nothing of a foreign frame goes into the outcome. -/
theorem step_foreign {self : Client} {response : Response} {stale : List Response}
    (socket : self.socket = response :: stale)
    (foreign : ReadStream.Foreign self.nextId response) (op : Op) :
    op.Own (self.step op).1 ∧ self.Left (self.step op).2 := by
  have behind : ∀ kinds, self.Left ⟨self.nextId + 1, stale ++ frames self.nextId kinds⟩ := by
    intro kinds
    have suffix : stale ++ frames self.nextId kinds <:+
        self.socket ++ frames self.nextId kinds := by
      rw [socket]
      exact List.suffix_cons response _
    exact left_suffix suffix _
  have unsent : self.Left ⟨self.nextId + 1, self.socket⟩ := fun _ held => .inl held
  cases op with
  | append answer =>
      cases answer with
      | none => exact ⟨trivial, unsent⟩
      | some kinds =>
          rw [step, call_foreign socket foreign]
          exact ⟨trivial, behind kinds⟩
  | stats answer =>
      cases answer with
      | none => exact ⟨trivial, unsent⟩
      | some kinds =>
          rw [step, call_foreign socket foreign]
          exact ⟨trivial, behind kinds⟩
  | read answer count =>
      have nothing : ∀ answer : Option (List ResponseKind), ∀ last,
          (none : Option Nat) = some last → ResponseKind.readEnd last ∈ answer.getD [] := by
        intro _ last none_eq
        cases none_eq
      cases answer with
      | none => exact ⟨⟨List.nil_prefix, nothing none⟩, unsent⟩
      | some kinds =>
          cases count with
          | zero =>
              refine ⟨⟨List.nil_prefix, nothing (some kinds)⟩, ?_⟩
              exact left_suffix (ReadStream.drop_suffix _ _) _
          | succ count =>
              have step_eq : self.step (.read (some kinds) (count + 1)) =
                  (.stream (some (.error (.mismatched response.requestId self.nextId)) ::
                    List.replicate count none) none,
                    ⟨self.nextId + 1, stale ++ frames self.nextId kinds⟩) := by
                rw [step, socket, List.cons_append, ReadStream.nexts,
                  ReadStream.next_foreign foreign]
                simp only [ReadStream.nexts_ended, ReadStream.new, ReadStream.drop, if_true]
              have no_events : eventsAmong
                  (some (.error (.mismatched response.requestId self.nextId)) ::
                    List.replicate count none) = [] := by
                simp [eventsAmong]
              rw [step_eq]
              refine ⟨⟨?_, nothing (some kinds)⟩, behind kinds⟩
              rw [no_events]
              exact List.nil_prefix
  | readAll answer =>
      cases answer with
      | none => exact ⟨trivial, unsent⟩
      | some kinds =>
          have step_eq : self.step (.readAll (some kinds)) =
              (.all (.error (.mismatched response.requestId self.nextId)),
                ⟨self.nextId + 1, stale ++ frames self.nextId kinds⟩) := by
            rw [step, socket, List.cons_append, ReadStream.drainRead,
              ReadStream.next_foreign foreign]
            simp only [ReadStream.drop, if_true]
          rw [step_eq]
          exact ⟨trivial, behind kinds⟩

theorem step_nextId (self : Client) (op : Op) : (self.step op).2.nextId = self.nextId + 1 := by
  cases op with
  | append answer => cases answer <;> rfl
  | stats answer => cases answer <;> rfl
  | read answer count => cases answer <;> rfl
  | readAll answer =>
      cases answer with
      | none => rfl
      | some kinds =>
          rw [step]
          split <;> rfl

theorem step_own {self : Client} (valid : self.Valid) {op : Op} (conforms : op.Conforms) :
    op.Own (self.step op).1 ∧ (self.step op).2.Valid := by
  have spec : op.Own (self.step op).1 ∧ self.Left (self.step op).2 := by
    rcases socket : self.socket with _ | ⟨response, stale⟩
    · obtain ⟨answered, left, _⟩ := step_aligned socket conforms
      rw [answered]
      exact ⟨op.own_answered conforms, left⟩
    · have earlier := valid.earlier response (by rw [socket]; exact List.mem_cons_self)
      exact step_foreign socket ⟨Nat.ne_of_lt earlier.2, Nat.ne_of_gt earlier.1⟩ op
  refine ⟨spec.1, ?_, ?_⟩
  · rw [step_nextId]
    exact Nat.lt_succ_of_lt valid.id_pos
  · intro response held
    rw [step_nextId]
    rcases spec.2 response held with old | own
    · have earlier := valid.earlier response old
      exact ⟨earlier.1, Nat.lt_succ_of_lt earlier.2⟩
    · rw [own]
      exact ⟨valid.id_pos, Nat.lt_succ_self _⟩

theorem run_own {self : Client} (valid : self.Valid) {ops : List Op}
    (conforms : ∀ op ∈ ops, op.Conforms) :
    ∀ done ∈ self.run ops, done.op.Own done.outcome := by
  induction ops generalizing self with
  | nil =>
      intro done held
      cases held
  | cons op ops ih =>
      obtain ⟨own, next⟩ := step_own valid (conforms op List.mem_cons_self)
      intro done held
      rcases List.mem_cons.1 held with rfl | later
      · exact own
      · exact ih next (fun op held => conforms op (List.mem_cons_of_mem _ held)) done later

theorem run_answered {self : Client} (idle : self.socket = []) {ops : List Op}
    (conforms : ∀ op ∈ ops, op.Conforms) (clean : ∀ op ∈ ops, op.Clean) :
    ∀ done ∈ self.run ops, done.outcome = done.op.answered := by
  induction ops generalizing self with
  | nil =>
      intro done held
      cases held
  | cons op ops ih =>
      obtain ⟨answered, _, left⟩ := step_aligned idle (conforms op List.mem_cons_self)
      have next := left (clean op List.mem_cons_self)
      intro done held
      rcases List.mem_cons.1 held with rfl | later
      · exact answered
      · exact ih next (fun op held => conforms op (List.mem_cons_of_mem _ held))
          (fun op held => clean op (List.mem_cons_of_mem _ held)) done later

/-- The client behind its handshake. -/
def connected : Client := ⟨2, []⟩

theorem connected_valid : connected.Valid := by
  refine ⟨by decide, ?_⟩
  intro response held
  cases held

end Client

/-- The stream was dropped before its end, and had given no error. -/
def Outcome.DroppedEarly : Outcome → Prop
  | .stream items watermark => watermark = none ∧ ∀ item ∈ items, ∃ event, item = some (.ok event)
  | _ => False

/-- No operation has data of another, and the one behind a stream that was dropped before its
end has the data of its own answer. -/
def Unmixed (steps : List Client.Step) : Prop :=
  (∀ done ∈ steps, done.op.Own done.outcome) ∧
    ∀ earlier later front back, steps = front ++ earlier :: later :: back →
      earlier.outcome.DroppedEarly → later.outcome = later.op.answered

/-- Every operation has data of its own answer or an error.  While no read comes to a malformed
event, every operation has what its own answer says. -/
theorem run_unmixed (ops : List Op) (conforms : ∀ op ∈ ops, op.Conforms) :
    (∀ done ∈ Client.connected.run ops, done.op.Own done.outcome) ∧
      ((∀ op ∈ ops, op.Clean) →
        Unmixed (Client.connected.run ops) ∧
          ∀ done ∈ Client.connected.run ops, done.outcome = done.op.answered) := by
  have own := Client.run_own Client.connected_valid conforms
  refine ⟨own, ?_⟩
  intro clean
  have answered : ∀ done ∈ Client.connected.run ops, done.outcome = done.op.answered :=
    Client.run_answered rfl conforms clean
  refine ⟨⟨own, ?_⟩, answered⟩
  intro earlier later front back steps_eq _
  apply answered
  rw [steps_eq]
  simp

/-- A read of which one event is taken, and an append. -/
def halfRead : List Op :=
  [.read (some [.readEvents [⟨1, [97], [], []⟩, ⟨2, [98], [], []⟩], .readEnd 2]) 1,
    .append (some [.append 3 3])]

theorem run_unmixed_halfRead : Unmixed (Client.connected.run halfRead) := by
  have conforms : ∀ op ∈ halfRead, op.Conforms := by
    intro op held
    rcases List.mem_cons.1 held with rfl | held
    · intro kinds same
      cases same
      exact .readEvents _ (.readEnd 2)
    · cases List.mem_singleton.1 held
      intro kinds same
      cases same
      exact .inl ⟨3, 3, rfl⟩
  have clean : ∀ op ∈ halfRead, op.Clean := by
    intro op held
    rcases List.mem_cons.1 held with rfl | held
    · intro kinds same
      cases same
      refine ⟨Option.isNone_iff_eq_none.1 (by decide +kernel), ?_⟩
      simp [ReadStream.Clean]
    · cases List.mem_singleton.1 held
      exact trivial
  exact ((run_unmixed halfRead conforms).2 clean).1

/-- An event without a type. -/
def unnamed : Pb.SequencedEvent := ⟨1, [], [], []⟩

/-- A read that fails at a malformed event, a read that is dropped, and an append. -/
def misaligned : List Op :=
  [.read (some [.readEvents [unnamed], .readEnd 1]) 1, .read (some [.readEnd 1]) 0,
    .append (some [.append 2 2])]

/-- The terminator of the failed read takes the place of the dropped one's, and the append meets
the latter. -/
theorem not_unmixed :
    ¬ ∀ ops : List Op, (∀ op ∈ ops, op.Conforms) → Unmixed (Client.connected.run ops) := by
  intro all
  have conforms : ∀ op ∈ misaligned, op.Conforms := by
    intro op held
    rcases List.mem_cons.1 held with rfl | held
    · intro kinds same
      cases same
      exact .readEvents _ (.readEnd 1)
    · rcases List.mem_cons.1 held with rfl | held
      · intro kinds same
        cases same
        exact .readEnd 1
      · cases List.mem_singleton.1 held
        intro kinds same
        cases same
        exact .inl ⟨2, 2, rfl⟩
  have answered := (all misaligned conforms).2 _ _ [_] [] rfl
    ⟨rfl, fun item held => by cases held⟩
  cases answered

end Tephra.Blocking
