import Tephra.ClientDelivery
import Tephra.ClientRequests

/-!
# The responses of concurrent requests

The requests of one connection run concurrently.  Each has an id and a channel; the
registry maps the id to the sink that sends into the channel.  The reader task takes
the entry of a response's id out, delivers to its sink, and puts it back while the
request goes on.
-/

namespace Tephra.Client

inductive CallPhase
  /-- It has its id and awaits a permit. -/
  | starting
  /-- Registered, in `out_tx.send`. -/
  | sending
  /-- The call awaits its result, or the caller has its stream. -/
  | handed
  /-- The call has returned its result, or the caller has dropped its future or its stream. -/
  | closed
deriving DecidableEq, Repr

/-- A call with its channel.  The items that its caller has taken and the responses
with its id that the reader has read since its registration are kept beside. -/
structure Call where
  id : Nat
  sink : SinkKind
  phase : CallPhase
  channel : List Item
  done : Bool
  watermark : Option Nat
  taken : List Item
  frames : List ResponseKind

/-- An entry of the registry: the sink of an id sends into the channel of a call. -/
structure Entry where
  id : Nat
  sink : SinkKind
  call : Nat
deriving DecidableEq, Repr

structure Routing where
  nextId : Nat
  table : List Entry
  calls : List Call
  reader : ReaderTask
  lastError : Option (List UInt8)

inductive RoutingStep
  | begin (sink : SinkKind)
  | register (place : Nat)
  | send (place : Nat)
  | sendFails (place : Nat)
  /-- The reader reads a response. -/
  | respond (response : Response)
  /-- The reader leaves its loop, at the end of the input or with an error to display. -/
  | stops (error : Option (List UInt8))
  | failAll
  /-- The caller polls for its result, or its stream for the next item. -/
  | poll (place : Nat)
  /-- The caller drops its future or its stream. -/
  | drop (place : Nat)

def Call.new (id : Nat) (sink : SinkKind) : Call :=
  ⟨id, sink, .starting, [], false, none, [], []⟩

/-- The receiver of the channel is there. -/
def Call.receiver (call : Call) : Bool :=
  decide (call.phase ≠ .closed)

/-- A response with the id of a registered call is kept beside it. -/
def Call.note (response : Response) (call : Call) : Call :=
  if call.phase ≠ .starting ∧ call.id = response.requestId then
    { call with frames := call.frames ++ [response.kind] }
  else call

@[simp]
theorem Call.note_id (response : Response) (call : Call) : (call.note response).id = call.id := by
  rw [note]
  split <;> rfl

@[simp]
theorem Call.note_sink (response : Response) (call : Call) :
    (call.note response).sink = call.sink := by
  rw [note]
  split <;> rfl

@[simp]
theorem Call.note_channel (response : Response) (call : Call) :
    (call.note response).channel = call.channel := by
  rw [note]
  split <;> rfl

@[simp]
theorem Call.note_receiver (response : Response) (call : Call) :
    (call.note response).receiver = call.receiver := by
  rw [note]
  split <;> rfl

theorem Call.note_other {response : Response} {call : Call} (other : call.id ≠ response.requestId) :
    call.note response = call :=
  if_neg fun both => other both.2

/-- `poll_next` with an item in the channel. -/
def Call.take (call : Call) (item : Item) (rest : List Item) : Call :=
  let call := { call with channel := rest, taken := call.taken ++ [item] }
  match item with
  | .ok _ => call
  | .readEnd watermark => { call with watermark := some watermark, done := true }
  | .err _ => { call with done := true }

def unattributedRequestId : Nat := 0

def text (words : String) : List UInt8 := words.toUTF8.toList

namespace Routing

/-- `Conn::spawn`. -/
def spawn : Routing := ⟨1, [], [], .reading, none⟩

def lookup (routing : Routing) (id : Nat) : Option Entry :=
  routing.table.find? fun entry => decide (entry.id = id)

/-- The registry without the entry of an id. -/
def without (routing : Routing) (id : Nat) : List Entry :=
  routing.table.filter fun entry => decide (entry.id ≠ id)

/-- The registry holds the sender of an id. -/
def holds (routing : Routing) (id : Nat) : Bool :=
  routing.table.any fun entry => decide (entry.id = id)

def put (routing : Routing) (place : Nat) (call : Call) : Routing :=
  { routing with calls := routing.calls.set place call }

/-- Deliver one response to its waiting request. -/
def route (routing : Routing) (response : Response) : Routing :=
  match routing.lookup response.requestId with
  | none => routing
  | some entry =>
      match routing.calls[entry.call]? with
      | none => { routing with table := routing.without response.requestId }
      | some call =>
          let delivered := deliver entry.sink call.receiver response.kind
          { routing.put entry.call { call with channel := call.channel ++ delivered.1 } with
            table :=
              if delivered.2 then entry :: routing.without response.requestId
              else routing.without response.requestId }

/-- The message of an error that the server could not attribute. -/
def unattributed (routing : Routing) (kind : ResponseKind) : Option (List UInt8) :=
  match kind with
  | .error source => some (if validUtf8 source.message then source.message else text "server error")
  | _ => routing.lastError

def respond (routing : Routing) (response : Response) : Routing :=
  if response.requestId = unattributedRequestId then
    { routing with lastError := routing.unattributed response.kind }
  else
    { routing with calls := routing.calls.map (Call.note response) }.route response

/-- Why the requests that are left fail. -/
def reason (routing : Routing) : ClientError :=
  .protocol (.reason (routing.lastError.getD (text "server closed the connection")))

/-- Drain the registry with an error for every entry. -/
def failAll (routing : Routing) : Routing :=
  { routing with
    table := []
    reader := .ended
    calls := routing.calls.map fun call =>
      if routing.holds call.id then
        { call with channel := call.channel ++ push call.receiver (.err routing.reason) }
      else call }

/-- The writer task is gone: the entry is removed again. -/
def sendFails (routing : Routing) (place : Nat) (call : Call) : Routing :=
  let removed := { routing with table := routing.without call.id }
  if call.sink.once then
    removed.put place
      { call with phase := .closed, channel := [], taken := call.taken ++ [.err .unexpectedEof] }
  else if routing.holds call.id then
    removed.put place
      { call with phase := .handed, channel := call.channel ++ [.err .unexpectedEof] }
  else removed.put place { call with phase := .handed }

/-- Wait for the result, or for the next item.  The channel is closed when its sender
has gone from the registry. -/
def poll (routing : Routing) (place : Nat) (call : Call) : Option Routing :=
  match call.sink.once with
  | true =>
      match call.channel with
      | item :: rest =>
          some (routing.put place
            { call with phase := .closed, channel := rest, taken := call.taken ++ [item] })
      | [] =>
          if routing.holds call.id then none
          else some (routing.put place
            { call with phase := .closed, taken := call.taken ++ [.err .unexpectedEof] })
  | false =>
      if call.done then some routing
      else
        match call.channel with
        | item :: rest => some (routing.put place (call.take item rest))
        | [] =>
            if routing.holds call.id then none
            else some (routing.put place { call with done := true })

/-- The caller goes away.  A stream takes its entry with it, and a cancel takes an id. -/
def drop (routing : Routing) (place : Nat) (call : Call) : Routing :=
  if call.phase = .handed ∧ call.sink.once = false then
    { routing.put place { call with phase := .closed } with
      table := routing.without call.id
      nextId := if call.done then routing.nextId else routing.nextId + 1 }
  else routing.put place { call with phase := .closed }

def step (routing : Routing) : RoutingStep → Option Routing
  | .begin sink =>
      some { routing with
        nextId := routing.nextId + 1
        calls := routing.calls ++ [Call.new routing.nextId sink] }
  | .register place => do
      let call ← routing.calls[place]?
      if call.phase = .starting then
        some { routing.put place { call with phase := .sending } with
          table := ⟨call.id, call.sink, place⟩ :: routing.without call.id }
      else none
  | .send place => do
      let call ← routing.calls[place]?
      if call.phase = .sending then some (routing.put place { call with phase := .handed })
      else none
  | .sendFails place => do
      let call ← routing.calls[place]?
      if call.phase = .sending then some (routing.sendFails place call) else none
  | .respond response =>
      if routing.reader = .reading then some (routing.respond response) else none
  | .stops error =>
      if routing.reader = .reading then
        some { routing with
          reader := .failing
          lastError :=
            match error with
            | some display => some (text "connection error: " ++ display)
            | none => routing.lastError }
      else none
  | .failAll => if routing.reader = .failing then some routing.failAll else none
  | .poll place => do
      let call ← routing.calls[place]?
      if call.phase = .handed then routing.poll place call else none
  | .drop place => do
      let call ← routing.calls[place]?
      if call.phase ≠ .closed then some (routing.drop place call) else none

theorem holds_without (routing : Routing) (id other : Nat) :
    ({ routing with table := routing.without id } : Routing).holds other =
      (decide (other ≠ id) && routing.holds other) := by
  simp only [holds, without, List.any_filter]
  by_cases same : other = id
  · simp [same]
  · rw [decide_eq_true same, Bool.true_and]
    congr 1
    ext entry
    by_cases here : entry.id = other
    · simp [here, same]
    · simp [here]

theorem lookup_none {routing : Routing} {id : Nat} (absent : routing.lookup id = none) :
    routing.holds id = false := by
  rw [holds, List.any_eq_false]
  exact List.find?_eq_none.mp absent

theorem lookup_some {routing : Routing} {id : Nat} {entry : Entry}
    (found : routing.lookup id = some entry) :
    entry ∈ routing.table ∧ entry.id = id ∧ routing.holds id = true := by
  have mem := List.mem_of_find?_eq_some found
  have here : entry.id = id := by simpa using List.find?_some found
  refine ⟨mem, here, ?_⟩
  rw [holds, List.any_eq_true]
  exact ⟨entry, mem, by simpa using here⟩

end Routing

/-- An error that no response of the request brings. -/
inductive Failure : ClientError → Prop
  | unexpectedEof : Failure .unexpectedEof
  | reason (words : List UInt8) : Failure (.protocol (.reason words))

/-- All that is ever sent to a request that is over: what its responses deliver up to
the last one, or what they deliver up to a failure of the connection. -/
def Over (sink : SinkKind) (frames : List ResponseKind) (total : List Item) : Prop :=
  ∃ front, front <+: frames ∧
    (deliverAll sink front = (total, false) ∨
      ∃ error, Failure error ∧ (deliverAll sink front).2 = true ∧
        total = (deliverAll sink front).1 ++ [.err error])

/-- What the caller of a request may have taken. -/
def Heard (sink : SinkKind) (frames : List ResponseKind) (taken : List Item) : Prop :=
  ∃ front total, front <+: frames ∧ taken <+: total ∧
    (total = (deliverAll sink front).1 ∨
      ∃ error, Failure error ∧ (deliverAll sink front).2 = true ∧
        total = (deliverAll sink front).1 ++ [.err error])

theorem Over.note {sink : SinkKind} {frames : List ResponseKind} {total : List Item}
    (settled : Over sink frames total) (kind : ResponseKind) :
    Over sink (frames ++ [kind]) total := by
  obtain ⟨front, isPrefix, ends⟩ := settled
  exact ⟨front, isPrefix.trans (List.prefix_append _ _), ends⟩

theorem Heard.note {sink : SinkKind} {frames : List ResponseKind} {taken : List Item}
    (heard : Heard sink frames taken) (kind : ResponseKind) :
    Heard sink (frames ++ [kind]) taken := by
  obtain ⟨front, total, isPrefix, within, ends⟩ := heard
  exact ⟨front, total, isPrefix.trans (List.prefix_append _ _), within, ends⟩

theorem Over.heard {sink : SinkKind} {frames : List ResponseKind} {taken channel : List Item}
    (settled : Over sink frames (taken ++ channel)) : Heard sink frames taken := by
  obtain ⟨front, isPrefix, ends⟩ := settled
  refine ⟨front, taken ++ channel, isPrefix, List.prefix_append _ _, ?_⟩
  rcases ends with whole | failed
  · exact Or.inl (by rw [whole])
  · exact Or.inr failed

theorem heard_of_going {sink : SinkKind} {frames : List ResponseKind}
    {taken channel : List Item} (going : deliverAll sink frames = (taken ++ channel, true)) :
    Heard sink frames taken :=
  ⟨frames, taken ++ channel, List.prefix_rfl, List.prefix_append _ _, Or.inl (by rw [going])⟩

/-- The end of a stream shows in what its caller has taken. -/
structure Marked (call : Call) : Prop where
  open_ : call.done = false → call.watermark = none ∧ ∀ item ∈ call.taken, item.terminal = false
  done : call.done = true → ∃ front last, call.taken = front ++ [last] ∧
    (∀ item ∈ front, item.terminal = false) ∧
    ((∃ watermark, last = .readEnd watermark ∧ call.watermark = some watermark) ∨
      ∃ error, last = .err error ∧ call.watermark = none)

/-- What holds of a call, with whether the registry holds its sender. -/
structure Told (held : Bool) (call : Call) : Prop where
  starting : call.phase = .starting →
    held = false ∧ call.taken = [] ∧ call.channel = [] ∧ call.frames = []
  going : held = true → call.phase ≠ .closed →
    deliverAll call.sink call.frames = (call.taken ++ call.channel, true)
  settled : held = false → call.phase ≠ .starting → call.phase ≠ .closed →
    Over call.sink call.frames (call.taken ++ call.channel)
  heard : Heard call.sink call.frames call.taken
  untaken : call.sink.once = true → call.phase ≠ .closed → call.taken = []
  marked : call.sink.once = false → Marked call

theorem told_new (id : Nat) (sink : SinkKind) : Told false (Call.new id sink) where
  starting := fun _ => ⟨rfl, rfl, rfl, rfl⟩
  going := by simp
  settled := fun _ past => absurd rfl past
  heard := ⟨[], [], List.prefix_rfl, List.prefix_rfl, Or.inl rfl⟩
  untaken := fun _ _ => rfl
  marked := fun _ => ⟨fun _ => ⟨rfl, by simp [Call.new]⟩, by simp [Call.new]⟩

/-- A response that finds no entry changes nothing but the record of it. -/
theorem Told.note_absent {call : Call} (told : Told false call) (response : Response) :
    Told false (call.note response) := by
  rw [Call.note]
  split
  · rename_i noted
    constructor
    · intro start
      exact absurd start noted.1
    · simp
    · intro _ past alive
      exact (told.settled rfl past alive).note _
    · exact told.heard.note _
    · exact told.untaken
    · intro stream
      obtain ⟨open_, done⟩ := told.marked stream
      exact ⟨open_, done⟩
  · exact told

/-- A response is delivered to the call whose entry it finds. -/
theorem Told.deliver {call : Call} (told : Told true call) (response : Response)
    (own : call.id = response.requestId) :
    Told (Client.deliver call.sink call.receiver response.kind).2
      { call.note response with
        channel :=
          call.channel ++ (Client.deliver call.sink call.receiver response.kind).1 } := by
  have past : call.phase ≠ .starting := by
    intro start
    cases (told.starting start).1
  have noteEq : call.note response = { call with frames := call.frames ++ [response.kind] } :=
    if_pos ⟨past, own⟩
  rw [noteEq]
  have receives : call.phase ≠ .closed → call.receiver = true := fun alive =>
    decide_eq_true alive
  have whole : call.phase ≠ .closed →
      deliverAll call.sink (call.frames ++ [response.kind]) =
        (call.taken ++ (call.channel ++ (Client.deliver call.sink true response.kind).1),
          (Client.deliver call.sink true response.kind).2) := by
    intro alive
    have going := told.going rfl alive
    rw [deliverAll_snoc (by rw [going]), going, List.append_assoc]
  constructor
  · intro start
    exact absurd start past
  · intro held alive
    rw [receives alive] at held ⊢
    simp only
    rw [whole alive, held]
  · intro absent _ alive
    rw [receives alive] at absent ⊢
    refine ⟨call.frames ++ [response.kind], List.prefix_rfl, Or.inl ?_⟩
    simp only
    rw [whole alive, absent]
  · exact told.heard.note _
  · exact told.untaken
  · intro stream
    obtain ⟨open_, done⟩ := told.marked stream
    exact ⟨open_, done⟩

/-- The channel of a registered call gets a failure. -/
theorem Told.fail {call : Call} (told : Told true call) {error : ClientError}
    (failure : Failure error) :
    Told false { call with channel := call.channel ++ push call.receiver (.err error) } := by
  constructor
  · intro start
    cases (told.starting start).1
  · simp
  · intro _ _ alive
    have going := told.going rfl alive
    have receives : call.receiver = true := decide_eq_true alive
    refine ⟨call.frames, List.prefix_rfl, Or.inr ⟨error, failure, by rw [going], ?_⟩⟩
    rw [going, receives, push, if_pos rfl, ← List.append_assoc]
  · exact told.heard
  · exact told.untaken
  · intro stream
    obtain ⟨open_, done⟩ := told.marked stream
    exact ⟨open_, done⟩

theorem Told.close {held : Bool} {call : Call} (told : Told held call) (still : Bool) :
    Told still { call with phase := .closed } := by
  constructor
  · intro start
    cases start
  · intro _ alive
    exact absurd rfl alive
  · intro _ _ alive
    exact absurd rfl alive
  · exact told.heard
  · intro _ alive
    exact absurd rfl alive
  · intro stream
    obtain ⟨open_, done⟩ := told.marked stream
    exact ⟨open_, done⟩

/-- All that a live call may take comes from what it has been sent. -/
theorem Told.heard_all {held : Bool} {call : Call} (told : Told held call)
    (past : call.phase ≠ .starting) (alive : call.phase ≠ .closed) :
    Heard call.sink call.frames (call.taken ++ call.channel) := by
  cases held with
  | true =>
      apply @heard_of_going _ _ _ []
      rw [List.append_nil]
      exact told.going rfl alive
  | false =>
      apply @Over.heard _ _ _ []
      rw [List.append_nil]
      exact told.settled rfl past alive

theorem Heard.of_prefix {sink : SinkKind} {frames : List ResponseKind}
    {taken items : List Item} (heard : Heard sink frames items) (within : taken <+: items) :
    Heard sink frames taken := by
  obtain ⟨front, total, isPrefix, itemsWithin, ends⟩ := heard
  exact ⟨front, total, isPrefix, within.trans itemsWithin, ends⟩

/-- The caller of a request answered once takes its result. -/
theorem Told.takeOnce {held : Bool} {call : Call} {item : Item} {rest : List Item}
    (told : Told held call) (once : call.sink.once = true) (handed : call.phase = .handed)
    (channel : call.channel = item :: rest) :
    Told held { call with phase := .closed, channel := rest, taken := call.taken ++ [item] } := by
  have all := told.heard_all (by simp [handed]) (by simp [handed])
  rw [channel] at all
  constructor
  · intro start
    cases start
  · intro _ alive
    exact absurd rfl alive
  · intro _ _ alive
    exact absurd rfl alive
  · exact all.of_prefix ⟨rest, by rw [List.append_assoc, List.singleton_append]⟩
  · intro _ alive
    exact absurd rfl alive
  · intro stream
    rw [once] at stream
    cases stream

theorem Told.takeStream {held : Bool} {call : Call} {item : Item} {rest : List Item}
    (told : Told held call) (stream : call.sink.once = false) (handed : call.phase = .handed)
    (unfinished : call.done = false) (channel : call.channel = item :: rest) :
    Told held (call.take item rest) := by
  have past : call.phase ≠ .starting := by simp [handed]
  have alive : call.phase ≠ .closed := by simp [handed]
  have all := told.heard_all past alive
  rw [channel] at all
  obtain ⟨unmarked, quiet⟩ := (told.marked stream).open_ unfinished
  have split : call.taken ++ call.channel = call.taken ++ [item] ++ rest := by
    rw [channel, List.append_assoc, List.singleton_append]
  have shape : (call.take item rest).phase = call.phase ∧
      (call.take item rest).sink = call.sink ∧ (call.take item rest).frames = call.frames ∧
      (call.take item rest).taken = call.taken ++ [item] ∧
      (call.take item rest).channel = rest := by
    cases item <;> exact ⟨rfl, rfl, rfl, rfl, rfl⟩
  obtain ⟨phaseEq, sinkEq, framesEq, takenEq, channelEq⟩ := shape
  constructor
  · rw [phaseEq]
    intro start
    exact absurd start past
  · rw [sinkEq, framesEq, takenEq, channelEq, ← split]
    intro held _
    exact told.going held alive
  · rw [sinkEq, framesEq, takenEq, channelEq, ← split]
    intro absent _ _
    exact told.settled absent past alive
  · rw [sinkEq, framesEq, takenEq]
    exact all.of_prefix ⟨rest, by rw [List.append_assoc, List.singleton_append]⟩
  · rw [sinkEq, stream]
    intro impossible
    cases impossible
  · intro _
    cases item with
    | ok value =>
        constructor
        · intro _
          refine ⟨unmarked, ?_⟩
          intro item mem
          rcases List.mem_append.mp mem with before | here
          · exact quiet item before
          · rw [List.mem_singleton.mp here]
            rfl
        · intro finished
          have : call.done = true := finished
          rw [unfinished] at this
          cases this
    | readEnd watermark =>
        constructor
        · intro impossible
          cases impossible
        · intro _
          exact ⟨call.taken, _, rfl, quiet, Or.inl ⟨watermark, rfl, rfl⟩⟩
    | err error =>
        constructor
        · intro impossible
          cases impossible
        · intro _
          exact ⟨call.taken, _, rfl, quiet, Or.inr ⟨error, rfl, unmarked⟩⟩

theorem Over.ended {sink : SinkKind} {frames : List ResponseKind} {total : List Item}
    (settled : Over sink frames total) (stream : sink.once = false) : Ended total := by
  obtain ⟨front, -, ends⟩ := settled
  have shape := deliverAll_ends stream front
  rcases ends with whole | ⟨error, -, continues, rfl⟩
  · rw [whole] at shape
    exact shape
  · rw [if_pos continues] at shape
    exact (ended_single rfl).append shape

/-- A request that is over has been sent something. -/
theorem Over.nonempty {sink : SinkKind} {frames : List ResponseKind} {total : List Item}
    (settled : Over sink frames total) : total ≠ [] := by
  cases once : sink.once with
  | false =>
      obtain ⟨front, last, rfl, -⟩ := settled.ended once
      simp
  | true =>
      obtain ⟨front, -, whole | ⟨error, -, -, rfl⟩⟩ := settled
      · cases front with
        | nil => cases whole
        | cons first front =>
            obtain ⟨item, -, here⟩ := deliverAll_once once first front
            rw [here] at whole
            cases whole
            simp
      · simp

theorem Told.held_of_waiting {held : Bool} {call : Call} (told : Told held call)
    (stream : call.sink.once = false) (handed : call.phase = .handed)
    (unfinished : call.done = false) (empty : call.channel = []) : held = true := by
  by_contra absent
  have settled := told.settled (by simpa using absent) (by simp [handed]) (by simp [handed])
  rw [empty, List.append_nil] at settled
  obtain ⟨front, last, takenEq, terminal, -⟩ := settled.ended stream
  have quiet := ((told.marked stream).open_ unfinished).2 last (by rw [takenEq]; simp)
  rw [terminal] at quiet
  cases quiet

theorem Told.fail_sending {call : Call} (told : Told true call) (sending : call.phase = .sending) :
    Told false
      { call with phase := .handed, channel := call.channel ++ [.err .unexpectedEof] } := by
  have failed := told.fail .unexpectedEof
  have receives : call.receiver = true := by simp [Call.receiver, sending]
  rw [receives] at failed
  constructor
  · intro start
    cases start
  · simp
  · intro _ _ _
    exact failed.settled rfl (by simp [sending]) (by simp [sending])
  · exact told.heard
  · intro once _
    exact told.untaken once (by simp [sending])
  · intro stream
    obtain ⟨open_, done⟩ := told.marked stream
    exact ⟨open_, done⟩

theorem Told.hand {held : Bool} {call : Call} (told : Told held call)
    (sending : call.phase = .sending) : Told held { call with phase := .handed } := by
  constructor
  · intro start
    cases start
  · intro here _
    exact told.going here (by simp [sending])
  · intro absent _ _
    exact told.settled absent (by simp [sending]) (by simp [sending])
  · exact told.heard
  · intro once _
    exact told.untaken once (by simp [sending])
  · intro stream
    obtain ⟨open_, done⟩ := told.marked stream
    exact ⟨open_, done⟩

theorem Told.register {call : Call} (told : Told false call) (start : call.phase = .starting) :
    Told true { call with phase := .sending } := by
  obtain ⟨-, takenEq, channelEq, framesEq⟩ := told.starting start
  constructor
  · intro impossible
    cases impossible
  · intro _ _
    simp only [takenEq, channelEq, framesEq]
    rfl
  · simp
  · exact told.heard
  · intro _ _
    exact takenEq
  · intro stream
    obtain ⟨open_, done⟩ := told.marked stream
    exact ⟨open_, done⟩

/-- A call whose send has failed returns the error. -/
theorem told_returned {call : Call} (once : call.sink.once = true)
    (takenEq : call.taken = []) :
    Told false
      { call with phase := .closed, channel := [], taken := call.taken ++ [.err .unexpectedEof] } := by
  constructor
  · intro start
    cases start
  · simp
  · intro _ _ alive
    exact absurd rfl alive
  · refine ⟨[], [.err .unexpectedEof], List.nil_prefix, ?_, Or.inr ?_⟩
    · rw [takenEq]
      exact List.prefix_rfl
    · exact ⟨.unexpectedEof, .unexpectedEof, rfl, rfl⟩
  · intro _ alive
    exact absurd rfl alive
  · intro stream
    rw [once] at stream
    cases stream

end Tephra.Client
