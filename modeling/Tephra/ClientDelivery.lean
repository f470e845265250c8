import Tephra.WireVocabulary

/-!
# What a response delivers

The reader task of a client hands a response to the sink of its request.  An append
and a stats request take one result; a read and a subscription take items until a
response ends them.
-/

namespace Tephra.Client

open Server

structure Stats where
  eventCount : Nat
  segmentCount : Nat
  diskBytes : Nat
  uptimeSeconds : Nat
  activeConnections : Nat
  activeSubscriptions : Nat
  connectionsRefused : Nat
  connectionsReaped : Nat
  maxConnections : Nat
  version : List UInt8
deriving DecidableEq, Repr

structure ErrorResponse where
  code : Nat
  message : List UInt8
  conflictPosition : Option Nat
  retryable : Bool
deriving DecidableEq, Repr

inductive ResponseKind
  | append (first last : Nat)
  | readEvents (events : List Pb.SequencedEvent)
  | readEnd (watermark : Nat)
  | error (source : ErrorResponse)
  | caughtUp (watermark : Nat)
  | stats (stats : Stats)
  | helloAck
  | notSet

structure Response where
  requestId : Nat
  kind : ResponseKind

/-- What the text of a protocol error says. -/
inductive Fault
  | malformed (source : EventError)
  | unexpected (text : String) (other : ResponseKind)
  | reason (text : List UInt8)

inductive ClientError
  | unexpectedEof
  | protocol (fault : Fault)
  | server (code : Nat) (message : List UInt8) (retryable : Bool) (conflictPosition : Option Nat)

/-- A result, or an item of a stream. -/
inductive Value
  | appended (first last : Nat)
  | stats (stats : Stats)
  | event (event : SequencedEvent)
  | caughtUp (watermark : Nat)

/-- One item of a channel. -/
inductive Item
  | ok (value : Value)
  | readEnd (watermark : Nat)
  | err (error : ClientError)

/-- `to_str().unwrap_or_default()`. -/
def strOrDefault (bytes : List UInt8) : List UInt8 :=
  if validUtf8 bytes then bytes else []

def serverError (error : ErrorResponse) : ClientError :=
  .server error.code (strOrDefault error.message) error.retryable error.conflictPosition

def statsFromPb (stats : Stats) : Stats :=
  { stats with version := strOrDefault stats.version }

inductive SinkKind
  | append
  | stats
  | read
  | subscribe
deriving DecidableEq, Repr

def appendResult : ResponseKind → Item
  | .append first last => .ok (.appended first last)
  | .error source => .err (serverError source)
  | other => .err (.protocol (.unexpected "unexpected response to append" other))

def statsResult : ResponseKind → Item
  | .stats stats => .ok (.stats (statsFromPb stats))
  | .error source => .err (serverError source)
  | other => .err (.protocol (.unexpected "unexpected response to stats" other))

/-- A send into a channel whose receiver may be gone. -/
def push (receiver : Bool) (item : Item) : List Item :=
  if receiver then [item] else []

/-- The events of a batch, up to one that is malformed or finds no receiver. -/
def deliverEvents (receiver : Bool) : List Pb.SequencedEvent → List Item × Bool
  | [] => ([], true)
  | view :: views =>
      match sequencedFromPb view with
      | .ok event =>
          if receiver then
            let rest := deliverEvents receiver views
            (.ok (.event event) :: rest.1, rest.2)
          else ([], false)
      | .error source => (push receiver (.err (.protocol (.malformed source))), false)

/-- What goes into the channel of a read, and whether the read goes on. -/
def deliverRead (receiver : Bool) : ResponseKind → List Item × Bool
  | .readEvents events => deliverEvents receiver events
  | .readEnd watermark => (push receiver (.readEnd watermark), false)
  | .error source => (push receiver (.err (serverError source)), false)
  | other =>
      (push receiver (.err (.protocol (.unexpected "unexpected response during read" other))),
        false)

def deliverSubscribe (receiver : Bool) : ResponseKind → List Item × Bool
  | .readEvents events => deliverEvents receiver events
  | .caughtUp watermark => (push receiver (.ok (.caughtUp watermark)), receiver)
  | .error source => (push receiver (.err (serverError source)), false)
  | other =>
      (push receiver (.err (.protocol (.unexpected "unexpected response during subscribe" other))),
        false)

/-- What a response puts into the channel of a sink, and whether its entry stays. -/
def deliver (sink : SinkKind) (receiver : Bool) (kind : ResponseKind) : List Item × Bool :=
  match sink with
  | .append => (push receiver (appendResult kind), false)
  | .stats => (push receiver (statsResult kind), false)
  | .read => deliverRead receiver kind
  | .subscribe => deliverSubscribe receiver kind

/-- What the responses of one request deliver while its receiver is there. -/
def deliverAll (sink : SinkKind) : List ResponseKind → List Item × Bool
  | [] => ([], true)
  | kind :: kinds =>
      let here := deliver sink true kind
      if here.2 then (here.1 ++ (deliverAll sink kinds).1, (deliverAll sink kinds).2)
      else here

/-- The last item of a stream. -/
def Item.terminal : Item → Bool
  | .ok _ => false
  | .readEnd _ => true
  | .err _ => true

/-- A request that is answered once. -/
def SinkKind.once : SinkKind → Bool
  | .append => true
  | .stats => true
  | .read => false
  | .subscribe => false

/-- The events of a response, as they came. -/
def ResponseKind.views : ResponseKind → List Pb.SequencedEvent
  | .readEvents events => events
  | _ => []

theorem deliverAll_snoc {sink : SinkKind} {kinds : List ResponseKind}
    (continues : (deliverAll sink kinds).2 = true) (kind : ResponseKind) :
    deliverAll sink (kinds ++ [kind]) =
      ((deliverAll sink kinds).1 ++ (deliver sink true kind).1, (deliver sink true kind).2) := by
  induction kinds with
  | nil =>
      simp only [List.nil_append, deliverAll]
      split
      · rename_i stays
        apply Prod.ext
        · exact List.append_nil _
        · exact stays.symm
      · rfl
  | cons first kinds ih =>
      rw [deliverAll] at continues
      split at continues
      · rename_i stays
        rw [List.cons_append, deliverAll, deliverAll]
        rw [if_pos stays, if_pos stays, ih continues, List.append_assoc]
      · rename_i ends
        exact absurd continues ends

theorem deliverEvents_decoded (views : List Pb.SequencedEvent) :
    ∃ count events, (views.take count).mapM sequencedFromPb = .ok events ∧
      ((deliverEvents true views = (events.map fun event => .ok (.event event), true) ∧
          count = views.length) ∨
        ∃ error, deliverEvents true views =
          ((events.map fun event => .ok (.event event)) ++ [.err error], false)) := by
  induction views with
  | nil => exact ⟨0, [], rfl, Or.inl ⟨rfl, rfl⟩⟩
  | cons view views ih =>
      rw [deliverEvents]
      cases decoded : sequencedFromPb view with
      | error source => exact ⟨0, [], rfl, Or.inr ⟨_, rfl⟩⟩
      | ok event =>
          obtain ⟨count, events, eventsEq, whole⟩ := ih
          refine ⟨count + 1, event :: events, ?_, ?_⟩
          · rw [List.take_succ_cons, List.mapM_cons, decoded, eventsEq]
            rfl
          · simp only [if_true]
            rcases whole with ⟨allEq, countEq⟩ | ⟨error, partEq⟩
            · rw [allEq, countEq]
              exact Or.inl ⟨rfl, rfl⟩
            · rw [partEq]
              exact Or.inr ⟨error, rfl⟩

theorem mapM_append_ok {views more : List Pb.SequencedEvent} {events rest : List SequencedEvent}
    (front : views.mapM sequencedFromPb = .ok events)
    (back : more.mapM sequencedFromPb = .ok rest) :
    (views ++ more).mapM sequencedFromPb = .ok (events ++ rest) := by
  rw [List.mapM_append, front, back]
  rfl

/-- What the responses of a read have delivered. -/
inductive ReadOutcome (kinds : List ResponseKind) : List Item × Bool → Prop
  /-- They are batches alone, and every event has been delivered. -/
  | going {events : List SequencedEvent} (batches : ∀ kind ∈ kinds, ∃ views, kind = .readEvents views)
      (decoded : (kinds.flatMap ResponseKind.views).mapM sequencedFromPb = .ok events) :
      ReadOutcome kinds (events.map fun event => .ok (.event event), true)
  /-- The end has come, behind every event of the batches in front of it. -/
  | ended {front rest : List ResponseKind} {watermark : Nat} {events : List SequencedEvent}
      (split : kinds = front ++ .readEnd watermark :: rest)
      (batches : ∀ kind ∈ front, ∃ views, kind = .readEvents views)
      (decoded : (front.flatMap ResponseKind.views).mapM sequencedFromPb = .ok events) :
      ReadOutcome kinds
        ((events.map fun event => .ok (.event event)) ++ [.readEnd watermark], false)
  /-- An error has come, behind some of the events. -/
  | failed {count : Nat} {events : List SequencedEvent} (error : ClientError)
      (decoded : ((kinds.flatMap ResponseKind.views).take count).mapM sequencedFromPb =
        .ok events) :
      ReadOutcome kinds ((events.map fun event => .ok (.event event)) ++ [.err error], false)

theorem readOutcome_batch {views : List Pb.SequencedEvent} {events : List SequencedEvent}
    {kinds : List ResponseKind} {rest : List Item × Bool}
    (decoded : views.mapM sequencedFromPb = .ok events) (outcome : ReadOutcome kinds rest) :
    ReadOutcome (.readEvents views :: kinds)
      ((events.map fun event => .ok (.event event)) ++ rest.1, rest.2) := by
  cases outcome with
  | @going more batches restEq =>
      rw [← List.map_append]
      apply ReadOutcome.going
      · intro kind mem
        rcases List.mem_cons.mp mem with rfl | later
        · exact ⟨views, rfl⟩
        · exact batches kind later
      · exact mapM_append_ok decoded restEq
  | @ended front rest watermark more split batches frontEq =>
      rw [← List.append_assoc, ← List.map_append]
      apply ReadOutcome.ended
      · rw [split]
        exact (List.cons_append).symm
      · intro kind mem
        rcases List.mem_cons.mp mem with rfl | later
        · exact ⟨views, rfl⟩
        · exact batches kind later
      · exact mapM_append_ok decoded frontEq
  | @failed count more error restEq =>
      rw [← List.append_assoc, ← List.map_append]
      apply @ReadOutcome.failed _ (views.length + count)
      rw [List.flatMap_cons, List.take_append, ResponseKind.views, Nat.add_sub_cancel_left,
        List.take_of_length_le (Nat.le_add_right _ _)]
      exact mapM_append_ok decoded restEq

theorem deliverAll_read (kinds : List ResponseKind) :
    ReadOutcome kinds (deliverAll .read kinds) := by
  induction kinds with
  | nil => exact @ReadOutcome.going [] [] (by simp) rfl
  | cons first kinds ih =>
      rw [deliverAll]
      have fails (error : ClientError) : ReadOutcome (first :: kinds) ([.err error], false) :=
        @ReadOutcome.failed _ 0 [] error rfl
      cases first with
      | readEvents views =>
          obtain ⟨count, events, decoded, whole⟩ := deliverEvents_decoded views
          have deliverEq : deliver .read true (.readEvents views) = deliverEvents true views := rfl
          rw [deliverEq]
          rcases whole with ⟨allEq, countEq⟩ | ⟨error, partEq⟩
          · rw [countEq, List.take_length] at decoded
            rw [allEq]
            exact readOutcome_batch decoded ih
          · rw [partEq]
            apply @ReadOutcome.failed _ (min count views.length)
            rw [List.flatMap_cons, ResponseKind.views,
              List.take_append_of_le_length (Nat.min_le_right _ _), List.take_eq_take_min.symm]
            exact decoded
      | readEnd watermark => exact @ReadOutcome.ended _ [] kinds watermark [] rfl (by simp) rfl
      | append first last => exact fails _
      | error source => exact fails _
      | caughtUp watermark => exact fails _
      | stats stats => exact fails _
      | helloAck => exact fails _
      | notSet => exact fails _

/-- Items of which the last one alone is terminal. -/
def Ended (items : List Item) : Prop :=
  ∃ front last, items = front ++ [last] ∧ last.terminal = true ∧
    ∀ item ∈ front, item.terminal = false

theorem Ended.append {items more : List Item} (ended : Ended more)
    (open_ : ∀ item ∈ items, item.terminal = false) : Ended (items ++ more) := by
  obtain ⟨front, last, rfl, terminal, before⟩ := ended
  refine ⟨items ++ front, last, (List.append_assoc _ _ _).symm, terminal, ?_⟩
  intro item mem
  rcases List.mem_append.mp mem with here | there
  · exact open_ item here
  · exact before item there

theorem ended_single {item : Item} (terminal : item.terminal = true) : Ended [item] :=
  ⟨[], item, rfl, terminal, by simp⟩

theorem deliverEvents_ends (views : List Pb.SequencedEvent) :
    if (deliverEvents true views).2 then
      ∀ item ∈ (deliverEvents true views).1, item.terminal = false
    else Ended (deliverEvents true views).1 := by
  obtain ⟨count, events, -, whole⟩ := deliverEvents_decoded views
  have quiet : ∀ item ∈ events.map fun event => Item.ok (.event event),
      item.terminal = false := by
    intro item mem
    obtain ⟨event, -, rfl⟩ := List.mem_map.mp mem
    rfl
  rcases whole with ⟨allEq, -⟩ | ⟨error, partEq⟩
  · rw [allEq]
    exact quiet
  · rw [partEq]
    exact (ended_single rfl).append quiet

/-- A stream goes on exactly as long as no terminal item is delivered. -/
theorem deliver_ends {sink : SinkKind} (stream : sink.once = false) (kind : ResponseKind) :
    if (deliver sink true kind).2 then
      ∀ item ∈ (deliver sink true kind).1, item.terminal = false
    else Ended (deliver sink true kind).1 := by
  cases sink with
  | append => cases stream
  | stats => cases stream
  | read =>
      cases kind with
      | readEvents views => exact deliverEvents_ends views
      | _ => exact ended_single rfl
  | subscribe =>
      cases kind with
      | readEvents views => exact deliverEvents_ends views
      | caughtUp watermark => simp [deliver, deliverSubscribe, push, Item.terminal]
      | _ => exact ended_single rfl

theorem deliverAll_ends {sink : SinkKind} (stream : sink.once = false)
    (kinds : List ResponseKind) :
    if (deliverAll sink kinds).2 then
      ∀ item ∈ (deliverAll sink kinds).1, item.terminal = false
    else Ended (deliverAll sink kinds).1 := by
  induction kinds with
  | nil => simp [deliverAll]
  | cons first kinds ih =>
      have here := deliver_ends stream first
      rw [deliverAll]
      by_cases stays : (deliver sink true first).2 = true
      · rw [if_pos stays] at here ⊢
        simp only
        split at ih
        · rename_i continues
          rw [if_pos continues]
          intro item mem
          rcases List.mem_append.mp mem with now | later
          · exact here item now
          · exact ih item later
        · rename_i ends
          rw [if_neg ends]
          exact ih.append here
      · rw [if_neg stays] at here ⊢
        rw [if_neg stays]
        exact here

theorem deliverAll_once {sink : SinkKind} (once : sink.once = true) (first : ResponseKind)
    (kinds : List ResponseKind) :
    ∃ item, deliver sink true first = ([item], false) ∧
      deliverAll sink (first :: kinds) = ([item], false) := by
  cases sink with
  | append => exact ⟨appendResult first, rfl, rfl⟩
  | stats => exact ⟨statsResult first, rfl, rfl⟩
  | read => cases once
  | subscribe => cases once

end Tephra.Client
