import Mathlib.Data.List.Infix
import Tephra.Subscriptions
import Tephra.WireMessages

/-!
# The responses of a read

A streamed read and a subscription send their events in batches.  A batch is
flushed as one frame when its events, or their packed bytes, have reached a
threshold, so its last event comes on top of what is below both thresholds, and
the frame holds the encoded events with everything the wire puts around them.
-/

namespace Tephra

namespace Server

open Protobuf Read

/-- The limits of the frames that a server produces. -/
structure ServerConfig where
  /-- Largest single frame accepted or produced, in bytes. -/
  maxFrameLen : Nat
  readBatchEvents : Nat
  readBatchBytes : Nat

/-- The events of a frame that is being filled, with their packed bytes. -/
structure Batch where
  events : List Pb.SequencedEvent
  bytes : Nat

namespace Batch

def empty : Batch := ⟨[], 0⟩

def push (batch : Batch) (item : Sequenced) : Batch :=
  ⟨batch.events ++ [sequencedToProto item.position item.event],
    batch.bytes + item.event.asBytes.length⟩

/-- Whether a batch has reached a threshold. -/
def full (config : ServerConfig) (batch : Batch) : Bool :=
  batch.events.length ≥ config.readBatchEvents || batch.bytes ≥ config.readBatchBytes

end Batch

/-- What the connection answers: whether to go on with the next item, and whether
its writer takes the next frame. -/
structure ConnCtx where
  shouldContinue : (item : Nat) → Bool
  sendBulk : (frame : Nat) → Bool

section Read

variable {σ : Type}

/-- Send what is left in the batch and the end of the read. -/
def finish (requestId watermark : Nat) (conn : ConnCtx) (batch : Batch)
    (out : List Pb.Response) : List Pb.Response :=
  if batch.events.isEmpty then
    out ++ [⟨requestId, .readEnd watermark⟩]
  else if conn.sendBulk out.length then
    out ++ [⟨requestId, .readEvents batch.events⟩, ⟨requestId, .readEnd watermark⟩]
  else
    out ++ [⟨requestId, .readEvents batch.events⟩]

/-- The loop of a read, with the frames it has sent.  It is `none` when a call of
`next` panics or the fuel is spent. -/
def serve (config : ServerConfig) (requestId watermark : Nat) (conn : ConnCtx) :
    (fuel : Nat) → (taken : Nat) → Reads σ → Batch → (out : List Pb.Response) →
      Option (List Pb.Response)
  | 0, _, _, _, _ => none
  | fuel + 1, taken, reads, batch, out =>
      match reads.next with
      | none => none
      | some (none, _) => some (finish requestId watermark conn batch out)
      | some (some item, reads) =>
          if !conn.shouldContinue taken then
            some out
          else
            match item with
            | .error source => some (out ++ [⟨requestId, .error source⟩])
            | .ok sequenced =>
                let batch := batch.push sequenced
                if batch.full config then
                  let sent := out ++ [⟨requestId, .readEvents batch.events⟩]
                  if conn.sendBulk out.length then
                    serve config requestId watermark conn fuel (taken + 1) reads .empty sent
                  else
                    some sent
                else
                  serve config requestId watermark conn fuel (taken + 1) reads batch out

end Read

/-- The frames of a read. -/
def runRead {σ : Type} [Index.SegmentIndex σ] (config : ServerConfig) (requestId : Nat)
    (snapshot : Snapshot σ) (watermark scanBias : Nat) (query : Query) (cursor : Nat)
    (reverse : Bool) (limit : Option Nat) (conn : ConnCtx) (fuel : Nat) :
    Option (List Pb.Response) := do
  let reads ←
    if reverse then readBack watermark snapshot scanBias query cursor limit
    else read watermark snapshot scanBias query cursor limit
  serve config requestId reads.watermark conn fuel 0 reads .empty []

/-- The frames of a batch of a subscription, sent or not, from those that were
sent before. -/
def sendEventBatch (config : ServerConfig) (requestId : Nat) (conn : ConnCtx) :
    List Sequenced → Batch → (out : List Pb.Response) → List Pb.Response
  | [], batch, out =>
      if batch.events.isEmpty then out
      else out ++ [⟨requestId, .readEvents batch.events⟩]
  | item :: items, batch, out =>
      let batch := batch.push item
      if batch.full config then
        let sent := out ++ [⟨requestId, .readEvents batch.events⟩]
        if conn.sendBulk out.length then
          sendEventBatch config requestId conn items .empty sent
        else
          sent
      else
        sendEventBatch config requestId conn items batch out

namespace Batch

/-- The batch of some events. -/
def of (items : List Sequenced) : Batch :=
  ⟨items.map fun item => sequencedToProto item.position item.event,
    (items.map fun item => item.event.asBytes.length).sum⟩

@[simp]
theorem of_nil : of [] = empty := rfl

@[simp]
theorem push_of (items : List Sequenced) (item : Sequenced) :
    (of items).push item = of (items ++ [item]) := by
  simp [push, of]

/-- Some events leave room for another one. -/
def Below (config : ServerConfig) (items : List Sequenced) : Prop :=
  items = [] ∨ items.length < config.readBatchEvents ∧
    (items.map fun item => item.event.asBytes.length).sum < config.readBatchBytes

theorem below_of_not_full {config : ServerConfig} {items : List Sequenced}
    (room : (of items).full config = false) : Below config items := by
  right
  simpa [full, of] using room

theorem not_full_of_below {config : ServerConfig} {items : List Sequenced}
    (below : Below config items) (nonempty : items ≠ []) : (of items).full config = false := by
  simpa [full, of] using below.resolve_left nonempty

/-- Events in a row that are flushed together: all but the last one leave room for
another event. -/
def Flushable (config : ServerConfig) (items : List Sequenced) : Prop :=
  items ≠ [] ∧ Below config items.dropLast

theorem Below.flushable_push {config : ServerConfig} {items : List Sequenced}
    (below : Below config items) (item : Sequenced) : Flushable config (items ++ [item]) := by
  constructor
  · simp
  · rwa [List.dropLast_concat]

theorem Below.of_append {config : ServerConfig} {front back : List Sequenced}
    (below : Below config (front ++ back)) : Below config front := by
  rcases below with isNil | ⟨few, small⟩
  · exact Or.inl (List.append_eq_nil_iff.mp isNil).1
  · right
    rw [List.length_append] at few
    rw [List.map_append, List.sum_append] at small
    omega

theorem Below.flushable {config : ServerConfig} {items : List Sequenced}
    (below : Below config items) (nonempty : items ≠ []) : Flushable config items := by
  refine ⟨nonempty, ?_⟩
  rw [← List.dropLast_append_getLast nonempty] at below
  exact below.of_append

end Batch

open Batch

/-- The response with a batch of events. -/
def eventsResponse (requestId : Nat) (items : List Sequenced) : Pb.Response :=
  ⟨requestId, .readEvents (Batch.of items).events⟩

/-- A response that carries events carries a flushable stretch of some list. -/
def Carries (config : ServerConfig) (requestId : Nat) (items : List Sequenced)
    (response : Pb.Response) : Prop :=
  ∀ events, response.kind = .readEvents events →
    ∃ stretch, stretch <:+: items ∧ Flushable config stretch ∧
      response = eventsResponse requestId stretch

theorem carries_readEvents {config : ServerConfig} {requestId : Nat}
    {items stretch : List Sequenced} (inside : stretch <:+: items)
    (flushable : Flushable config stretch) :
    Carries config requestId items (eventsResponse requestId stretch) :=
  fun _ _ => ⟨stretch, inside, flushable, rfl⟩

theorem Carries.mono {config : ServerConfig} {requestId : Nat} {items more : List Sequenced}
    {response : Pb.Response} (carries : Carries config requestId items response)
    (inside : items <:+: more) : Carries config requestId more response := by
  intro events kind
  obtain ⟨stretch, here, flushable, eq⟩ := carries events kind
  exact ⟨stretch, here.trans inside, flushable, eq⟩

section Streams

variable {σ : Type} {config : ServerConfig} {requestId watermark : Nat}

theorem finish_carries {pending : List Sequenced} (below : Below config pending)
    (conn : ConnCtx) (out : List Pb.Response) :
    ∃ later, finish requestId watermark conn (Batch.of pending) out = out ++ later ∧
      ∀ response ∈ later, Carries config requestId pending response := by
  have ends : Carries config requestId pending ⟨requestId, .readEnd watermark⟩ := by
    rintro events ⟨⟩
  rw [finish]
  cases pending with
  | nil =>
      exact ⟨_, rfl, List.forall_mem_singleton.mpr ends⟩
  | cons item pending =>
      have sends : Carries config requestId (item :: pending)
          (eventsResponse requestId (item :: pending)) :=
        carries_readEvents List.infix_rfl (below.flushable (List.cons_ne_nil _ _))
      rw [if_neg (by simp [Batch.of])]
      split
      · exact ⟨_, rfl, List.forall_mem_cons.mpr ⟨sends, List.forall_mem_singleton.mpr ends⟩⟩
      · exact ⟨_, rfl, List.forall_mem_singleton.mpr sends⟩

/-- Every frame of a read carries a stretch of its events. -/
theorem serve_carries {conn : ConnCtx} {exhausted : Bool} {reads : Reads σ}
    {items pending : List Sequenced} (yields : Reads.Yields exhausted reads items)
    (below : Below config pending) {fuel : Nat} (enough : items.length < fuel) (taken : Nat)
    (out : List Pb.Response) :
    ∃ later, serve config requestId watermark conn fuel taken reads (Batch.of pending) out =
        some (out ++ later) ∧
      ∀ response ∈ later, Carries config requestId (pending ++ items) response := by
  induction items generalizing reads pending fuel taken out with
  | nil =>
      obtain ⟨fuel, rfl⟩ : ∃ less, fuel = less + 1 := ⟨fuel - 1, by omega⟩
      obtain ⟨last, ended, _⟩ := yields
      obtain ⟨later, finished, carries⟩ := finish_carries below conn out
      rw [List.append_nil]
      exact ⟨later, by rw [serve, ended, ← finished], carries⟩
  | cons item items ih =>
      obtain ⟨fuel, rfl⟩ : ∃ less, fuel = less + 1 := ⟨fuel - 1, by omega⟩
      obtain ⟨next, drawn, rest⟩ := yields
      have enough : items.length < fuel := by simpa using enough
      have sends : Carries config requestId (pending ++ item :: items)
          (eventsResponse requestId (pending ++ [item])) :=
        carries_readEvents ⟨[], items, by simp⟩ (below.flushable_push item)
      rw [serve, drawn]
      by_cases goesOn : conn.shouldContinue taken = true
      · simp only [goesOn, Bool.not_true, Bool.false_eq_true, if_false, push_of]
        cases isFull : (Batch.of (pending ++ [item])).full config with
        | true =>
            by_cases queued : conn.sendBulk out.length = true
            · obtain ⟨later, served, carries⟩ :=
                ih rest (Or.inl rfl) enough (taken + 1)
                  (out ++ [eventsResponse requestId (pending ++ [item])])
              refine ⟨eventsResponse requestId (pending ++ [item]) :: later, ?_, ?_⟩
              · simpa [queued, eventsResponse] using served
              · refine List.forall_mem_cons.mpr ⟨sends, fun response member => ?_⟩
                exact (carries response member).mono ⟨pending ++ [item], [], by simp⟩
            · exact ⟨[_], by simp [queued, eventsResponse], List.forall_mem_singleton.mpr sends⟩
        | false =>
            obtain ⟨later, served, carries⟩ :=
              ih rest (below_of_not_full isFull) enough (taken + 1) out
            rw [List.append_assoc] at carries
            exact ⟨later, served, carries⟩
      · exact ⟨[], by simp [goesOn], by simp⟩

/-- Every frame of a batch of a subscription carries a stretch of the batch. -/
theorem sendEventBatch_carries {conn : ConnCtx} {items pending : List Sequenced}
    (below : Below config pending) (out : List Pb.Response) :
    ∃ later, sendEventBatch config requestId conn items (Batch.of pending) out = out ++ later ∧
      ∀ response ∈ later, Carries config requestId (pending ++ items) response := by
  induction items generalizing pending out with
  | nil =>
      rw [sendEventBatch, List.append_nil]
      cases pending with
      | nil => exact ⟨[], (List.append_nil out).symm, by simp⟩
      | cons item pending =>
          rw [if_neg (by simp [Batch.of])]
          exact ⟨_, rfl, List.forall_mem_singleton.mpr
            (carries_readEvents List.infix_rfl (below.flushable (List.cons_ne_nil _ _)))⟩
  | cons item items ih =>
      have sends : Carries config requestId (pending ++ item :: items)
          (eventsResponse requestId (pending ++ [item])) :=
        carries_readEvents ⟨[], items, by simp⟩ (below.flushable_push item)
      simp only [sendEventBatch, push_of]
      cases isFull : (Batch.of (pending ++ [item])).full config with
      | true =>
          by_cases queued : conn.sendBulk out.length = true
          · obtain ⟨later, sent, carries⟩ :=
              @ih [] (Or.inl rfl) (out ++ [eventsResponse requestId (pending ++ [item])])
            refine ⟨eventsResponse requestId (pending ++ [item]) :: later, ?_, ?_⟩
            · simpa [queued, eventsResponse] using sent
            · refine List.forall_mem_cons.mpr ⟨sends, fun response member => ?_⟩
              exact (carries response member).mono ⟨pending ++ [item], [], by simp⟩
          · exact ⟨[_], by simp [queued, eventsResponse], List.forall_mem_singleton.mpr sends⟩
      | false =>
          obtain ⟨later, sent, carries⟩ := ih (below_of_not_full isFull) out
          rw [List.append_assoc] at carries
          exact ⟨later, sent, carries⟩

/-- A connection that is not cancelled and takes every frame. -/
def patient : ConnCtx := ⟨fun _ => true, fun _ => true⟩

theorem serve_whole {exhausted : Bool} {reads : Reads σ} {front pending : List Sequenced}
    {last : Sequenced} (yields : Reads.Yields exhausted reads (front ++ [last]))
    (below : Below config (pending ++ front)) {fuel : Nat} (enough : front.length + 1 < fuel)
    (taken : Nat) (out : List Pb.Response) :
    ∃ responses,
      serve config requestId watermark patient fuel taken reads (Batch.of pending) out =
        some responses ∧ eventsResponse requestId (pending ++ front ++ [last]) ∈ responses := by
  induction front generalizing reads pending fuel taken with
  | nil =>
      obtain ⟨fuel, rfl⟩ : ∃ less, fuel = less + 2 := ⟨fuel - 2, by simp at enough; omega⟩
      obtain ⟨next, drawn, ending, ended, _⟩ := yields
      rw [serve, drawn]
      simp only [patient, Bool.not_true, Bool.false_eq_true, if_false, if_true, push_of,
        List.append_nil]
      cases (Batch.of (pending ++ [last])).full config with
      | true =>
          refine ⟨_, by simp [serve, ended]; rfl, ?_⟩
          simp [finish, Batch.empty, eventsResponse]
      | false =>
          refine ⟨_, by simp [serve, ended]; rfl, ?_⟩
          simp [finish, eventsResponse, Batch.of]
  | cons item front ih =>
      obtain ⟨fuel, rfl⟩ : ∃ less, fuel = less + 1 := ⟨fuel - 1, by omega⟩
      obtain ⟨next, drawn, rest⟩ := yields
      rw [← List.singleton_append, ← List.append_assoc] at below ⊢
      have notFull := not_full_of_below below.of_append (by simp)
      rw [serve, drawn]
      simp only [patient, Bool.not_true, Bool.false_eq_true, if_false, push_of, notFull]
      exact ih rest below (by simpa using enough) (taken + 1)

end Streams

/-- The length of an event on the wire. -/
def eventLen (event : Event) : Nat :=
  bytesFieldLen 1 event.eventType.bytes.length +
    (event.tags.toList.map fun tag => lenFieldLen 2 tag.bytes.length).sum +
      bytesFieldLen 3 event.data.length

/-- The length of an event in a response: under its position, in two more messages. -/
def entryLen (item : Sequenced) : Nat :=
  lenFieldLen 1 (uintFieldLen 1 item.position + lenFieldLen 2 (eventLen item.event))

/-- The length of a response with some events, for the longest request id. -/
def responseLen (items : List Sequenced) : Nat :=
  uintFieldLen 1 (2 ^ 64 - 1) + lenFieldLen 3 (items.map entryLen).sum

theorem length_encode_sequencedToProto (item : Sequenced) :
    lenFieldLen 1 (sequencedToProto item.position item.event).encode.length = entryLen item := by
  rw [entryLen, Pb.SequencedEvent.length_encode, Pb.Event.length_encode]
  simp [sequencedToProto, eventLen, Function.comp_def]

theorem length_encode_eventsResponse (display : ReadError → List UInt8) (requestId : Nat)
    (items : List Sequenced) :
    ((eventsResponse requestId items).encode display).length =
      uintFieldLen 1 requestId + lenFieldLen 3 (items.map entryLen).sum := by
  simp [Pb.Response.encode, eventsResponse, Batch.of, List.length_flatMap, Function.comp_def,
    length_encode_sequencedToProto]

/-- Every response with events fits into a frame. -/
def EventsFit (config : ServerConfig) (display : ReadError → List UInt8)
    (responses : List Pb.Response) : Prop :=
  ∀ response ∈ responses, ∀ events, response.kind = .readEvents events →
    ∃ frame, writeFrame config.maxFrameLen (response.encode display) = .ok frame

/-- All stretches of some events that are flushed together fit into a frame. -/
def StretchesFit (config : ServerConfig) (items : List Sequenced) : Prop :=
  ∀ stretch, stretch <:+: items → Flushable config stretch →
    responseLen stretch ≤ config.maxFrameLen

section Fit

variable {σ : Type} {config : ServerConfig} {display : ReadError → List UInt8}
  {requestId : Nat} {items : List Sequenced}

/-- If a frame has room for all events, it has for each stretch of them. -/
theorem StretchesFit.of_whole (room : responseLen items ≤ config.maxFrameLen) :
    StretchesFit config items := by
  intro stretch inside _
  have fewer : (stretch.map entryLen).sum ≤ (items.map entryLen).sum :=
    (inside.sublist.map entryLen).sum_le_sum (by simp)
  have shorter := varintLen_mono fewer
  rw [responseLen, lenFieldLen] at room ⊢
  omega

theorem StretchesFit.mono {less : List Sequenced} (fit : StretchesFit config items)
    (inside : less <:+: items) : StretchesFit config less :=
  fun stretch here => fit stretch (here.trans inside)

theorem StretchesFit.eventsFit (fit : StretchesFit config items) (bounded : requestId < 2 ^ 64)
    {responses : List Pb.Response}
    (carries : ∀ response ∈ responses, Carries config requestId items response) :
    EventsFit config display responses := by
  intro response member events kind
  obtain ⟨stretch, inside, flushable, rfl⟩ := carries response member events kind
  have bound := fit stretch inside flushable
  have shorter : uintFieldLen 1 requestId ≤ uintFieldLen 1 (2 ^ 64 - 1) :=
    uintFieldLen_mono 1 (by omega)
  rw [writeFrame_ok_iff, length_encode_eventsResponse]
  rw [responseLen] at bound
  omega

theorem EventsFit.responseLen_le {responses : List Pb.Response}
    (fit : EventsFit config display responses)
    (member : eventsResponse (2 ^ 64 - 1) items ∈ responses) :
    responseLen items ≤ config.maxFrameLen := by
  have written := fit _ member _ rfl
  rwa [writeFrame_ok_iff, length_encode_eventsResponse] at written

end Fit

section Frames

open Index Reads

variable {σ : Type} [SegmentIndex σ] {snapshot : Snapshot σ} {watermark : Nat}
  {log : List Event}

/-- The frames of a read carry stretches of the matching events, in the order of the
read. -/
theorem runRead_carries (consistent : Consistent snapshot watermark log)
    (config : ServerConfig) (requestId scanBias : Nat) (query : Query) (cursor : Nat)
    (reverse : Bool) (limit : Option Nat) (conn : ConnCtx) {fuel : Nat}
    (enough : log.length < fuel) :
    ∃ responses items, runRead config requestId snapshot watermark scanBias query cursor reverse
        limit conn fuel = some responses ∧
      (items <:+: scanOracle query 0 watermark log ∨
        items <:+: (scanOracle query 0 watermark log).reverse) ∧
      ∀ response ∈ responses, Carries config requestId items response := by
  have short (after upto : Nat) := length_scanOracle_le query after upto log
  cases reverse with
  | false =>
      obtain ⟨reads, planned, yields⟩ := plan_yields consistent query cursor scanBias limit
      have inside := truncate_isPrefix limit (scanOracle query cursor watermark log)
      obtain ⟨responses, served, carries⟩ := @serve_carries _ config requestId reads.watermark
        conn _ _ _ [] yields (Or.inl rfl) fuel
        ((inside.length_le.trans (short cursor watermark)).trans_lt enough) 0 []
      refine ⟨responses, _, ?_, Or.inl ?_, carries⟩
      · rw [runRead, if_neg Bool.false_ne_true, Read.read, planned]
        exact served
      · exact inside.isInfix.trans (scanOracle_within (Nat.zero_le _) le_rfl)
  | true =>
      obtain ⟨reads, planned, yields⟩ := planBack_yields consistent query
        (min_le_right (cursor - 1) watermark) scanBias limit
      have inside := truncate_isPrefix limit
        (scanOracle query 0 (min (cursor - 1) watermark) log).reverse
      obtain ⟨responses, served, carries⟩ := @serve_carries _ config requestId reads.watermark
        conn _ _ _ [] yields (Or.inl rfl) fuel
        ((inside.length_le.trans (by simpa using short 0 _)).trans_lt enough) 0 []
      refine ⟨responses, _, ?_, Or.inr ?_, carries⟩
      · rw [runRead, if_pos rfl, readBack, planned]
        exact served
      · exact inside.isInfix.trans
          (List.reverse_infix.mpr (scanOracle_within le_rfl (min_le_right _ _)))

/-- Some read has a given flushable stretch of the matching events in one frame. -/
theorem runRead_whole (consistent : Consistent snapshot watermark log) (config : ServerConfig)
    (requestId scanBias : Nat) (query : Query) {stretch : List Sequenced}
    (flushable : Flushable config stretch) (reverse : Bool)
    (inside : if reverse then stretch <:+: (scanOracle query 0 watermark log).reverse
      else stretch <:+: scanOracle query 0 watermark log) :
    ∃ cursor responses, runRead config requestId snapshot watermark scanBias query cursor reverse
        (some stretch.length) patient (log.length + 1) = some responses ∧
      eventsResponse requestId stretch ∈ responses := by
  obtain ⟨nonempty, below⟩ := flushable
  have ends := List.dropLast_append_getLast nonempty
  have short := length_scanOracle_le query 0 watermark log
  have fuel : stretch.length ≤ log.length := by
    cases reverse with
    | false => exact inside.length_le.trans short
    | true => exact inside.length_le.trans (by simpa using short)
  have enough : stretch.dropLast.length + 1 < log.length + 1 := by
    have length := congrArg List.length ends
    simp only [List.length_append, List.length_singleton] at length
    omega
  cases reverse with
  | false =>
      obtain ⟨front, back, split⟩ := inside
      rw [List.append_assoc] at split
      obtain ⟨cursor, answer⟩ := exists_scanOracle_eq_right split.symm
      obtain ⟨reads, planned, yields⟩ :=
        plan_yields consistent query cursor scanBias (some stretch.length)
      rw [answer, truncate, List.take_left, ← ends] at yields
      obtain ⟨responses, served, member⟩ := @serve_whole _ config requestId reads.watermark
        _ _ _ [] _ yields below _ enough 0 []
      rw [List.nil_append, ends] at member
      refine ⟨cursor, responses, ?_, member⟩
      rw [runRead, if_neg Bool.false_ne_true, Read.read, planned]
      exact served
  | true =>
      obtain ⟨front, back, split⟩ := inside
      have turned := congrArg List.reverse split
      rw [List.reverse_reverse, List.reverse_append, List.reverse_append, ← List.append_assoc]
        at turned
      obtain ⟨upto, covered, answer⟩ := exists_scanOracle_eq_left (Nat.zero_le _) turned.symm
      obtain ⟨reads, planned, yields⟩ :=
        planBack_yields consistent query covered scanBias (some stretch.length)
      rw [answer, List.reverse_append, List.reverse_reverse, truncate, List.take_left, ← ends]
        at yields
      obtain ⟨responses, served, member⟩ := @serve_whole _ config requestId reads.watermark
        _ _ _ [] _ yields below _ enough 0 []
      rw [List.nil_append, ends] at member
      refine ⟨upto + 1, responses, ?_, member⟩
      rw [runRead, if_pos rfl, readBack, Nat.add_sub_cancel, min_eq_left covered, planned]
      exact served

/-- The events of every read and of every subscription with a query fit into frames
exactly if the matching events that are flushed together do. -/
theorem every_event_delivered (consistent : Consistent snapshot watermark log)
    (config : ServerConfig) (display : ReadError → List UInt8) (scanBias : Nat)
    (query : Query) :
    ((∀ requestId < 2 ^ 64, ∀ cursor reverse limit conn fuel, log.length < fuel →
        ∃ responses, runRead config requestId snapshot watermark scanBias query cursor reverse
            limit conn fuel = some responses ∧ EventsFit config display responses) ∧
      ∀ requestId < 2 ^ 64, ∀ sub : Subscription, sub.query = query → ∀ conn,
        ∃ batch later, sub.pollBatch watermark snapshot scanBias = some (.ok batch, later) ∧
          EventsFit config display (sendEventBatch config requestId conn batch .empty [])) ↔
      StretchesFit config (scanOracle query 0 watermark log) ∧
        StretchesFit config (scanOracle query 0 watermark log).reverse := by
  constructor
  · rintro ⟨reads, _⟩
    have fits (reverse : Bool) (stretch : List Sequenced) (flushable : Flushable config stretch)
        (inside : if reverse then stretch <:+: (scanOracle query 0 watermark log).reverse
          else stretch <:+: scanOracle query 0 watermark log) :
        responseLen stretch ≤ config.maxFrameLen := by
      obtain ⟨cursor, responses, served, member⟩ := runRead_whole consistent config
        (2 ^ 64 - 1) scanBias query flushable reverse inside
      obtain ⟨others, servedAgain, fit⟩ := reads (2 ^ 64 - 1) (by omega) cursor reverse
        (some stretch.length) patient (log.length + 1) (Nat.lt_succ_self _)
      rw [served] at servedAgain
      cases servedAgain
      exact fit.responseLen_le member
    exact ⟨fun stretch inside flushable => fits false stretch flushable inside,
      fun stretch inside flushable => fits true stretch flushable inside⟩
  · rintro ⟨forward, backward⟩
    constructor
    · intro requestId bounded cursor reverse limit conn fuel enough
      obtain ⟨responses, items, served, inside, carries⟩ := runRead_carries consistent config
        requestId scanBias query cursor reverse limit conn enough
      refine ⟨responses, served, ?_⟩
      rcases inside with ahead | back
      · exact (forward.mono ahead).eventsFit bounded carries
      · exact (backward.mono back).eventsFit bounded carries
    · rintro requestId bounded sub rfl conn
      obtain ⟨cursor, polled, _, behind, _⟩ :=
        Subscription.pollBatch_eq consistent sub scanBias
      refine ⟨_, _, polled, ?_⟩
      obtain ⟨later, sent, carries⟩ := @sendEventBatch_carries config requestId conn
        (scanOracle sub.query sub.cursor cursor log) [] (Or.inl rfl) []
      rw [← of_nil, sent]
      have inside : scanOracle sub.query sub.cursor cursor log <:+:
          scanOracle sub.query 0 watermark log := by
        rcases behind with same | below
        · rw [same, scanOracle_eq_nil le_rfl]
          exact List.nil_infix
        · exact scanOracle_within (Nat.zero_le _) below
      exact (forward.mono inside).eventsFit bounded carries

end Frames

/-- Frames of at most 64 bytes, and the default batches. -/
def smallFrames : ServerConfig := ⟨64, 1024, 512 * 1024⟩

/-- An append request that fills a frame. -/
def largeRequest : Pb.Request := ⟨1, ⟨[⟨[65], [], List.replicate 53 0⟩]⟩⟩

/-- The event of the request. -/
def largeEvent : Event := { plainEvent with data := List.replicate 53 0 }

theorem largeSnapshot_consistent : Consistent (singleSnapshot largeEvent) 1 [largeEvent] :=
  singleSnapshot_consistent (by
    rw [Index.FitsSegment]
    decide)

/-- A frame of 64 bytes has room for the four events up to the watermark, in two segments. -/
theorem every_event_delivered_plain :
    ∃ responses, runRead smallFrames 1 rolledSnapshot 4 4 .all 5 true none patient 6 =
      some responses ∧ EventsFit smallFrames (fun _ => []) responses := by
  have longest : varintLen (2 ^ 64 - 1) ≤ 9 + 1 := varintLen_le_iff.mpr (by decide)
  have events : scanOracle .all 0 4 (sealedEvents ++ activeEvents) =
      [⟨1, labelledEvent north⟩, ⟨2, plainEvent⟩, ⟨3, labelledEvent north⟩,
        ⟨4, labelledEvent south⟩] := by
    decide
  have fits : ∀ items : List Sequenced, (items.map entryLen).sum = 45 →
      StretchesFit smallFrames items := by
    intro items total
    apply StretchesFit.of_whole
    rw [responseLen, total]
    simp [uintFieldLen, lenFieldLen, wireVarint, wireLen, varintLen_of_lt, smallFrames] at longest ⊢
    omega
  have fit : StretchesFit smallFrames (scanOracle .all 0 4 (sealedEvents ++ activeEvents)) ∧
      StretchesFit smallFrames
        (scanOracle .all 0 4 (sealedEvents ++ activeEvents)).reverse := by
    rw [events]
    constructor
    all_goals
      apply fits
      simp [entryLen, eventLen, labelledEvent, plainEvent, north, south, Tags.empty, Tags.single,
        uintFieldLen, lenFieldLen, bytesFieldLen, wireVarint, wireLen, varintLen_of_lt]
  exact ((every_event_delivered rolledSnapshot_consistent smallFrames (fun _ => []) 4 .all).mpr
    fit).1 1 (by decide) 5 true none patient 6 (by decide)

/-- A frame is accepted with an event, and no frame has room for the event. -/
theorem accepted_event_not_delivered :
    (∃ frame, writeFrame smallFrames.maxFrameLen largeRequest.encode = .ok frame) ∧
      eventsFromProto largeRequest.append = .ok [largeEvent] ∧
      Consistent (singleSnapshot largeEvent) 1 [largeEvent] ∧
      ∃ response, runRead smallFrames 1 (singleSnapshot largeEvent) 1 4 .all 0 false none patient
          2 = some [response, ⟨1, .readEnd 1⟩] ∧
        writeFrame smallFrames.maxFrameLen (response.encode fun _ => []) =
          .error (.tooLarge 68 64) := by
  refine ⟨?_, ?_, largeSnapshot_consistent, eventsResponse 1 [⟨1, largeEvent⟩], rfl, ?_⟩
  · rw [writeFrame_ok_iff, Pb.Request.length_encode]
    simp [largeRequest, Pb.Event.length_encode, uintFieldLen, lenFieldLen, bytesFieldLen,
      wireVarint, wireLen, varintLen_of_lt, smallFrames]
  · have name : nameFromPb "event type" [65] = .ok plainEvent.eventType := rfl
    have noTags : tagsFromPb [] = .ok .empty := by
      simp [tagsFromPb, Tags.new_nil, Except.mapError]
    simp only [eventsFromProto, largeRequest, List.mapM_cons, List.mapM_nil, eventFromProto, name,
      noTags]
    rfl
  · rw [writeFrame, length_encode_eventsResponse]
    simp [largeEvent, entryLen, eventLen, plainEvent, uintFieldLen, lenFieldLen, bytesFieldLen,
      wireVarint, wireLen, varintLen_of_lt, smallFrames, Tags.empty]

end Server

end Tephra
