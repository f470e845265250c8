import Tephra.BlockingRuns
import Tephra.FrameDelivery
import Tephra.LoadedSnapshots
import Tephra.ReadAnswers

/-!
# Remote reads

The query of a read goes to the server on the wire, a job sends its frames, the connection
carries their bytes in any pieces and may break at any of them, and the client drains what
arrives.  Whatever fails on the way, a read that the client takes for complete is complete.
-/

namespace Tephra

open Protobuf Read

namespace Pb

/-- A read on the wire: its cursor is the bound of either direction. -/
structure ReadRequest where
  query : Query
  after : Nat
  reverse : Bool
  limit : Option Nat

end Pb

namespace Blocking

open Server

/-- The message that `start_read` sends. -/
def startRead (query : Query) (cursor : Nat) (reverse : Bool) (limit : Option Nat) :
    Pb.ReadRequest :=
  ⟨queryToPb query, cursor, reverse, limit⟩

end Blocking

namespace Server

variable {σ : Type} [Index.SegmentIndex σ]

/-- The frames of a read request, if its query is one. -/
def spawnRead (config : ServerConfig) (requestId : Nat) (snapshot : Snapshot σ)
    (watermark scanBias : Nat) (read : Pb.ReadRequest) (job : JobRun) (fuel : Nat) :
    Except ConvertError (Option (List Pb.Response × JobExit)) := do
  let query ← queryFromPb read.query
  return runJob config requestId snapshot watermark scanBias query read.after read.reverse
    read.limit job fuel

/-- No call of the job fails or panics. -/
def JobRun.Fine (job : JobRun) : Prop :=
  job.planPanics = false ∧ ∀ item, job.call item = .fine

section Calm

variable {config : ServerConfig} {requestId watermark : Nat} {job : JobRun}

omit [Index.SegmentIndex σ] in
/-- The loop of a calm read without a fault sends all of it and its end. -/
theorem stream_calm (calm : job.Calm) (fine : ∀ item, job.call item = .fine) {exhausted : Bool}
    {reads : Reads σ} {items : List Sequenced} (yields : Reads.Yields exhausted reads items)
    {fuel : Nat} (enough : items.length < fuel) (taken : Nat) (pending : List Sequenced)
    (out : List Pb.Response) :
    ∃ batches : List (List Sequenced), batches.flatten = pending ++ items ∧
      stream config requestId watermark job fuel taken reads (Batch.of pending) out =
        some (out ++ (batches.map (eventsResponse requestId) ++ [⟨requestId, .readEnd watermark⟩]),
          .returned) := by
  obtain ⟨-, -, goesOn, queued⟩ := calm
  induction items generalizing reads pending fuel taken out with
  | nil =>
      obtain ⟨fuel, rfl⟩ : ∃ less, fuel = less + 1 := ⟨fuel - 1, by omega⟩
      obtain ⟨last, ended, -⟩ := yields
      rw [stream, ended, fine taken]
      dsimp only
      rw [finish]
      cases pending with
      | nil => exact ⟨[], rfl, rfl⟩
      | cons item pending =>
          refine ⟨[item :: pending], by simp, ?_⟩
          rw [if_neg (by simp [Batch.of]), if_pos (queued _)]
          rfl
  | cons item items ih =>
      obtain ⟨fuel, rfl⟩ : ∃ less, fuel = less + 1 := ⟨fuel - 1, by omega⟩
      obtain ⟨next, drawn, rest⟩ := yields
      have enough : items.length < fuel := by simpa using enough
      rw [stream, drawn, fine taken]
      simp only [goesOn, queued, Bool.not_true, Bool.false_eq_true, if_false, if_true,
        Batch.push_of]
      split
      · obtain ⟨batches, whole, sent⟩ := ih rest enough (taken + 1) []
          (out ++ [eventsResponse requestId (pending ++ [item])])
        refine ⟨(pending ++ [item]) :: batches, ?_, ?_⟩
        · rw [List.flatten_cons, whole, List.nil_append, List.append_assoc]
          rfl
        · rw [List.append_assoc] at sent
          exact sent
      · obtain ⟨batches, whole, sent⟩ := ih rest enough (taken + 1) (pending ++ [item]) out
        exact ⟨batches, by rw [whole, List.append_assoc]; rfl, sent⟩

/-- A calm job without a fault sends the whole result and its end. -/
theorem runJob_calm {snapshot : Snapshot σ} {log : List Event}
    (consistent : Consistent snapshot watermark log) (calm : job.Calm) (fine : job.Fine)
    (scanBias : Nat) (query : Query) (cursor : Nat) (reverse : Bool) (limit : Option Nat)
    {fuel : Nat} (enough : log.length < fuel) :
    ∃ batches : List (List Sequenced),
      batches.flatten = resultOf query cursor reverse limit watermark log ∧
      runJob config requestId snapshot watermark scanBias query cursor reverse limit job fuel =
        some (batches.map (eventsResponse requestId) ++ [⟨requestId, .readEnd watermark⟩],
          .returned) := by
  obtain ⟨reads, exhausted, planned, rfl, yields⟩ :=
    planned_yields consistent scanBias query cursor reverse limit
  have short := length_resultOf_le query cursor reverse limit reads.watermark log
  obtain ⟨batches, whole, sent⟩ := @stream_calm _ config requestId reads.watermark job calm fine.2
    _ _ _ yields fuel (by omega) 0 [] []
  refine ⟨batches, whole, ?_⟩
  have admitted : ¬ (job.admission = .overflow ∧ job.acquires = false) := by
    rintro ⟨overflow, refused⟩
    rw [calm.1 overflow] at refused
    cases refused
  rw [runJob, if_neg admitted, if_neg (by simp [calm.2.1]), if_neg (by simp [fine.1])]
  simp only [planned]
  simpa using sent

end Calm

end Server

namespace Remote

open Client Server Blocking Framing Index SortedMaps Writer.CommitSeam

/-- An event as a client has it. -/
def row (item : Sequenced) : SequencedEvent :=
  ⟨item.position, item.event.eventType, item.event.tags, item.event.data⟩

section Received

variable (display : ReadError → List UInt8)

/-- What a client makes of a response of a read.  Its errors are internal ones. -/
def received : Pb.ResponseKind → Client.ResponseKind
  | .readEvents events => .readEvents events
  | .readEnd watermark => .readEnd watermark
  | .error source => .error ⟨Pb.internalCode, display source, none, false⟩

def kinds (frames : List Pb.Response) : List Client.ResponseKind :=
  frames.map fun response => received display response.kind

variable {display} {requestId watermark : Nat}

theorem takeEvents_batch (items : List Sequenced) :
    ReadStream.takeEvents (Batch.of items).events = (items.map row, none) := by
  rw [Batch.of]
  induction items with
  | nil => rfl
  | cons item items ih =>
      have parsed : sequencedFromPb (sequencedToProto item.position item.event) =
          .ok (row item) := sequencedFromPb_eq item.position (row item).event
      rw [List.map_cons, ReadStream.takeEvents, parsed]
      simp only [ih, List.map_cons]

theorem kinds_cons (batch : List Sequenced) (frames : List Pb.Response) :
    kinds display (eventsResponse requestId batch :: frames) =
      .readEvents (Batch.of batch).events :: kinds display frames := rfl

/-- A whole read says all of its events and its watermark. -/
theorem all_kinds (batches : List (List Sequenced)) :
    ReadStream.all
        (ReadStream.contents (kinds display (batches.map (eventsResponse requestId) ++
          [⟨requestId, .readEnd watermark⟩])))
        (ReadStream.endsAt (kinds display (batches.map (eventsResponse requestId) ++
          [⟨requestId, .readEnd watermark⟩]))) =
      .ok (batches.flatten.map row, watermark) := by
  have collected : ReadStream.collect (ReadStream.contents (kinds display
      (batches.map (eventsResponse requestId) ++ [⟨requestId, .readEnd watermark⟩]))) =
        .ok (batches.flatten.map row) := by
    induction batches with
    | nil => rfl
    | cons batch batches ih =>
        rw [List.map_cons, List.cons_append, kinds_cons,
          ReadStream.contents_batch (takeEvents_batch batch), ReadStream.collect_append, ih,
          List.flatten_cons, List.map_append]
        rfl
  have ended : ReadStream.endsAt (kinds display
      (batches.map (eventsResponse requestId) ++ [⟨requestId, .readEnd watermark⟩])) =
        some watermark := by
    clear collected
    induction batches with
    | nil => rfl
    | cons batch batches ih =>
        rw [List.map_cons, List.cons_append, kinds_cons, ReadStream.endsAt, takeEvents_batch batch]
        exact ih
  unfold ReadStream.all
  rw [collected, ended]

/-- The end of a read is its last frame, so a client that has it has all of them. -/
theorem whole_of_readEnd {result : List Sequenced} {frames got : List Pb.Response} {mark : Nat}
    (ends : EndsWhole requestId watermark result frames)
    (answers : ∀ response ∈ frames, response.requestId = requestId) (front : got <+: frames)
    (ended : .readEnd mark ∈ kinds display got) :
    mark = watermark ∧ ∃ batches : List (List Sequenced), batches.flatten = result ∧
      got = batches.map (eventsResponse requestId) ++ [⟨requestId, .readEnd watermark⟩] := by
  obtain ⟨⟨id, kind⟩, held, same⟩ := List.mem_map.mp ended
  obtain rfl : id = requestId := answers _ (front.subset held)
  obtain rfl : kind = .readEnd mark := by
    cases kind with
    | readEnd mark =>
        cases same
        rfl
    | readEvents _ => cases same
    | error _ => cases same
  obtain ⟨rfl, batches, whole, rfl⟩ := ends mark (front.subset held)
  refine ⟨rfl, batches, whole, ?_⟩
  refine (List.prefix_concat_iff.mp front).resolve_right fun short => ?_
  obtain ⟨batch, -, not⟩ := List.mem_map.mp (short.subset held)
  cases not

theorem drained_whole {result : List Sequenced} {frames got : List Pb.Response}
    (ends : EndsWhole requestId watermark result frames)
    (answers : ∀ response ∈ frames, response.requestId = requestId) (front : got <+: frames)
    {events : List SequencedEvent} {mark : Nat}
    (drained : ReadStream.all (ReadStream.contents (kinds display got))
      (ReadStream.endsAt (kinds display got)) = .ok (events, mark)) :
    mark = watermark ∧ events = result.map row := by
  obtain ⟨-, ended⟩ := ReadStream.of_all drained
  obtain ⟨rfl, batches, whole, rfl⟩ :=
    whole_of_readEnd ends answers front (ReadStream.endsAt_mem ended)
  rw [all_kinds, whole] at drained
  obtain ⟨same, -⟩ := Prod.mk.inj (Except.ok.inj drained)
  exact ⟨rfl, same.symm⟩

theorem eventsOf_batches (batches : List (List Sequenced)) (frames : List Pb.Response) :
    Blocking.eventsOf (kinds display (batches.map (eventsResponse requestId) ++ frames)) =
      batches.flatten.map row ++ Blocking.eventsOf (kinds display frames) := by
  induction batches with
  | nil => rfl
  | cons batch batches ih =>
      rw [List.map_cons, List.cons_append, kinds_cons]
      change (ReadStream.takeEvents (Batch.of batch).events).1 ++ Blocking.eventsOf _ = _
      rw [takeEvents_batch, ih, List.flatten_cons, List.map_append, List.append_assoc]

theorem eventsOf_front {transcript : Transcript} {result : List Sequenced}
    (honest : transcript.Honest watermark result) {got : List Pb.Response}
    (front : got <+: transcript.frames requestId) :
    Blocking.eventsOf (kinds display got) <+: result.map row := by
  have silent : Blocking.eventsOf (kinds display
      (transcript.terminal.toList.map fun kind => ⟨requestId, kind⟩)) = [] := by
    cases terminal : transcript.terminal with
    | none => rfl
    | some kind =>
        cases kind with
        | readEvents events => exact absurd terminal (honest.ends events)
        | readEnd _ => rfl
        | error _ => rfl
  have all : Blocking.eventsOf (kinds display (transcript.frames requestId)) =
      transcript.batches.flatten.map row := by
    rw [Transcript.frames, eventsOf_batches, silent, List.append_nil]
  obtain ⟨rest, split⟩ := front
  rw [← split, kinds, List.map_append, Blocking.eventsOf, List.flatMap_append] at all
  exact List.IsPrefix.trans ⟨_, all⟩ (honest.inOrder.map row)

theorem eventsAmong_takeItems_all {items : List (Except CallError SequencedEvent)} {count : Nat}
    (enough : items.length ≤ count) :
    eventsAmong (ReadStream.takeItems items count) = ReadStream.okEvents items := by
  induction count generalizing items with
  | zero =>
      obtain rfl := List.length_eq_zero_iff.mp (Nat.le_zero.mp enough)
      rfl
  | succ count ih =>
      rcases items with _ | ⟨error | event, items⟩
      · exact @ih [] (Nat.zero_le _)
      · exact ih (Nat.le_of_succ_le_succ enough)
      · exact congrArg (event :: ·) (ih (Nat.le_of_succ_le_succ enough))

theorem okEvents_of_collect {items : List (Except CallError SequencedEvent)}
    {events : List SequencedEvent} (collected : ReadStream.collect items = .ok events) :
    ReadStream.okEvents items = events := by
  induction items generalizing events with
  | nil =>
      cases collected
      rfl
  | cons item items ih =>
      cases item with
      | error error => cases collected
      | ok event =>
          rw [ReadStream.collect] at collected
          cases rest : ReadStream.collect items with
          | error error =>
              rw [rest] at collected
              cases collected
          | ok more =>
              rw [rest] at collected
              cases collected
              exact congrArg (event :: ·) (ih rest)

theorem requestId_of_frames (transcript : Transcript) :
    ∀ response ∈ transcript.frames requestId, response.requestId = requestId := by
  intro response held
  rcases List.mem_append.mp held with batch | terminal
  · obtain ⟨events, -, rfl⟩ := List.mem_map.mp batch
    rfl
  · obtain ⟨kind, -, rfl⟩ := List.mem_map.mp terminal
    rfl

end Received

/-- A client that drains the frames of an answer, or takes items of its stream, has the first
events of a read; with a watermark it has all of them. -/
structure Truthful (requestId watermark : Nat) (answer : List Client.ResponseKind)
    (rows : List SequencedEvent) : Prop where
  drained : ∃ outcome,
    ((⟨requestId, []⟩ : Blocking.Client).step (.readAll (some answer))).1 = .all outcome ∧
      ∀ events mark, outcome = .ok (events, mark) → mark = watermark ∧ events = rows
  streamed : ∀ count, ∃ items mark,
    ((⟨requestId, []⟩ : Blocking.Client).step (.read (some answer) count)).1 =
        .stream items mark ∧
      eventsAmong items <+: rows ∧
      ∀ last, mark = some last → last = watermark ∧ eventsAmong items = rows

theorem truthful_of_honest {display : ReadError → List UInt8} {requestId watermark : Nat}
    {transcript : Transcript} {result : List Sequenced}
    (honest : transcript.Honest watermark result) {got : List Pb.Response}
    (front : got <+: transcript.frames requestId) :
    Truthful requestId watermark (kinds display got) (result.map row) where
  drained :=
    ⟨_, (Blocking.Client.readAll_aligned rfl _).1, fun _ _ drained =>
      drained_whole honest.endsWhole (requestId_of_frames transcript) front drained⟩
  streamed := by
    intro count
    refine ⟨_, _, (Blocking.Client.read_aligned rfl _ count).1, ?_, ?_⟩
    · exact (ReadStream.eventsAmong_takeItems _ count).trans
        ((ReadStream.okEvents_contents _).trans (eventsOf_front honest front))
    · intro last marked
      split at marked
      · next enough =>
        obtain ⟨rfl, batches, whole, rfl⟩ := whole_of_readEnd honest.endsWhole
          (requestId_of_frames transcript) front (ReadStream.endsAt_mem marked)
        obtain ⟨collected, -⟩ :=
          ReadStream.of_all (@all_kinds display requestId last batches)
        rw [whole] at collected
        exact ⟨rfl, (eventsAmong_takeItems_all enough.le).trans (okEvents_of_collect collected)⟩
      · cases marked

variable {ε ς : Type}

theorem delivered_front {M : Type} {serialize : M → Except ς (List UInt8)}
    {parse : List UInt8 → Except ε M}
    (undoes : ∀ {msg : M} {body : List UInt8}, serialize msg = .ok body → parse body = .ok msg)
    {max : UInt32} {sent : List M} {stream : List UInt8} {script : List Arrival}
    (written : writeMessages serialize max.toNat sent = .ok stream)
    (arrived : bytesOf script <+: stream) :
    ∃ got ending, Delivers parse max.toNat script (got, ending) ∧ got <+: sent ∧
      (bytesOf script = stream → got = sent ∧ ending = .eof) := by
  have bound : max.toNat < 2 ^ 32 := max.toNat_lt
  have delivers := @delivers_decoded M ε parse max.toNat script
  by_cases whole : bytesOf script = stream
  · rw [whole, decodeFrames_written undoes bound written] at delivers
    exact ⟨sent, .eof, delivers, List.prefix_rfl, fun _ => ⟨rfl, rfl⟩⟩
  · obtain ⟨count, front, part, frontEq, cut, unfinished⟩ := cut_cases bound written arrived
    have nothing : (decodeFrames parse max.toNat part).1 = [] := by
      by_cases begun : part = []
      · rw [begun, decodeFrames_eof rfl]
      · rw [decodeFrames_error (firstFrame_unfinished (unfinished begun) begun)]
    rw [cut, decodeFrames_append (decodeFrames_written undoes bound frontEq), nothing,
      List.append_nil] at delivers
    exact ⟨sent.take count, _, delivers, List.take_prefix count sent, fun same => absurd same whole⟩

/-- A remote read of a consistent snapshot is complete if its client takes it for complete. -/
theorem whole_of_consistent {σ : Type} [Index.SegmentIndex σ] {snapshot : Snapshot σ}
    {watermark : Nat} {log : List Event} (consistent : Consistent snapshot watermark log)
    (serialize : Pb.Response → Except ς (List UInt8))
    (parse : List UInt8 → Except ε Pb.Response)
    (undoes : ∀ {msg : Pb.Response} {body : List UInt8},
      serialize msg = .ok body → parse body = .ok msg)
    (max : UInt32) (display : ReadError → List UInt8) (config : ServerConfig)
    (requestId scanBias : Nat) (query : Query) (cursor : Nat) (reverse : Bool)
    (limit : Option Nat) (job : JobRun) {fuel : Nat} (enough : log.length < fuel) :
    ∃ frames exit,
      spawnRead config requestId snapshot watermark scanBias
          (startRead query cursor reverse limit) job fuel = .ok (some (frames, exit)) ∧
      ∀ sent stream script, sent <+: frames →
        writeMessages serialize max.toNat sent = .ok stream → bytesOf script <+: stream →
        ∃ got ending,
          Delivers parse max.toNat script (got, ending) ∧
          Truthful requestId watermark (kinds display got)
            ((resultOf query cursor reverse limit watermark log).map row) ∧
          (job.Calm → job.Fine → sent = frames → bytesOf script = stream →
            ((⟨requestId, []⟩ : Blocking.Client).step
                (.readAll (some (kinds display got)))).1 =
              .all (.ok ((resultOf query cursor reverse limit watermark log).map row,
                watermark))) := by
  obtain ⟨transcript, exit, ran, honest, -⟩ :=
    runJob_sends consistent config requestId scanBias query cursor reverse limit job enough
  refine ⟨transcript.frames requestId, exit, ?_, ?_⟩
  · rw [spawnRead, startRead, queryFromPb_toPb]
    exact congrArg Except.ok ran
  intro sent stream script front written arrived
  obtain ⟨got, ending, delivers, first, all⟩ := delivered_front undoes written arrived
  refine ⟨got, ending, delivers, truthful_of_honest honest (first.trans front), ?_⟩
  intro calm fine complete same
  obtain ⟨rfl, -⟩ := all same
  subst complete
  obtain ⟨batches, whole, sent⟩ := @runJob_calm _ _ config requestId watermark job snapshot log
    consistent calm fine scanBias query cursor reverse limit fuel enough
  rw [ran] at sent
  obtain ⟨frames, -⟩ := Prod.mk.inj (Option.some.inj sent)
  rw [(Blocking.Client.readAll_aligned rfl _).1, Op.answered, frames, all_kinds, whole]

theorem resultOf_append {query : Query} {cursor : Nat} {reverse : Bool} {limit : Option Nat}
    {watermark : Nat} {log more : List Event}
    (covered : watermark < Log.firstPosition + log.length) :
    resultOf query cursor reverse limit watermark (log ++ more) =
      resultOf query cursor reverse limit watermark log := by
  rw [resultOf, resultOf, scanOracle_append (.inl covered),
    scanOracle_append (.inl ((min_le_right _ _).trans_lt covered))]

/-- A remote read that its client takes for complete is complete: it has the events that match
up to its watermark, whatever fails, and in whatever pieces the bytes of the frames arrive, if the
active segment of the log that was opened does not have too many types and no append fails behind
its rollover.  If nothing fails, the read is complete. -/
theorem remote_read_whole {format : MapFormat} (lawful : format.Lawful)
    {crc : List UInt8 → UInt32} {set : SegmentedLog} {index : IndexSet format}
    (opened : Worker.Opened crc set index)
    (few : (distinctTypes set.active.events).length ≤ maxTypeId + 1) (cfg : WriterConfig)
    {labels : List WorkerStep} {worker : Worker format}
    (run : Worker.Timely crc (.start cfg set index) labels worker) {moment : Moment}
    (allowed : worker.LoadAllowed moment) {snapshot : Snapshot (IndexSegment format)}
    (loaded : worker.shown moment = some snapshot) {watermark : Nat}
    (published : watermark ≤ worker.watermark)
    (serialize : Pb.Response → Except ς (List UInt8))
    (parse : List UInt8 → Except ε Pb.Response)
    (undoes : ∀ {msg : Pb.Response} {body : List UInt8},
      serialize msg = .ok body → parse body = .ok msg)
    (max : UInt32) (display : ReadError → List UInt8) (config : ServerConfig)
    (requestId scanBias : Nat) (query : Query) (cursor : Nat) (reverse : Bool)
    (limit : Option Nat) (job : JobRun) {fuel : Nat}
    (enough : worker.set.events.length + worker.batch.records.length < fuel) :
    ∃ frames exit,
      spawnRead config requestId snapshot watermark scanBias
          (startRead query cursor reverse limit) job fuel = .ok (some (frames, exit)) ∧
      ∀ sent stream script, sent <+: frames →
        writeMessages serialize max.toNat sent = .ok stream → bytesOf script <+: stream →
        ∃ got ending,
          Delivers parse max.toNat script (got, ending) ∧
          Truthful requestId watermark (kinds display got)
            ((resultOf query cursor reverse limit watermark worker.set.events).map row) ∧
          (job.Calm → job.Fine → sent = frames → bytesOf script = stream →
            ((⟨requestId, []⟩ : Blocking.Client).step
                (.readAll (some (kinds display got)))).1 =
              .all (.ok ((resultOf query cursor reverse limit watermark
                worker.set.events).map row, watermark))) := by
  obtain ⟨sound, aligned⟩ :=
    run.kept lawful (opened.sound_start lawful cfg) (opened.aligned_start lawful few cfg)
  have serves : worker.Serves := ⟨sound, aligned⟩
  obtain ⟨more, short, consistent⟩ := serves.shown_consistent allowed loaded published
  have whole := whole_of_consistent consistent serialize parse undoes max display config requestId
    scanBias query cursor reverse limit job
    (show (worker.set.events ++ more).length < fuel by rw [List.length_append]; omega)
  have covered := serves.watermark_eq
  have started : Log.firstPosition = 1 := rfl
  rwa [resultOf_append (by omega)] at whole

/-- The two responses to a read of one event, as they are serialized. -/
def serializeOne : Pb.Response → Except Unit (List UInt8)
  | ⟨2, .readEvents [⟨1, ⟨[97], [], []⟩⟩]⟩ => .ok [8, 2, 26, 9, 10, 7, 8, 1, 18, 3, 10, 1, 97]
  | ⟨2, .readEnd 1⟩ => .ok [8, 2, 34, 2, 8, 1]
  | _ => .error ()

def parseOne : List UInt8 → Except Unit Pb.Response
  | [8, 2, 26, 9, 10, 7, 8, 1, 18, 3, 10, 1, 97] => .ok ⟨2, .readEvents [⟨1, ⟨[97], [], []⟩⟩]⟩
  | [8, 2, 34, 2, 8, 1] => .ok ⟨2, .readEnd 1⟩
  | _ => .error ()

theorem parseOne_undoes {msg : Pb.Response} {body : List UInt8}
    (serialized : serializeOne msg = .ok body) : parseOne body = .ok msg := by
  unfold serializeOne at serialized
  split at serialized
  · cases serialized
    rfl
  · cases serialized
    rfl
  · cases serialized

/-- The bytes of the two frames, the second one interrupted. -/
def pieces : List Arrival :=
  [.data 0 [0, 0, 13, 8, 2, 26, 9, 10, 7, 8, 1, 18, 3, 10, 1, 97, 0, 0], .interrupted,
    .data 0 [6, 8, 2, 34, 2, 8, 1]]

/-- The event is committed, and another one behind a rollover after the watermark was loaded. -/
def readRun : List WorkerStep :=
  [.request ⟨[Worker.untaggedEvent], none⟩, .commit .appended 7,
    .request ⟨[Worker.untaggedEvent], none⟩, .commit .rolledOver 7]

/-- The event, and the end of the read. -/
def showsRead : Except ConvertError (Option (List Pb.Response × JobExit)) → Bool
  | .ok (some ([⟨2, .readEvents [⟨1, ⟨[97], [], []⟩⟩]⟩, ⟨2, .readEnd 1⟩], .returned)) => true
  | _ => false

theorem remote_read_whole_one :
    ∃ got ending, Delivers parseOne 64 pieces (got, ending) ∧
      ((⟨2, []⟩ : Blocking.Client).step
          (.readAll (some (kinds (fun _ => []) got)))).1 =
        .all (.ok ([row ⟨1, Worker.untaggedEvent⟩], 1)) := by
  have computed : (Histories.run (Worker.step Seglog.crc32)
      (.start Worker.plainConfig Writer.emptyLog (IndexSet.new flatTable 1)) readRun).any
        (fun worker => decide (worker.watermark = 2 ∧ worker.batch.records = [] ∧
          worker.set.events = [Worker.untaggedEvent, Worker.untaggedEvent]) &&
        showsRead (spawnRead smallFrames 2 worker.snapshot 1 4 (startRead .all 0 false none)
          (plainJob fun _ => .fine) 3)) = true := by
    decide +kernel
  obtain ⟨worker, ran, shown⟩ := (Option.any_eq_true _ _).mp computed
  rw [Bool.and_eq_true, decide_eq_true_eq] at shown
  obtain ⟨⟨watermark, unstaged, events⟩, sent⟩ := shown
  obtain ⟨frames, exit, served, arrives⟩ := remote_read_whole flatTable_lawful
    Worker.emptyLog_opened (by decide) Worker.plainConfig ⟨by decide +kernel, by decide, ran⟩
    (show worker.LoadAllowed .between by trivial) rfl (show 1 ≤ worker.watermark by omega)
    serializeOne parseOne parseOne_undoes 64 (fun _ => []) smallFrames 2 4 .all 0 false none (plainJob fun _ => .fine)
    (show _ < 3 by rw [unstaged, events]; decide)
  rw [served] at sent
  unfold showsRead at sent
  split at sent
  · next given =>
    cases given
    obtain ⟨got, ending, delivers, -, whole⟩ := arrives _ (bytesOf pieces) pieces List.prefix_rfl
      (by decide +kernel) List.prefix_rfl
    refine ⟨got, ending, delivers, ?_⟩
    rw [whole (plainJob_calm _) ⟨rfl, fun _ => rfl⟩ rfl rfl, events]
    rfl
  · cases sent

end Remote

end Tephra
