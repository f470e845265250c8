import Tephra.ReadPool
import Tephra.ReadResponses

/-!
# The answer of a read

A worker of the pool runs the job of a read: it takes the permit that the admission
deferred, looks at the cancel flag, plans the read and streams it.  Every call of
`next` may fail or panic, and the pool drops what it catches.  A read that is not
cancelled, on a connection that stays, is answered with its result in order and one
terminal frame exactly if no call that it makes panics.
-/

namespace Tephra

namespace Server

open Protobuf Read

/-- What a call of `next`, with the work on its item, comes to. -/
inductive CallOutcome
  /-- What the snapshot has. -/
  | fine
  | fails (source : ReadError)
  | panics

/-- How a job ends. -/
inductive JobExit
  | returned
  | unwound
deriving DecidableEq, Repr

/-- What a job meets: its admission and whether an overflow read gets its permit
before it is cancelled, its flag when it starts, and what its calls come to. -/
structure JobRun where
  admission : Admission
  acquires : Bool
  cancelled : Bool
  planPanics : Bool
  call : Nat → CallOutcome
  conn : ConnCtx

namespace JobRun

/-- The request is not cancelled, and its connection takes every frame. -/
def Calm (job : JobRun) : Prop :=
  (job.admission = .overflow → job.acquires = true) ∧ job.cancelled = false ∧
    (∀ item, job.conn.shouldContinue item = true) ∧ ∀ frame, job.conn.sendBulk frame = true

/-- One of the next calls panics, and none before it fails. -/
def UnwindsFrom (job : JobRun) (taken calls : Nat) : Prop :=
  ∃ call < calls, job.call (taken + call) = .panics ∧
    ∀ earlier < call, job.call (taken + earlier) = .fine

/-- The plan or a call panics, of a read with a given number of events. -/
def Unwinds (job : JobRun) (events : Nat) : Prop :=
  job.planPanics = true ∨ job.UnwindsFrom 0 (events + 1)

theorem unwindsFrom_succ {job : JobRun} {taken calls : Nat} :
    job.UnwindsFrom taken (calls + 1) ↔
      job.call taken = .panics ∨ job.call taken = .fine ∧ job.UnwindsFrom (taken + 1) calls := by
  constructor
  · rintro ⟨call, bound, panics, fine⟩
    cases call with
    | zero => exact Or.inl panics
    | succ call =>
        right
        constructor
        · exact fine 0 (Nat.succ_pos call)
        · refine ⟨call, by omega, ?_, ?_⟩
          · rw [Nat.add_right_comm]
            exact panics
          · intro earlier below
            rw [Nat.add_right_comm]
            exact fine (earlier + 1) (by omega)
  · rintro (panics | ⟨here, call, bound, panics, fine⟩)
    · exact ⟨0, Nat.succ_pos calls, panics, by simp⟩
    · refine ⟨call + 1, by omega, ?_, ?_⟩
      · rw [← Nat.add_right_comm] at panics
        exact panics
      · intro earlier below
        cases earlier with
        | zero => exact here
        | succ earlier =>
            have before := fine earlier (by omega)
            rw [← Nat.add_right_comm] at before
            exact before

end JobRun

section Job

variable {σ : Type}

/-- The loop of a read that may fail or unwind, with the frames it has sent.  It is
`none` when the fuel is spent. -/
def stream (config : ServerConfig) (requestId watermark : Nat) (job : JobRun) :
    (fuel : Nat) → (taken : Nat) → Reads σ → Batch → (out : List Pb.Response) →
      Option (List Pb.Response × JobExit)
  | 0, _, _, _, _ => none
  | fuel + 1, taken, reads, batch, out =>
      match job.call taken, reads.next with
      | .panics, _ => some (out, .unwound)
      | .fine, none => some (out, .unwound)
      | .fails source, _ =>
          if !job.conn.shouldContinue taken then
            some (out, .returned)
          else
            some (out ++ [⟨requestId, .error source⟩], .returned)
      | .fine, some (none, _) =>
          some (finish requestId watermark job.conn batch out, .returned)
      | .fine, some (some item, reads) =>
          if !job.conn.shouldContinue taken then
            some (out, .returned)
          else
            match item with
            | .error source => some (out ++ [⟨requestId, .error source⟩], .returned)
            | .ok sequenced =>
                let batch := batch.push sequenced
                if batch.full config then
                  let sent := out ++ [⟨requestId, .readEvents batch.events⟩]
                  if job.conn.sendBulk out.length then
                    stream config requestId watermark job fuel (taken + 1) reads .empty sent
                  else
                    some (sent, .returned)
                else
                  stream config requestId watermark job fuel (taken + 1) reads batch out

/-- `ReadJob::run`. -/
def runJob [Index.SegmentIndex σ] (config : ServerConfig) (requestId : Nat)
    (snapshot : Snapshot σ) (watermark scanBias : Nat) (query : Query) (cursor : Nat)
    (reverse : Bool) (limit : Option Nat) (job : JobRun) (fuel : Nat) :
    Option (List Pb.Response × JobExit) :=
  if job.admission = .overflow ∧ job.acquires = false then
    some ([], .returned)
  else if job.cancelled then
    some ([], .returned)
  else if job.planPanics then
    some ([], .unwound)
  else
    let planned :=
      if reverse then readBack watermark snapshot scanBias query cursor limit
      else read watermark snapshot scanBias query cursor limit
    match planned with
    | none => some ([], .unwound)
    | some reads => stream config requestId reads.watermark job fuel 0 reads .empty []

/-- What the pool leaves of a job: its frames, and nothing of a panic. -/
def catchUnwind (result : List Pb.Response × JobExit) : List Pb.Response :=
  result.1

end Job

/-- The frames of a read: batches of events, and a terminal one. -/
structure Transcript where
  batches : List (List Sequenced)
  terminal : Option Pb.ResponseKind

namespace Transcript

def frames (transcript : Transcript) (requestId : Nat) : List Pb.Response :=
  transcript.batches.map (eventsResponse requestId) ++
    transcript.terminal.toList.map fun kind => ⟨requestId, kind⟩

/-- The frames tell the truth about some events. -/
structure Honest (transcript : Transcript) (watermark : Nat) (items : List Sequenced) :
    Prop where
  inOrder : transcript.batches.flatten <+: items
  whole : ∀ mark, transcript.terminal = some (.readEnd mark) →
    mark = watermark ∧ transcript.batches.flatten = items
  ends : ∀ events, transcript.terminal ≠ some (.readEvents events)

theorem Honest.cons {transcript : Transcript} {watermark : Nat} {front items : List Sequenced}
    (honest : transcript.Honest watermark items) :
    Honest ⟨front :: transcript.batches, transcript.terminal⟩ watermark (front ++ items) where
  inOrder := by
    rw [List.flatten_cons]
    exact (List.prefix_append_right_inj front).mpr honest.inOrder
  whole := by
    intro mark ended
    obtain ⟨same, all⟩ := honest.whole mark ended
    exact ⟨same, by rw [List.flatten_cons, all]⟩
  ends := honest.ends

theorem frames_cons (front : List Sequenced) (transcript : Transcript) (requestId : Nat) :
    frames ⟨front :: transcript.batches, transcript.terminal⟩ requestId =
      eventsResponse requestId front :: transcript.frames requestId := rfl

theorem honest_of_no_batches {terminal : Option Pb.ResponseKind}
    (silent : ∀ source, terminal = some source → ∃ error, source = .error error)
    (watermark : Nat) (items : List Sequenced) : Honest ⟨[], terminal⟩ watermark items where
  inOrder := List.nil_prefix
  whole := by
    intro mark ended
    obtain ⟨error, isError⟩ := silent _ ended
    simp at isError
  ends := by
    intro events ended
    obtain ⟨error, isError⟩ := silent _ ended
    simp at isError

end Transcript

open Batch

section Answer

variable {σ : Type} {config : ServerConfig} {requestId watermark : Nat} {job : JobRun}

/-- The frames of a job that is done with its read: those sent before, and an honest
transcript of the events that were left.  A calm job stops without a terminal frame
only if it unwinds. -/
def Streamed (job : JobRun) (requestId watermark taken : Nat) (pending items : List Sequenced)
    (out : List Pb.Response) (result : Option (List Pb.Response × JobExit)) : Prop :=
  ∃ (transcript : Transcript) (exit : JobExit),
    result = some (out ++ transcript.frames requestId, exit) ∧
      transcript.Honest watermark (pending ++ items) ∧
        (job.Calm → (transcript.terminal = none ↔ job.UnwindsFrom taken (items.length + 1)))

variable {taken : Nat} {pending items : List Sequenced} {out : List Pb.Response}
  {exit : JobExit}

theorem streamed_stop (unwinds : job.Calm → job.UnwindsFrom taken (items.length + 1)) :
    Streamed job requestId watermark taken pending items out (some (out, exit)) := by
  refine ⟨⟨[], none⟩, exit, ?_, ?_, ?_⟩
  · simp [Transcript.frames]
  · exact Transcript.honest_of_no_batches (by simp) _ _
  · intro calm
    simpa using unwinds calm

theorem streamed_halt (stopped : ¬ job.conn.shouldContinue taken = true) :
    Streamed job requestId watermark taken pending items out (some (out, exit)) := by
  apply streamed_stop
  intro calm
  exact absurd (calm.2.2.1 taken) stopped

theorem streamed_refused {front : List Sequenced} (inside : front <+: pending ++ items)
    (disturbed : ¬ job.Calm) :
    Streamed job requestId watermark taken pending items out
      (some (out ++ [eventsResponse requestId front], exit)) := by
  refine ⟨⟨[front], none⟩, exit, rfl, ⟨?_, by simp, by simp⟩, ?_⟩
  · simpa using inside
  · intro calm
    exact absurd calm disturbed

theorem streamed_error (source : ReadError)
    (survives : ¬ job.UnwindsFrom taken (items.length + 1)) :
    Streamed job requestId watermark taken pending items out
      (some (out ++ [⟨requestId, .error source⟩], exit)) := by
  refine ⟨⟨[], some (.error source)⟩, exit, rfl, ?_, ?_⟩
  · exact Transcript.honest_of_no_batches (by simp) _ _
  · intro _
    simpa using survives

theorem not_unwindsFrom_of_fails {source : ReadError} (fails : job.call taken = .fails source)
    (calls : Nat) : ¬ job.UnwindsFrom taken (calls + 1) := by
  rw [JobRun.unwindsFrom_succ, fails]
  simp

theorem unwindsFrom_of_fine (fine : job.call taken = .fine) (calls : Nat) :
    job.UnwindsFrom taken (calls + 1) ↔ job.UnwindsFrom (taken + 1) calls := by
  rw [JobRun.unwindsFrom_succ, fine]
  simp

/-- The last frames of a read are its pending events and the end. -/
theorem streamed_finish (fine : job.call taken = .fine) :
    Streamed job requestId watermark taken pending [] out
      (some (finish requestId watermark job.conn (Batch.of pending) out, exit)) := by
  have survives : ¬ job.UnwindsFrom taken 1 := by
    rw [unwindsFrom_of_fine fine]
    rintro ⟨call, bound, _⟩
    exact absurd bound (Nat.not_lt_zero call)
  have ended (batches : List (List Sequenced)) (all : batches.flatten = pending) :
      Transcript.Honest ⟨batches, some (.readEnd watermark)⟩ watermark (pending ++ []) := by
    constructor
    case inOrder => simp [all]
    case whole =>
      intro mark sent
      obtain rfl : watermark = mark := by simpa using sent
      exact ⟨rfl, by simp [all]⟩
    case ends => simp
  rw [finish]
  cases pending with
  | nil => exact ⟨⟨[], _⟩, exit, rfl, ended [] rfl, fun _ => by simpa using survives⟩
  | cons item pending =>
      rw [if_neg (by simp [Batch.of])]
      by_cases queued : job.conn.sendBulk out.length = true
      · rw [if_pos queued]
        refine ⟨⟨[item :: pending], _⟩, exit, rfl, ended _ (by simp), ?_⟩
        intro _
        simpa using survives
      · rw [if_neg queued]
        apply streamed_refused
        · simp
        · exact fun calm => queued (calm.2.2.2 _)

theorem Streamed.cons {front : List Sequenced} {result : Option (List Pb.Response × JobExit)}
    (streamed : Streamed job requestId watermark (taken + 1) [] items
      (out ++ [eventsResponse requestId front]) result)
    (fine : job.call taken = .fine) {item : Sequenced} (split : front = pending ++ [item]) :
    Streamed job requestId watermark taken pending (item :: items) out result := by
  obtain ⟨transcript, exit, rfl, honest, ends⟩ := streamed
  refine ⟨⟨front :: transcript.batches, transcript.terminal⟩, exit, ?_, ?_, ?_⟩
  · simp [Transcript.frames_cons]
  · have longer := @honest.cons _ _ front
    rw [split] at longer ⊢
    simpa using longer
  · intro calm
    rw [List.length_cons, unwindsFrom_of_fine fine]
    exact ends calm

/-- The loop of a read sends an honest transcript. -/
theorem stream_sends {exhausted : Bool} {reads : Reads σ}
    (yields : Reads.Yields exhausted reads items) {fuel : Nat} (enough : items.length < fuel) :
    Streamed job requestId watermark taken pending items out
      (stream config requestId watermark job fuel taken reads (Batch.of pending) out) := by
  induction items generalizing reads pending fuel taken out with
  | nil =>
      obtain ⟨fuel, rfl⟩ : ∃ less, fuel = less + 1 := ⟨fuel - 1, by omega⟩
      obtain ⟨last, ended, _⟩ := yields
      rw [stream, ended]
      cases call : job.call taken with
      | fine => exact streamed_finish call
      | fails source =>
          have survives := not_unwindsFrom_of_fails call 0
          by_cases goesOn : job.conn.shouldContinue taken = true
          · simpa [goesOn] using streamed_error source survives
          · simp only [goesOn]
            exact streamed_halt goesOn
      | panics =>
          exact streamed_stop fun _ => JobRun.unwindsFrom_succ.mpr (Or.inl call)
  | cons item items ih =>
      obtain ⟨fuel, rfl⟩ : ∃ less, fuel = less + 1 := ⟨fuel - 1, by omega⟩
      obtain ⟨next, drawn, rest⟩ := yields
      have enough : items.length < fuel := by simpa using enough
      rw [stream, drawn]
      cases call : job.call taken with
      | panics =>
          exact streamed_stop fun _ => JobRun.unwindsFrom_succ.mpr (Or.inl call)
      | fails source =>
          have survives := not_unwindsFrom_of_fails call (items.length + 1)
          by_cases goesOn : job.conn.shouldContinue taken = true
          · simpa [goesOn] using streamed_error source survives
          · simp only [goesOn]
            exact streamed_halt goesOn
      | fine =>
          by_cases goesOn : job.conn.shouldContinue taken = true
          · simp only [goesOn, Bool.not_true, Bool.false_eq_true, if_false, push_of]
            cases (Batch.of (pending ++ [item])).full config with
            | true =>
                by_cases queued : job.conn.sendBulk out.length = true
                · simp only [queued, if_true]
                  exact (@ih _ [] _ _ rest _ enough).cons call rfl
                · simp only [queued]
                  apply streamed_refused
                  · exact ⟨items, by simp⟩
                  · exact fun calm => queued (calm.2.2.2 _)
            | false =>
                obtain ⟨transcript, exit, streamed, honest, ends⟩ :=
                  @ih (taken + 1) (pending ++ [item]) out _ rest _ enough
                refine ⟨transcript, exit, streamed, ?_, ?_⟩
                · simpa using honest
                · intro calm
                  rw [List.length_cons, unwindsFrom_of_fine call]
                  exact ends calm
          · simp only [goesOn]
            exact streamed_halt goesOn

end Answer

/-- The result of a read that is pinned to a watermark. -/
def resultOf (query : Query) (cursor : Nat) (reverse : Bool) (limit : Option Nat)
    (watermark : Nat) (log : List Event) : List Sequenced :=
  if reverse then truncate limit (scanOracle query 0 (min (cursor - 1) watermark) log).reverse
  else truncate limit (scanOracle query cursor watermark log)

/-- Batches of the result in order, all of it or a beginning of it, and one terminal
frame: the end with the watermark behind all of it, or an error. -/
def AnsweredOnce (requestId watermark : Nat) (result : List Sequenced)
    (frames : List Pb.Response) : Prop :=
  ∃ batches : List (List Sequenced),
    (batches.flatten = result ∧
      frames = batches.map (eventsResponse requestId) ++ [⟨requestId, .readEnd watermark⟩]) ∨
    (batches.flatten <+: result ∧ ∃ source,
      frames = batches.map (eventsResponse requestId) ++ [⟨requestId, .error source⟩])

/-- The end of the read comes behind the whole result only. -/
def EndsWhole (requestId watermark : Nat) (result : List Sequenced)
    (frames : List Pb.Response) : Prop :=
  ∀ mark, ⟨requestId, .readEnd mark⟩ ∈ frames → mark = watermark ∧
    ∃ batches : List (List Sequenced), batches.flatten = result ∧
      frames = batches.map (eventsResponse requestId) ++ [⟨requestId, .readEnd watermark⟩]

section Transcripts

variable {requestId watermark : Nat} {result : List Sequenced} {transcript : Transcript}

theorem Transcript.terminal_of_mem {kind : Pb.ResponseKind}
    (member : ⟨requestId, kind⟩ ∈ transcript.frames requestId)
    (noEvents : ∀ events, kind ≠ .readEvents events) : transcript.terminal = some kind := by
  rcases List.mem_append.mp member with batch | terminal
  · obtain ⟨events, _, same⟩ := List.mem_map.mp batch
    cases same
    exact absurd rfl (noEvents _)
  · simpa using terminal

theorem Transcript.Honest.endsWhole (honest : transcript.Honest watermark result) :
    EndsWhole requestId watermark result (transcript.frames requestId) := by
  intro mark member
  have terminal := Transcript.terminal_of_mem member (by simp)
  obtain ⟨rfl, whole⟩ := honest.whole mark terminal
  refine ⟨rfl, transcript.batches, whole, ?_⟩
  simp [Transcript.frames, terminal]

theorem Transcript.Honest.answeredOnce_iff (honest : transcript.Honest watermark result) :
    AnsweredOnce requestId watermark result (transcript.frames requestId) ↔
      transcript.terminal ≠ none := by
  constructor
  · rintro ⟨batches, ⟨_, frames⟩ | ⟨_, source, frames⟩⟩
    · have member : ⟨requestId, .readEnd watermark⟩ ∈ transcript.frames requestId := by
        simp [frames]
      rw [Transcript.terminal_of_mem member (by simp)]
      exact Option.some_ne_none _
    · have member : ⟨requestId, .error source⟩ ∈ transcript.frames requestId := by
        simp [frames]
      rw [Transcript.terminal_of_mem member (by simp)]
      exact Option.some_ne_none _
  · intro present
    refine ⟨transcript.batches, ?_⟩
    cases terminal : transcript.terminal with
    | none => exact absurd terminal present
    | some kind =>
        cases kind with
        | readEvents events => exact absurd terminal (honest.ends events)
        | readEnd mark =>
            obtain ⟨rfl, whole⟩ := honest.whole mark terminal
            exact Or.inl ⟨whole, by simp [Transcript.frames, terminal]⟩
        | error source =>
            exact Or.inr ⟨honest.inOrder, source, by simp [Transcript.frames, terminal]⟩

end Transcripts

section Jobs

variable {σ : Type} [Index.SegmentIndex σ] {snapshot : Snapshot σ} {watermark : Nat}
  {log : List Event}

/-- Every read is planned, pinned to its watermark, and yields its result. -/
theorem planned_yields (consistent : Consistent snapshot watermark log) (scanBias : Nat)
    (query : Query) (cursor : Nat) (reverse : Bool) (limit : Option Nat) :
    ∃ reads exhausted,
      (if reverse then readBack watermark snapshot scanBias query cursor limit
        else read watermark snapshot scanBias query cursor limit) = some reads ∧
      reads.watermark = watermark ∧
      Reads.Yields exhausted reads (resultOf query cursor reverse limit watermark log) := by
  cases reverse with
  | false =>
      obtain ⟨reads, planned, yields⟩ :=
        Reads.plan_yields consistent query cursor scanBias limit
      exact ⟨reads, _, planned, Reads.planDirectional_watermark planned, yields⟩
  | true =>
      obtain ⟨reads, planned, yields⟩ := Reads.planBack_yields consistent query
        (min_le_right (cursor - 1) watermark) scanBias limit
      exact ⟨reads, _, planned, Reads.planDirectional_watermark planned, yields⟩

theorem length_resultOf_le (query : Query) (cursor : Nat) (reverse : Bool) (limit : Option Nat)
    (watermark : Nat) (log : List Event) :
    (resultOf query cursor reverse limit watermark log).length ≤ log.length := by
  rw [resultOf]
  split
  · apply (truncate_isPrefix limit _).length_le.trans
    rw [List.length_reverse]
    exact Reads.length_scanOracle_le ..
  · apply (truncate_isPrefix limit _).length_le.trans
    exact Reads.length_scanOracle_le ..

/-- A job sends an honest transcript of its result, and a calm one sends a terminal
frame unless it unwinds. -/
theorem runJob_sends (consistent : Consistent snapshot watermark log) (config : ServerConfig)
    (requestId scanBias : Nat) (query : Query) (cursor : Nat) (reverse : Bool)
    (limit : Option Nat) (job : JobRun) {fuel : Nat} (enough : log.length < fuel) :
    ∃ (transcript : Transcript) (exit : JobExit),
      runJob config requestId snapshot watermark scanBias query cursor reverse limit job fuel =
          some (transcript.frames requestId, exit) ∧
        transcript.Honest watermark (resultOf query cursor reverse limit watermark log) ∧
        (job.Calm → (transcript.terminal = none ↔
          job.Unwinds (resultOf query cursor reverse limit watermark log).length)) := by
  have silent (items : List Sequenced) : Transcript.Honest ⟨[], none⟩ watermark items :=
    Transcript.honest_of_no_batches (by simp) watermark items
  rw [runJob]
  split
  · rename_i gaveUp
    refine ⟨⟨[], none⟩, .returned, rfl, silent _, ?_⟩
    intro calm
    simp [calm.1 gaveUp.1] at gaveUp
  split
  · rename_i cancelled
    refine ⟨⟨[], none⟩, .returned, rfl, silent _, ?_⟩
    intro calm
    simp [calm.2.1] at cancelled
  split
  · rename_i panics
    refine ⟨⟨[], none⟩, .unwound, rfl, silent _, ?_⟩
    intro _
    simp [JobRun.Unwinds, panics]
  · rename_i plans
    obtain ⟨reads, exhausted, planned, rfl, yields⟩ :=
      planned_yields consistent scanBias query cursor reverse limit
    have short := length_resultOf_le query cursor reverse limit reads.watermark log
    obtain ⟨transcript, exit, streamed, honest, ends⟩ := @stream_sends _ config requestId
      reads.watermark job 0 [] _ [] _ _ yields fuel (by omega)
    refine ⟨transcript, exit, ?_, honest, ?_⟩
    · simp only [planned]
      exact streamed
    · intro calm
      rw [ends calm, JobRun.Unwinds]
      simp [plans]

/-- A read is answered completely and terminated once exactly if it is cancelled, or
its connection goes, or no call that it makes panics. -/
theorem answered_iff_not_unwinds (consistent : Consistent snapshot watermark log)
    (config : ServerConfig) (requestId scanBias : Nat) (query : Query) (cursor : Nat)
    (reverse : Bool) (limit : Option Nat) (job : JobRun) {fuel : Nat}
    (enough : log.length < fuel) :
    ∃ result, runJob config requestId snapshot watermark scanBias query cursor reverse limit job
        fuel = some result ∧
      (((job.Calm → AnsweredOnce requestId watermark
            (resultOf query cursor reverse limit watermark log) (catchUnwind result)) ∧
          EndsWhole requestId watermark
            (resultOf query cursor reverse limit watermark log) (catchUnwind result)) ↔
        (job.Calm → ¬ job.Unwinds
          (resultOf query cursor reverse limit watermark log).length)) := by
  obtain ⟨transcript, exit, ran, honest, ends⟩ :=
    runJob_sends consistent config requestId scanBias query cursor reverse limit job enough
  refine ⟨_, ran, ?_⟩
  rw [catchUnwind, and_iff_left honest.endsWhole, honest.answeredOnce_iff]
  constructor
  · intro answered calm unwinds
    exact answered calm ((ends calm).mpr unwinds)
  · intro survives calm silent
    exact survives calm ((ends calm).mp silent)

end Jobs

/-- A permitted read on a patient connection, with the outcomes of its calls. -/
def plainJob (call : Nat → CallOutcome) : JobRun :=
  ⟨.permitted, true, false, false, call, patient⟩

theorem plainJob_calm (call : Nat → CallOutcome) : (plainJob call).Calm :=
  ⟨fun _ => rfl, rfl, fun _ => rfl, fun _ => rfl⟩

/-- A read of one event, of which the second call fails. -/
theorem answered_plain :
    ∃ result, runJob smallFrames 1 plainSnapshot 1 4 .all 0 false none
        (plainJob fun call => if call = 1 then .fails (.log (.notFound 1)) else .fine) 2 =
          some result ∧
      AnsweredOnce 1 1 (resultOf .all 0 false none 1 [plainEvent]) (catchUnwind result) := by
  obtain ⟨result, ran, answered⟩ := answered_iff_not_unwinds plainSnapshot_consistent smallFrames
    1 4 .all 0 false none
    (plainJob fun call => if call = 1 then .fails (.log (.notFound 1)) else .fine)
    (Nat.lt_succ_self 1)
  refine ⟨result, ran, (answered.mpr ?_).1 (plainJob_calm _)⟩
  rintro _ (planning | ⟨call, _, panics, _⟩)
  · simp [plainJob] at planning
  · simp only [plainJob] at panics
    split at panics <;> simp at panics

/-- A read whose first call panics is not answered. -/
theorem panicked_read_not_answered :
    (plainJob fun _ => .panics).Calm ∧
      runJob smallFrames 1 plainSnapshot 1 4 .all 0 false none (plainJob fun _ => .panics) 2 =
        some ([], .unwound) ∧
      ¬ AnsweredOnce 1 1 (resultOf .all 0 false none 1 [plainEvent])
        (catchUnwind ([], .unwound)) := by
  refine ⟨plainJob_calm _, rfl, ?_⟩
  rintro ⟨batches, ⟨_, frames⟩ | ⟨_, source, frames⟩⟩
  · simp [catchUnwind] at frames
  · simp [catchUnwind] at frames

end Server

end Tephra
