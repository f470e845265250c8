import Tephra.EmbeddedReads
import Tephra.ReadAnswers

/-!
# The results of an embedded pool

A stream that ends without an error, and a `read_all` that returns events, has the whole
result of its read.  The exception is a stream of a pool that was shut down before the
read was over: it ends with the first events of the result.
-/

namespace Tephra.Embedded

open Histories Parties
open Read (Sequenced ReadError Snapshot Consistent Reads)

/-- What the loop of `run_job` sees of the items that a read yields. -/
def Scan.of : List (Except ReadError Sequenced) → Scan
  | [] => ⟨[], none⟩
  | .error error :: _ => ⟨[], some error⟩
  | .ok row :: items => ⟨row :: (Scan.of items).events, (Scan.of items).error⟩

theorem Scan.of_ok (events : List Sequenced) : Scan.of (events.map Except.ok) = ⟨events, none⟩ := by
  induction events with
  | nil => rfl
  | cons row events ih => rw [List.map_cons, Scan.of, ih]

/-- The scan is that of a read, planned over a snapshot of the log. -/
def Scan.Planned (scan : Scan) (query : Query) (cursor : Nat) (reverse : Bool)
    (limit : Option Nat) (watermark : Nat) (log : List Event) : Prop :=
  ∃ (σ : Type) (_ : Index.SegmentIndex σ) (snapshot : Snapshot σ) (scanBias fuel : Nat)
    (reads last : Reads σ) (items : List (Except ReadError Sequenced)),
    Consistent snapshot watermark log ∧ log.length < fuel ∧
    (if reverse then Read.readBack watermark snapshot scanBias query cursor limit
      else Read.read watermark snapshot scanBias query cursor limit) = some reads ∧
    reads.drive fuel = some (items, last) ∧ scan = Scan.of items

theorem Scan.Planned.events {scan : Scan} {query : Query} {cursor : Nat} {reverse : Bool}
    {limit : Option Nat} {watermark : Nat} {log : List Event}
    (planned : scan.Planned query cursor reverse limit watermark log) :
    scan.events = Server.resultOf query cursor reverse limit watermark log := by
  obtain ⟨σ, index, snapshot, scanBias, fuel, reads, last, items, consistent, enough, readsEq,
    drivenEq, rfl⟩ := planned
  obtain ⟨others, exhausted, othersEq, -, yields⟩ :=
    Server.planned_yields consistent scanBias query cursor reverse limit
  rw [readsEq] at othersEq
  cases othersEq
  have short := Server.length_resultOf_le query cursor reverse limit watermark log
  obtain ⟨end_, wholeEq, -⟩ := yields.drive_eq (short.trans_lt enough)
  rw [drivenEq] at wholeEq
  cases wholeEq
  rw [Scan.of_ok]

/-- In every history, a consumer receives the first events of its read, and a clean end
comes behind all of them unless the pool was shut down before the read was over.  A
`read_all` has no such exception: it keeps the pool from being dropped. -/
theorem clean_end_complete {config : ReadPoolConfig} {labels : List PoolStep} {pool : ReadPool}
    {place : Nat} {read : PooledRead}
    (reached : run ReadPool.step (ReadPool.start config) labels = some pool)
    (found : pool.reads[place]? = some read) :
    rows read.received <+: read.events ∧
      (read.ended = true → ¬ Faulty read.received →
        read.collecting = true ∨ read.interrupted = false →
        ∃ scan, read.scan = some scan ∧ scan.error = none ∧ rows read.received = scan.events ∧
          ∀ query cursor reverse limit watermark log,
            scan.Planned query cursor reverse limit watermark log →
            rows read.received = Server.resultOf query cursor reverse limit watermark log) := by
  have straight := (ReadPool.sound_of_run reached).2.straight place read found
  constructor
  · have within := straight.within
    rw [PooledRead.sent, rows_append] at within
    exact (List.prefix_append _ _).trans within
  · intro ended clean whole
    have uncut : read.interrupted ≠ true := by
      intro cut
      rcases whole with collecting | uncut
      · have open_ := (straight.borrowed collecting cut).2
        rw [ended] at open_
        cases open_
      · rw [cut] at uncut
        cases uncut
    obtain ⟨scan, scanEq, noError, complete⟩ :=
      ((straight.ended ended).2.2.resolve_left clean).resolve_left uncut
    refine ⟨scan, scanEq, noError, complete, ?_⟩
    intro query cursor reverse limit watermark log planned
    rw [complete, planned.events]

/-- One worker, and batches of one event. -/
def smallPool : ReadPoolConfig := ⟨1, 1, 1, 1, 1⟩

/-- A row at a position. -/
def rowAt (position : Nat) : Sequenced := ⟨position, Read.plainEvent⟩

/-- A stream that has received one row of a scan and its end. -/
def endedStream (scan : Scan) (interrupted : Bool) : PooledRead :=
  ⟨false, .streaming, .gone, [], [.ok [rowAt 1]], true, some scan, interrupted⟩

theorem endedStream_clean (scan : Scan) (interrupted : Bool) :
    ¬ Faulty (endedStream scan interrupted).received := by
  rintro ⟨error, mem⟩
  simp [endedStream] at mem

/-- The pool with that stream and an idle worker. -/
def endedPool (scan : Scan) (shutdown : Bool) : ReadPool :=
  ⟨smallPool, [.idle], [endedStream scan shutdown], [], shutdown, true⟩

/-- A stream takes two batches of one event each, and its end. -/
def twoBatches : List PoolStep :=
  [.read false, .submit 0, .take 0, .begin 0 ⟨[rowAt 1, rowAt 2], none⟩, .next 0, .check 0,
    .send 0, .next 0, .poll 0, .check 0, .send 0, .next 0, .poll 0, .poll 0]

def completeStream : PooledRead :=
  ⟨false, .streaming, .gone, [], [.ok [rowAt 1], .ok [rowAt 2]], true,
    some ⟨[rowAt 1, rowAt 2], none⟩, false⟩

theorem clean_end_complete_twoBatches :
    ∃ pool, run ReadPool.step (ReadPool.start smallPool) twoBatches = some pool ∧
      pool.reads[0]? = some completeStream ∧
      rows completeStream.received = [rowAt 1, rowAt 2] := by
  refine ⟨_, rfl, rfl, ?_⟩
  have clean : ¬ Faulty completeStream.received := by
    rintro ⟨error, mem⟩
    simp [completeStream] at mem
  obtain ⟨scan, scanEq, -, whole, -⟩ := (@clean_end_complete smallPool twoBatches _ 0
    completeStream rfl rfl).2 rfl clean (Or.inr rfl)
  cases scanEq
  exact whole

/-- The pool is shut down while a stream has a batch in its channel and another one to
come: it ends without an error, and the other one is missing. -/
theorem cut_stream_ends_clean :
    ¬ ∀ (config : ReadPoolConfig) (labels : List PoolStep) (pool : ReadPool) (place : Nat)
        (read : PooledRead),
      run ReadPool.step (ReadPool.start config) labels = some pool →
      pool.reads[place]? = some read → read.ended = true → ¬ Faulty read.received →
      rows read.received = read.events := by
  intro complete
  have whole := complete smallPool
    [.read false, .submit 0, .take 0, .begin 0 ⟨[rowAt 1, rowAt 2], none⟩, .next 0, .check 0,
      .send 0, .next 0, .signal, .check 0, .poll 0, .poll 0]
    (endedPool ⟨[rowAt 1, rowAt 2], none⟩ true) 0 _ rfl rfl rfl (endedStream_clean _ _)
  have short := congrArg List.length whole
  simp [endedStream, PooledRead.events, rows] at short

end Tephra.Embedded
