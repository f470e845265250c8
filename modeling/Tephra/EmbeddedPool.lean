import Tephra.Histories
import Tephra.Parties
import Tephra.EventCodec
import Tephra.ReadPlan

/-!
# The embedded read pool

A pool of workers runs blocking reads for an async application.  A read is submitted
when its stream is first polled; a worker scans it and sends batches of events into its
bounded channel; the channel is closed when the last sender of it is dropped.
-/

namespace Tephra.Embedded

open Histories Parties
open Read (Sequenced ReadError)

/-- A read error, which ends a stream as its last item. -/
inductive PoolError
  | failed (source : ReadError)
  /-- The read has panicked. -/
  | aborted
deriving DecidableEq, Repr

/-- One batch of matched events, or the error that ended the scan. -/
abbrev ReadItem := Except PoolError (List Sequenced)

/-- All that the scan of a read comes to: its events, and the error behind them. -/
structure Scan where
  events : List Sequenced
  error : Option ReadError

inductive ConsumerPhase
  /-- Never polled: its future holds the job, and a stream a job sender beside it. -/
  | submitting
  /-- Its submission has found the queue full and has not been polled to its end. -/
  | waiting
  /-- The submission is done, and what is received is the result. -/
  | streaming
  /-- The receiver is gone: the consumer has dropped it, or `read_all` has returned. -/
  | dropped
deriving DecidableEq, Repr

/-- Where the job of a read is, and with it the senders of its result. -/
inductive Stage
  /-- In the future of its consumer. -/
  | held
  /-- In the job queue, or in a pending send to it. -/
  | queued
  /-- With a worker, before the scan. -/
  | taken
  /-- In the loop of `run_job`, with what is left of the scan and the batch so far. -/
  | scanning (rest : Scan) (batch : List Sequenced) (batchBytes : Nat)
  /-- In `send_item`; the rest is what `run_job` goes on with, if it does. -/
  | sending (item : ReadItem) (rest : Option Scan) (checked : Bool)
  /-- In the send of the abort report, after a panic. -/
  | aborting
  /-- Every sender of the result is dropped. -/
  | gone

/-- A read with its consumer, its channel and what the consumer has received.  Its whole
scan is kept beside, and whether the pool was shut down before the read was over. -/
structure PooledRead where
  collecting : Bool
  phase : ConsumerPhase
  stage : Stage
  channel : List ReadItem
  received : List ReadItem
  ended : Bool
  scan : Option Scan
  interrupted : Bool

inductive Worker
  /-- In `rx.recv()`. -/
  | idle
  | busy (job : Nat)
  | exited
deriving DecidableEq, Repr

structure ReadPoolConfig where
  workers : Nat
  batchEvents : Nat
  batchBytes : Nat
  channelDepth : Nat
  queueCapacity : Nat
deriving DecidableEq, Repr

/-- A pool.  The first jobs of those pending are in its queue; the others are in sends
that await room.  `sender` is the job sender of the pool itself. -/
structure ReadPool where
  config : ReadPoolConfig
  workers : List Worker
  reads : List PooledRead
  pending : List Nat
  shutdown : Bool
  sender : Bool

inductive PoolStep
  /-- `read` and `read_back`, or `read_all` and `read_all_back`. -/
  | read (collecting : Bool)
  /-- The first poll of a consumer. -/
  | submit (place : Nat)
  /-- A later poll of a submission that was pending. -/
  | resume (place : Nat)
  | poll (place : Nat)
  | drop (place : Nat)
  /-- The pool is dropped: the flag is set, and then the job sender is dropped. -/
  | signal
  | release
  /-- A worker receives a job, or the end of the queue. -/
  | take (worker : Nat)
  | begin (worker : Nat) (scan : Scan)
  /-- One turn of the loop over the scan. -/
  | next (worker : Nat)
  /-- `send_item` looks at the shutdown flag. -/
  | check (worker : Nat)
  /-- `send_timeout` sends, times out or finds the receiver gone. -/
  | send (worker : Nat)
  | panic (worker : Nat)
  /-- The abort report is sent, or finds the receiver gone. -/
  | abort (worker : Nat)

/-- The worker that makes a step. -/
def PoolStep.worker : PoolStep → Option Nat
  | .take worker => some worker
  | .begin worker _ => some worker
  | .next worker => some worker
  | .check worker => some worker
  | .send worker => some worker
  | .panic worker => some worker
  | .abort worker => some worker
  | _ => none

namespace PooledRead

def new (collecting : Bool) : PooledRead :=
  ⟨collecting, .submitting, .held, [], [], false, none, false⟩

/-- The result has a receiver. -/
def receiver (self : PooledRead) : Bool :=
  decide (self.phase ≠ .dropped)

/-- The consumer holds a job sender: the future of a stream has a clone of it until the
submission is done, and `read_all` borrows the one of the pool. -/
def holdsSender (self : PooledRead) : Bool :=
  !self.collecting && (decide (self.phase = .submitting) || decide (self.phase = .waiting))

/-- The next item of the result, or its end. -/
def poll (self : PooledRead) : Option PooledRead :=
  match self.channel with
  | .ok batch :: channel =>
      some { self with channel := channel, received := self.received ++ [.ok batch] }
  | .error error :: channel =>
      some { self with
        channel := channel
        received := self.received ++ [.error error]
        phase := if self.collecting then .dropped else self.phase }
  | [] =>
      match self.stage with
      | .gone =>
          some { self with
            ended := true
            phase := if self.collecting then .dropped else self.phase }
      | _ => none

/-- One turn of the loop of `run_job`. -/
def next (config : ReadPoolConfig) (rest : Scan) (batch : List Sequenced) (batchBytes : Nat) :
    Stage :=
  match rest.events with
  | row :: events =>
      let batchBytes := batchBytes + row.event.asBytes.length
      let batch := batch ++ [row]
      if batch.length ≥ config.batchEvents ∨ batchBytes ≥ config.batchBytes then
        .sending (.ok batch) (some ⟨events, rest.error⟩) false
      else .scanning ⟨events, rest.error⟩ batch batchBytes
  | [] =>
      match rest.error with
      | some error => .sending (.error (.failed error)) none false
      | none => if batch.isEmpty then .gone else .sending (.ok batch) none false

/-- `send_timeout`: the item goes into a channel with room, or the worker gives up on a
receiver that is gone, or it comes back to look at the flag again. -/
def send (config : ReadPoolConfig) (self : PooledRead) (item : ReadItem) (rest : Option Scan) :
    PooledRead :=
  if self.receiver = false then { self with stage := .gone }
  else if self.channel.length < config.channelDepth then
    { self with
      channel := self.channel ++ [item]
      stage :=
        match rest with
        | some rest => .scanning rest [] 0
        | none => .gone }
  else { self with stage := .sending item rest false }

/-- The blocking send of the abort report. -/
def abort (config : ReadPoolConfig) (self : PooledRead) : Option PooledRead :=
  if self.receiver = false then some { self with stage := .gone }
  else if self.channel.length < config.channelDepth then
    some { self with channel := self.channel ++ [.error .aborted], stage := .gone }
  else none

/-- The step of the worker that runs a read, with the shutdown flag. -/
def run (config : ReadPoolConfig) (shutdown : Bool) (self : PooledRead) :
    PoolStep → Option PooledRead
  | .begin _ scan =>
      match self.stage with
      | .taken => some { self with stage := .scanning scan [] 0, scan := some scan }
      | _ => none
  | .next _ =>
      match self.stage with
      | .scanning rest batch batchBytes =>
          some { self with stage := PooledRead.next config rest batch batchBytes }
      | _ => none
  | .check _ =>
      match self.stage with
      | .sending item rest false =>
          if shutdown then some { self with stage := .gone }
          else some { self with stage := .sending item rest true }
      | _ => none
  | .send _ =>
      match self.stage with
      | .sending item rest true => some (self.send config item rest)
      | _ => none
  | .panic _ =>
      match self.stage with
      | .taken => some { self with stage := .aborting }
      | .scanning _ _ _ => some { self with stage := .aborting }
      | _ => none
  | .abort _ =>
      match self.stage with
      | .aborting => self.abort config
      | _ => none
  | _ => none

/-- The consumer goes away.  A job that it still holds goes with it. -/
def drop (self : PooledRead) (hooked : Bool) : PooledRead :=
  { self with
    phase := .dropped
    channel := []
    stage :=
      match self.stage with
      | .held => .gone
      | .queued => if hooked then .gone else .queued
      | stage => stage }

/-- The pool is shut down: a read that is not over is interrupted. -/
def interrupt (self : PooledRead) : PooledRead :=
  match self.stage with
  | .gone => self
  | _ => { self with interrupted := true }

end PooledRead

namespace ReadPool

/-- `with_config`. -/
def start (config : ReadPoolConfig) : ReadPool where
  config :=
    { workers := max config.workers 1
      batchEvents := max config.batchEvents 1
      batchBytes := max config.batchBytes 1
      channelDepth := max config.channelDepth 1
      queueCapacity := max config.queueCapacity 1 }
  workers := List.replicate (max config.workers 1) .idle
  reads := []
  pending := []
  shutdown := false
  sender := true

/-- A job sender is left. -/
def hasSender (pool : ReadPool) : Bool :=
  pool.sender || pool.reads.any PooledRead.holdsSender

/-- The send of a job awaits room in the queue. -/
def hooked (pool : ReadPool) (place : Nat) : Bool :=
  (pool.pending.drop pool.config.queueCapacity).contains place

def put (pool : ReadPool) (place : Nat) (moved : PooledRead) : ReadPool :=
  { pool with reads := pool.reads.set place moved }

/-- Submit a job: to the queue, or to a send that awaits room. -/
def submit (pool : ReadPool) (place : Nat) (read : PooledRead) : ReadPool :=
  if pool.workers.all (· = .exited) then
    pool.put place { read with phase := .streaming, stage := .gone }
  else
    { pool.put place
        { read with
          phase := if pool.pending.length < pool.config.queueCapacity then .streaming else .waiting
          stage := .queued } with
      pending := pool.pending ++ [place] }

/-- A worker receives the first job of the queue, or leaves when no job can come. -/
def take (pool : ReadPool) (worker : Nat) : Option ReadPool :=
  match pool.pending with
  | place :: pending =>
      match pool.reads[place]? with
      | some read =>
          some { pool.put place { read with stage := .taken } with
            pending := pending
            workers := pool.workers.set worker (.busy place) }
      | none => none
  | [] =>
      if pool.hasSender then none
      else some { pool with workers := pool.workers.set worker .exited }

/-- A worker inside a job makes a step, and is idle again when the job is over. -/
def work (pool : ReadPool) (worker : Nat) (label : PoolStep) : Option ReadPool :=
  match pool.workers[worker]? with
  | some (.busy place) => do
      let read ← pool.reads[place]?
      let moved ← read.run pool.config pool.shutdown label
      match moved.stage with
      | .gone => some { pool.put place moved with workers := pool.workers.set worker .idle }
      | _ => some (pool.put place moved)
  | _ => none

def step (pool : ReadPool) (label : PoolStep) : Option ReadPool :=
  match label with
  | .read collecting =>
      if pool.shutdown then none
      else some { pool with reads := pool.reads ++ [PooledRead.new collecting] }
  | .submit place => do
      let read ← pool.reads[place]?
      if read.phase = .submitting then some (pool.submit place read) else none
  | .resume place => do
      let read ← pool.reads[place]?
      if read.phase = .waiting ∧ pool.hooked place = false then
        some (pool.put place { read with phase := .streaming })
      else none
  | .poll place => do
      let read ← pool.reads[place]?
      if read.phase = .streaming then
        (read.poll).map fun moved => pool.put place moved
      else none
  | .drop place => do
      let read ← pool.reads[place]?
      if read.phase ≠ .dropped then
        some { pool.put place (read.drop (pool.hooked place)) with
          pending := if pool.hooked place then pool.pending.erase place else pool.pending }
      else none
  | .signal =>
      -- `read_all` borrows the pool, which cannot be dropped before it has returned
      if pool.shutdown = false ∧
          pool.reads.all (fun read => !read.collecting || decide (read.phase = .dropped)) then
        some { pool with shutdown := true, reads := pool.reads.map PooledRead.interrupt }
      else none
  | .release =>
      if pool.shutdown ∧ pool.sender then some { pool with sender := false } else none
  | .take worker =>
      if pool.workers[worker]? = some .idle then pool.take worker else none
  | .begin worker _ => pool.work worker label
  | .next worker => pool.work worker label
  | .check worker => pool.work worker label
  | .send worker => pool.work worker label
  | .panic worker => pool.work worker label
  | .abort worker => pool.work worker label

end ReadPool

end Tephra.Embedded
