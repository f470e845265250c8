import Tephra.EmbeddedPlaces

/-!
# What the consumer of an embedded read receives

The events that a consumer receives are the first events of the scan.  A result that
ends without an error is the whole scan, unless the pool was shut down while the read
was still to be finished.
-/

namespace Tephra.Embedded

open Histories Parties
open Read (Sequenced ReadError)

/-- The events of some items. -/
def rows (items : List ReadItem) : List Sequenced :=
  items.flatMap fun item =>
    match item with
    | .ok batch => batch
    | .error _ => []

def Faulty (items : List ReadItem) : Prop :=
  ∃ error, (.error error : ReadItem) ∈ items

@[simp]
theorem rows_append (items more : List ReadItem) : rows (items ++ more) = rows items ++ rows more :=
  List.flatMap_append

@[simp]
theorem rows_ok (batch : List Sequenced) : rows [.ok batch] = batch :=
  List.append_nil batch

@[simp]
theorem rows_error (error : PoolError) : rows [.error error] = [] := rfl

@[simp]
theorem rows_nil : rows [] = [] := rfl

theorem not_faulty_snoc {items : List ReadItem} (clean : ¬ Faulty items) (batch : List Sequenced) :
    ¬ Faulty (items ++ [.ok batch]) := by
  rintro ⟨error, mem⟩
  rcases List.mem_append.mp mem with before | here
  · exact clean ⟨error, before⟩
  · simp at here

theorem faulty_snoc (items : List ReadItem) (error : PoolError) :
    Faulty (items ++ [.error error]) :=
  ⟨error, by simp⟩

namespace PooledRead

/-- What has been sent into the channel of a read. -/
def sent (read : PooledRead) : List ReadItem :=
  read.received ++ read.channel

/-- The events of the whole scan, when it has begun. -/
def events (read : PooledRead) : List Sequenced :=
  (read.scan.map Scan.events).getD []

/-- Some items hold the whole scan, which has ended without an error. -/
def Complete (read : PooledRead) (items : List ReadItem) : Prop :=
  ∃ scan, read.scan = some scan ∧ scan.error = none ∧ rows items = scan.events

/-- What holds of a read at each stage of its job. -/
def AtStage (read : PooledRead) : Stage → Prop
  | .held => read.scan = none ∧ read.sent = []
  | .queued => read.scan = none ∧ read.sent = []
  | .taken => read.scan = none ∧ read.sent = []
  | .scanning rest batch _ => ∃ scan, read.scan = some scan ∧ rest.error = scan.error ∧
      (read.receiver = true →
        rows read.sent ++ batch ++ rest.events = scan.events ∧ ¬ Faulty read.sent)
  | .sending (.ok batch) (some rest) _ => ∃ scan, read.scan = some scan ∧
      rest.error = scan.error ∧ (read.receiver = true →
        rows read.sent ++ batch ++ rest.events = scan.events ∧ ¬ Faulty read.sent)
  | .sending (.ok batch) none _ => ∃ scan, read.scan = some scan ∧ scan.error = none ∧
      (read.receiver = true → rows read.sent ++ batch = scan.events ∧ ¬ Faulty read.sent)
  | .sending (.error _) rest _ => rest = none
  | .aborting => True
  | .gone => read.receiver = true → Faulty read.sent ∨ read.interrupted = true ∨
      read.Complete read.sent

/-- What holds of every read of a pool. -/
structure Straight (shutdown : Bool) (read : PooledRead) : Prop where
  within : rows read.sent <+: read.events
  stage : read.AtStage read.stage
  ended : read.ended = true → read.channel = [] ∧ read.stage = .gone ∧
    (Faulty read.received ∨ read.interrupted = true ∨ read.Complete read.received)
  shut : shutdown = true → read.stage ≠ .gone → read.interrupted = true
  unsent : read.phase = .submitting → read.stage = .held
  borrowed : read.collecting = true → read.interrupted = true →
    read.phase = .dropped ∧ read.ended = false

theorem straight_new (collecting : Bool) : Straight false (new collecting) where
  within := List.prefix_rfl
  stage := ⟨rfl, rfl⟩
  ended := by simp [new]
  shut := by simp
  unsent := fun _ => rfl
  borrowed := by simp [new]

theorem Straight.not_ended {shutdown : Bool} {read : PooledRead}
    (straight : Straight shutdown read) (working : read.stage ≠ .gone) : read.ended = false := by
  by_contra ended
  exact working (straight.ended (by simpa using ended)).2.1

/-- What holds at a stage is about what has been sent. -/
theorem AtStage.same {read moved : PooledRead} {stage : Stage} (here : read.AtStage stage)
    (scan : moved.scan = read.scan) (sent : moved.sent = read.sent)
    (receiver : moved.receiver = true → read.receiver = true)
    (interrupted : read.interrupted = true → moved.interrupted = true) :
    moved.AtStage stage := by
  cases stage with
  | held => exact ⟨scan.trans here.1, sent.trans here.2⟩
  | queued => exact ⟨scan.trans here.1, sent.trans here.2⟩
  | taken => exact ⟨scan.trans here.1, sent.trans here.2⟩
  | scanning rest batch batchBytes =>
      obtain ⟨whole, wholeEq, errorEq, split⟩ := here
      refine ⟨whole, scan.trans wholeEq, errorEq, fun receives => ?_⟩
      rw [sent]
      exact split (receiver receives)
  | sending item rest checked =>
      cases item with
      | error error => exact here
      | ok batch =>
          cases rest with
          | none =>
              obtain ⟨whole, wholeEq, errorEq, split⟩ := here
              refine ⟨whole, scan.trans wholeEq, errorEq, fun receives => ?_⟩
              rw [sent]
              exact split (receiver receives)
          | some rest =>
              obtain ⟨whole, wholeEq, errorEq, split⟩ := here
              refine ⟨whole, scan.trans wholeEq, errorEq, fun receives => ?_⟩
              rw [sent]
              exact split (receiver receives)
  | aborting => trivial
  | gone =>
      intro receives
      rw [sent]
      rcases here (receiver receives) with faulty | cut | ⟨whole, wholeEq, complete⟩
      · exact Or.inl faulty
      · exact Or.inr (Or.inl (interrupted cut))
      · exact Or.inr (Or.inr ⟨whole, scan.trans wholeEq, complete⟩)

/-- A read that has not ended goes on, with the same sent into its channel. -/
theorem Straight.move {shutdown : Bool} {read moved : PooledRead}
    (straight : Straight shutdown read) (going : read.ended = false)
    (scan : moved.scan = read.scan) (sent : moved.sent = read.sent)
    (ended : moved.ended = read.ended) (interrupted : moved.interrupted = read.interrupted)
    (working : moved.stage ≠ .gone → read.stage ≠ .gone)
    (unsent : moved.phase = .submitting → moved.stage = .held)
    (borrowed : moved.collecting = true → read.interrupted = true → moved.phase = .dropped)
    (stage : moved.AtStage moved.stage) : Straight shutdown moved := by
  constructor
  · rw [sent, events, scan]
    exact straight.within
  · exact stage
  · rw [ended, going]
    simp
  · intro shut stays
    rw [interrupted]
    exact straight.shut shut (working stays)
  · exact unsent
  · rw [interrupted, ended]
    exact fun collecting cut => ⟨borrowed collecting cut, going⟩

theorem Straight.uncut {shutdown : Bool} {read : PooledRead} (straight : Straight shutdown read)
    (receives : read.phase ≠ .dropped) (collecting : read.collecting = true) :
    read.interrupted ≠ true := by
  intro cut
  exact receives (straight.borrowed collecting cut).1

theorem Straight.submit {shutdown : Bool} {read : PooledRead} (straight : Straight shutdown read)
    (submitting : read.phase = .submitting) {phase : ConsumerPhase}
    (going : phase = .streaming ∨ phase = .waiting) :
    Straight shutdown { read with phase := phase, stage := .queued } := by
  have held := straight.unsent submitting
  have working : read.stage ≠ .gone := by simp [held]
  have stage := straight.stage
  rw [held] at stage
  refine straight.move (straight.not_ended working) rfl rfl rfl rfl (fun _ => working) ?_ ?_ stage
  · rcases going with rfl | rfl <;> simp
  · intro collecting cut
    exact absurd cut (straight.uncut (by simp [submitting]) collecting)

/-- Nobody receives the job: the pool has been shut down. -/
theorem Straight.refuse {read : PooledRead} (straight : Straight true read)
    (submitting : read.phase = .submitting) :
    Straight true { read with phase := .streaming, stage := .gone } := by
  have held := straight.unsent submitting
  have working : read.stage ≠ .gone := by simp [held]
  have cut := straight.shut rfl working
  refine straight.move (straight.not_ended working) rfl rfl rfl rfl (fun _ => working) ?_ ?_ ?_
  · simp
  · intro collecting cut
    exact absurd cut (straight.uncut (by simp [submitting]) collecting)
  · exact fun _ => Or.inr (Or.inl cut)

theorem Straight.resume {shutdown : Bool} {read : PooledRead} (straight : Straight shutdown read)
    (waiting : read.phase = .waiting) : Straight shutdown { read with phase := .streaming } := by
  have receives : read.receiver = true := by simp [receiver, waiting]
  constructor
  · exact straight.within
  · exact straight.stage.same rfl rfl (fun _ => receives) id
  · exact straight.ended
  · exact straight.shut
  · simp
  · intro collecting cut
    exact absurd cut (straight.uncut (by simp [waiting]) collecting)

/-- The consumer takes an item, or sees the end. -/
theorem Straight.poll {shutdown : Bool} {read moved : PooledRead}
    (straight : Straight shutdown read) (streaming : read.phase = .streaming)
    (taken : read.poll = some moved) : Straight shutdown moved := by
  have alive : read.phase ≠ .dropped := by simp [streaming]
  have receives : read.receiver = true := by simp [receiver, streaming]
  have uncut := straight.uncut alive
  have going {item : ReadItem} {channel : List ReadItem}
      (channelEq : read.channel = item :: channel) : read.ended = false := by
    by_contra ended
    have empty := (straight.ended (by simpa using ended)).1
    rw [channelEq] at empty
    cases empty
  unfold PooledRead.poll at taken
  split at taken
  · rename_i batch channel channelEq
    obtain rfl := Option.some.inj taken
    have sentEq : read.received ++ [.ok batch] ++ channel = read.sent := by
      rw [sent, channelEq, List.append_assoc, List.singleton_append]
    refine straight.move (going channelEq) rfl sentEq rfl rfl id ?_ ?_ ?_
    · simp [streaming]
    · intro collecting cut
      exact absurd cut (uncut collecting)
    · exact straight.stage.same rfl sentEq (fun _ => receives) id
  · rename_i error channel channelEq
    obtain rfl := Option.some.inj taken
    have sentEq : read.received ++ [.error error] ++ channel = read.sent := by
      rw [sent, channelEq, List.append_assoc, List.singleton_append]
    refine straight.move (going channelEq) rfl sentEq rfl rfl id ?_ ?_ ?_
    · simp only
      split <;> simp [streaming]
    · intro collecting cut
      exact absurd cut (uncut collecting)
    · exact straight.stage.same rfl sentEq (fun _ => receives) id
  · rename_i empty
    split at taken
    · rename_i gone
      obtain rfl := Option.some.inj taken
      have stage := straight.stage
      rw [gone] at stage
      have said := stage receives
      rw [sent, empty, List.append_nil] at said
      constructor
      · exact straight.within
      · exact straight.stage.same rfl rfl (fun _ => receives) id
      · exact fun _ => ⟨empty, gone, said⟩
      · exact straight.shut
      · simp only
        split <;> simp [streaming]
      · intro collecting cut
        exact absurd cut (uncut collecting)
    · cases taken

theorem Straight.work {shutdown : Bool} {read : PooledRead} (straight : Straight shutdown read)
    (working : read.stage ≠ .gone) (past : read.stage ≠ .held) {stage : Stage}
    (fits : read.AtStage stage) : Straight shutdown { read with stage := stage } := by
  refine straight.move (straight.not_ended working) rfl rfl rfl rfl (fun _ => working) ?_ ?_ ?_
  · intro submitting
    exact absurd (straight.unsent submitting) past
  · intro collecting cut
    exact (straight.borrowed collecting cut).1
  · exact fits.same rfl rfl id id

theorem atStage_next {read : PooledRead} {config : ReadPoolConfig} {rest : Scan}
    {batch : List Sequenced} {batchBytes : Nat}
    (here : read.AtStage (.scanning rest batch batchBytes)) :
    read.AtStage (PooledRead.next config rest batch batchBytes) := by
  obtain ⟨scan, scanEq, errorEq, whole⟩ := here
  unfold PooledRead.next
  split
  · rename_i row events eventsEq
    have longer : read.receiver = true →
        rows read.sent ++ (batch ++ [row]) ++ events = scan.events ∧ ¬ Faulty read.sent := by
      intro receives
      obtain ⟨split, clean⟩ := whole receives
      rw [eventsEq] at split
      refine ⟨?_, clean⟩
      rw [← split]
      simp only [List.append_assoc, List.singleton_append]
    simp only
    split
    · exact ⟨scan, scanEq, errorEq, longer⟩
    · exact ⟨scan, scanEq, errorEq, longer⟩
  · rename_i empty
    have all : read.receiver = true →
        rows read.sent ++ batch = scan.events ∧ ¬ Faulty read.sent := by
      intro receives
      obtain ⟨split, clean⟩ := whole receives
      rw [empty, List.append_nil] at split
      exact ⟨split, clean⟩
    split
    · rfl
    · rename_i clean
      have noError : scan.error = none := errorEq.symm.trans clean
      split
      · rename_i nothing
        intro receives
        have split := (all receives).1
        rw [List.isEmpty_iff.mp nothing, List.append_nil] at split
        exact Or.inr (Or.inr ⟨scan, scanEq, noError, split⟩)
      · exact ⟨scan, scanEq, noError, all⟩

theorem Straight.push {shutdown : Bool} {read : PooledRead} (straight : Straight shutdown read)
    (working : read.stage ≠ .gone) (past : read.stage ≠ .held) {item : ReadItem} {stage : Stage}
    (within : rows (read.sent ++ [item]) <+: read.events)
    (fits : ({ read with channel := read.channel ++ [item], stage := stage } :
      PooledRead).AtStage stage) :
    Straight shutdown { read with channel := read.channel ++ [item], stage := stage } := by
  have sentEq : ({ read with channel := read.channel ++ [item], stage := stage } :
      PooledRead).sent = read.sent ++ [item] := (List.append_assoc _ _ _).symm
  have going := straight.not_ended working
  constructor
  · rw [sentEq]
    exact within
  · exact fits
  · intro ended
    rw [going] at ended
    cases ended
  · intro shut _
    exact straight.shut shut working
  · intro submitting
    exact absurd (straight.unsent submitting) past
  · exact straight.borrowed

theorem events_eq {read : PooledRead} {scan : Scan} (scanEq : read.scan = some scan) :
    read.events = scan.events := by
  rw [events, scanEq]
  rfl

theorem Straight.send {shutdown : Bool} {read : PooledRead} {config : ReadPoolConfig}
    {item : ReadItem} {rest : Option Scan} (straight : Straight shutdown read)
    (sending : read.stage = .sending item rest true) :
    Straight shutdown (read.send config item rest) := by
  have working : read.stage ≠ .gone := by simp [sending]
  have past : read.stage ≠ .held := by simp [sending]
  have stage := straight.stage
  rw [sending] at stage
  unfold PooledRead.send
  split
  · rename_i alone
    apply straight.work working past
    intro receives
    rw [alone] at receives
    cases receives
  · rename_i receives
    rw [Bool.not_eq_false] at receives
    have sentEq (stage : Stage) : ({ read with channel := read.channel ++ [item], stage := stage } :
        PooledRead).sent = read.sent ++ [item] := (List.append_assoc _ _ _).symm
    split
    · cases item with
      | error error =>
          obtain rfl : rest = none := stage
          apply straight.push working past
          · rw [rows_append, rows_error, List.append_nil]
            exact straight.within
          · intro _
            rw [sentEq]
            exact Or.inl (faulty_snoc _ _)
      | ok batch =>
          cases rest with
          | none =>
              obtain ⟨scan, scanEq, noError, whole⟩ := stage
              obtain ⟨split, -⟩ := whole receives
              apply straight.push working past
              · refine ⟨[], ?_⟩
                rw [List.append_nil, rows_append, rows_ok, split, events_eq scanEq]
              · intro _
                rw [sentEq]
                refine Or.inr (Or.inr ⟨scan, scanEq, noError, ?_⟩)
                rw [rows_append, rows_ok, split]
          | some rest =>
              obtain ⟨scan, scanEq, errorEq, whole⟩ := stage
              obtain ⟨split, clean⟩ := whole receives
              apply straight.push working past
              · rw [rows_append, rows_ok, events_eq scanEq]
                exact ⟨rest.events, split⟩
              · refine ⟨scan, scanEq, errorEq, fun _ => ?_⟩
                rw [sentEq, rows_append, rows_ok, List.append_nil]
                exact ⟨split, not_faulty_snoc clean batch⟩
    · apply straight.work working past
      cases item with
      | error error => exact stage
      | ok batch =>
          cases rest with
          | none => exact stage
          | some rest => exact stage

theorem Straight.abort {shutdown : Bool} {read moved : PooledRead} {config : ReadPoolConfig}
    (straight : Straight shutdown read) (aborting : read.stage = .aborting)
    (taken : read.abort config = some moved) : Straight shutdown moved := by
  have working : read.stage ≠ .gone := by simp [aborting]
  have past : read.stage ≠ .held := by simp [aborting]
  unfold PooledRead.abort at taken
  split at taken
  · rename_i alone
    obtain rfl := Option.some.inj taken
    apply straight.work working past
    intro receives
    rw [alone] at receives
    cases receives
  · split at taken
    · obtain rfl := Option.some.inj taken
      apply straight.push working past
      · rw [rows_append, rows_error, List.append_nil]
        exact straight.within
      · intro _
        left
        rw [sent, ← List.append_assoc]
        exact faulty_snoc _ _
    · cases taken

theorem Straight.begin {shutdown : Bool} {read : PooledRead} (straight : Straight shutdown read)
    (taken : read.stage = .taken) (scan : Scan) :
    Straight shutdown { read with stage := .scanning scan [] 0, scan := some scan } := by
  have working : read.stage ≠ .gone := by simp [taken]
  have stage := straight.stage
  rw [taken] at stage
  have sentEq : ({ read with stage := .scanning scan [] 0, scan := some scan } :
      PooledRead).sent = [] := stage.2
  constructor
  · rw [sentEq]
    exact List.nil_prefix
  · refine ⟨scan, rfl, rfl, fun _ => ?_⟩
    rw [sentEq]
    refine ⟨rfl, ?_⟩
    rintro ⟨error, impossible⟩
    cases impossible
  · intro ended
    rw [straight.not_ended working] at ended
    cases ended
  · intro shut _
    exact straight.shut shut working
  · intro submitting
    rw [straight.unsent submitting] at taken
    cases taken
  · exact straight.borrowed

/-- Every step of the worker of a read keeps it straight. -/
theorem Straight.run {shutdown : Bool} {read moved : PooledRead} {config : ReadPoolConfig}
    {label : PoolStep} (straight : Straight shutdown read)
    (taken : read.run config shutdown label = some moved) : Straight shutdown moved := by
  have stage := straight.stage
  unfold PooledRead.run at taken
  split at taken
  · split at taken
    · rename_i here
      obtain rfl := Option.some.inj taken
      exact straight.begin here _
    · cases taken
  · split at taken
    · rename_i here
      obtain rfl := Option.some.inj taken
      rw [here] at stage
      exact straight.work (by simp [here]) (by simp [here]) (atStage_next stage)
    · cases taken
  · split at taken
    · rename_i item rest here
      rw [here] at stage
      split at taken
      · rename_i shut
        obtain rfl := Option.some.inj taken
        apply straight.work (by simp [here]) (by simp [here])
        intro _
        exact Or.inr (Or.inl (straight.shut shut (by simp [here])))
      · obtain rfl := Option.some.inj taken
        apply straight.work (by simp [here]) (by simp [here])
        cases item with
        | error error => exact stage
        | ok batch =>
            cases rest with
            | none => exact stage
            | some rest => exact stage
    · cases taken
  · split at taken
    · rename_i here
      obtain rfl := Option.some.inj taken
      exact straight.send here
    · cases taken
  · split at taken
    · rename_i here
      obtain rfl := Option.some.inj taken
      exact straight.work (by simp [here]) (by simp [here]) trivial
    · rename_i here
      obtain rfl := Option.some.inj taken
      exact straight.work (by simp [here]) (by simp [here]) trivial
    · cases taken
  · split at taken
    · rename_i here
      exact straight.abort here taken
    · cases taken
  · cases taken

/-- The consumer goes away with what it has received. -/
theorem Straight.drop {shutdown : Bool} {read : PooledRead} (straight : Straight shutdown read)
    (hooked : Bool) : Straight shutdown (read.drop hooked) := by
  have sentEq : (read.drop hooked).sent = read.received := List.append_nil _
  have alone : (read.drop hooked).receiver = false := rfl
  have vacuous {p : Prop} : (read.drop hooked).receiver = true → p := by
    intro receives
    rw [alone] at receives
    cases receives
  have unsent : read.sent = [] → (read.drop hooked).sent = [] := by
    intro nothing
    rw [sentEq]
    exact (List.append_eq_nil_iff.mp nothing).1
  constructor
  · rw [sentEq]
    have within := straight.within
    rw [sent, rows_append] at within
    exact (List.prefix_append _ _).trans within
  · have stage := straight.stage
    cases here : read.stage with
    | held =>
        have stageEq : (read.drop hooked).stage = .gone := by simp only [PooledRead.drop, here]
        rw [stageEq]
        exact vacuous
    | queued =>
        rw [here] at stage
        have stageEq : (read.drop hooked).stage = if hooked then .gone else .queued := by
          simp only [PooledRead.drop, here]
        rw [stageEq]
        split
        · exact vacuous
        · exact ⟨stage.1, unsent stage.2⟩
    | taken =>
        rw [here] at stage
        have stageEq : (read.drop hooked).stage = .taken := by simp only [PooledRead.drop, here]
        rw [stageEq]
        exact ⟨stage.1, unsent stage.2⟩
    | scanning rest batch batchBytes =>
        rw [here] at stage
        have stageEq : (read.drop hooked).stage = .scanning rest batch batchBytes := by
          simp only [PooledRead.drop, here]
        rw [stageEq]
        obtain ⟨scan, scanEq, errorEq, -⟩ := stage
        exact ⟨scan, scanEq, errorEq, vacuous⟩
    | sending item rest checked =>
        rw [here] at stage
        have stageEq : (read.drop hooked).stage = .sending item rest checked := by
          simp only [PooledRead.drop, here]
        rw [stageEq]
        cases item with
        | error error => exact stage
        | ok batch =>
            cases rest with
            | none =>
                obtain ⟨scan, scanEq, errorEq, -⟩ := stage
                exact ⟨scan, scanEq, errorEq, vacuous⟩
            | some rest =>
                obtain ⟨scan, scanEq, errorEq, -⟩ := stage
                exact ⟨scan, scanEq, errorEq, vacuous⟩
    | aborting =>
        have stageEq : (read.drop hooked).stage = .aborting := by simp only [PooledRead.drop, here]
        rw [stageEq]
        trivial
    | gone =>
        have stageEq : (read.drop hooked).stage = .gone := by simp only [PooledRead.drop, here]
        rw [stageEq]
        exact vacuous
  · intro ended
    obtain ⟨-, gone, said⟩ := straight.ended ended
    refine ⟨rfl, ?_, said⟩
    simp [PooledRead.drop, gone]
  · intro shut working
    apply straight.shut shut
    intro gone
    apply working
    simp [PooledRead.drop, gone]
  · intro impossible
    cases impossible
  · intro collecting cut
    exact ⟨rfl, (straight.borrowed collecting cut).2⟩

theorem Straight.interrupt {read : PooledRead} (straight : Straight false read)
    (borrowed : read.collecting = true → read.phase = .dropped) :
    Straight true read.interrupt := by
  unfold PooledRead.interrupt
  split
  · rename_i gone
    constructor
    · exact straight.within
    · exact straight.stage
    · exact straight.ended
    · intro _ working
      exact absurd gone working
    · exact straight.unsent
    · exact straight.borrowed
  · rename_i working
    have going := straight.not_ended working
    constructor
    · exact straight.within
    · exact straight.stage.same rfl rfl id (fun _ => rfl)
    · intro ended
      rw [going] at ended
      cases ended
    · intro _ _
      rfl
    · exact straight.unsent
    · intro collecting _
      exact ⟨borrowed collecting, going⟩

end PooledRead

namespace ReadPool

/-- What holds of every reachable pool: its reads are straight, and a worker leaves only
when the pool has been shut down. -/
structure Sound (pool : ReadPool) : Prop where
  straight : Each (fun _ read => read.Straight pool.shutdown) pool.reads
  manned : pool.workers ≠ []
  released : pool.sender = false → pool.shutdown = true
  left : Worker.exited ∈ pool.workers → pool.shutdown = true

theorem sound_start (config : ReadPoolConfig) : (start config).Sound where
  straight := each_nil _
  manned := by simp [start]
  released := by simp [start]
  left := by simp [start]

theorem Sound.put {pool : ReadPool} {place : Nat} {moved : PooledRead} (sound : pool.Sound)
    (own : moved.Straight pool.shutdown) : (pool.put place moved).Sound where
  straight := sound.straight.set own fun _ _ _ _ there => there
  manned := sound.manned
  released := sound.released
  left := sound.left

theorem Sound.pending {pool : ReadPool} (sound : pool.Sound) (pending : List Nat) :
    ({ pool with pending := pending } : ReadPool).Sound where
  straight := sound.straight
  manned := sound.manned
  released := sound.released
  left := sound.left

/-- A worker that does not leave turns to something else. -/
theorem Sound.assign {pool : ReadPool} (sound : pool.Sound) (place : Nat) {worker : Worker}
    (stays : worker ≠ .exited) :
    ({ pool with workers := pool.workers.set place worker } : ReadPool).Sound where
  straight := sound.straight
  manned := by
    simp [sound.manned]
  released := sound.released
  left := by
    intro mem
    rcases List.mem_or_eq_of_mem_set mem with before | rfl
    · exact sound.left before
    · exact absurd rfl stays

theorem Sound.shut_of_left {pool : ReadPool} (sound : pool.Sound)
    (empty : pool.workers.all (· = .exited) = true) : pool.shutdown = true := by
  obtain ⟨worker, mem⟩ := List.exists_mem_of_ne_nil _ sound.manned
  have left := List.all_eq_true.mp empty worker mem
  rw [decide_eq_true_eq] at left
  rw [left] at mem
  exact sound.left mem

theorem Sound.submit {pool : ReadPool} {place : Nat} {read : PooledRead} (sound : pool.Sound)
    (found : pool.reads[place]? = some read) (submitting : read.phase = .submitting) :
    (pool.submit place read).Sound := by
  have straight := sound.straight place read found
  unfold ReadPool.submit
  split
  · rename_i empty
    have shut := sound.shut_of_left empty
    apply sound.put
    rw [shut] at straight ⊢
    exact straight.refuse submitting
  · apply (sound.put (straight.submit submitting _)).pending
    split
    · exact Or.inl rfl
    · exact Or.inr rfl

/-- A worker receives a job, or leaves when no sender of jobs is left. -/
theorem Sound.take {pool next : ReadPool} {worker : Nat} (sound : pool.Sound)
    (placed : pool.Placed) (taken : pool.take worker = some next) : next.Sound := by
  unfold ReadPool.take at taken
  split at taken
  · rename_i place pending pendingEq
    split at taken
    · rename_i read found
      obtain rfl := Option.some.inj taken
      have straight := sound.straight place read found
      obtain ⟨former, formerFound, queued⟩ := placed.queued place (by simp [pendingEq])
      rw [found] at formerFound
      cases formerFound
      have stage := straight.stage
      rw [queued] at stage
      have moved : PooledRead.Straight pool.shutdown { read with stage := .taken } :=
        straight.work (by simp [queued]) (by simp [queued]) stage
      exact ((sound.put moved).pending pending).assign worker (by simp)
    · cases taken
  · split at taken
    · cases taken
    · rename_i alone
      obtain rfl := Option.some.inj taken
      have released : pool.sender = false := by
        by_contra held
        simp [hasSender, held] at alone
      constructor
      · exact sound.straight
      · simp [sound.manned]
      · exact sound.released
      · exact fun _ => sound.released released

theorem Sound.work {pool next : ReadPool} {worker : Nat} {label : PoolStep} (sound : pool.Sound)
    (taken : pool.work worker label = some next) : next.Sound := by
  unfold ReadPool.work at taken
  split at taken
  · rename_i place working
    simp only [Option.bind_eq_bind, Option.bind_eq_some_iff] at taken
    obtain ⟨read, found, moved, ran, taken⟩ := taken
    have later := @Sound.put pool place moved sound ((sound.straight place read found).run ran)
    split at taken
    · obtain rfl := Option.some.inj taken
      exact later.assign worker (by simp)
    · obtain rfl := Option.some.inj taken
      exact later
  · cases taken

theorem Sound.signal {pool : ReadPool} (sound : pool.Sound) (open_ : pool.shutdown = false)
    (returned : ∀ read ∈ pool.reads, read.collecting = true → read.phase = .dropped) :
    ({ pool with shutdown := true, reads := pool.reads.map PooledRead.interrupt } :
      ReadPool).Sound where
  straight := by
    intro place read found
    rw [List.getElem?_map, Option.map_eq_some_iff] at found
    obtain ⟨former, formerFound, rfl⟩ := found
    have straight := sound.straight place former formerFound
    rw [open_] at straight
    exact straight.interrupt (returned former (List.mem_of_getElem? formerFound))
  manned := sound.manned
  released := fun _ => rfl
  left := fun _ => rfl

/-- One step keeps the jobs in their places and the reads straight. -/
theorem Sound.step {pool next : ReadPool} {label : PoolStep} (sound : pool.Sound)
    (placed : pool.Placed) (taken : Steps pool label next) : next.Placed ∧ next.Sound := by
  cases taken with
  | read collecting open_ =>
      refine ⟨placed.read _, ?_, sound.manned, sound.released, sound.left⟩
      refine sound.straight.snoc ?_ fun _ _ _ there => there
      rw [open_]
      exact PooledRead.straight_new collecting
  | submit found submitting =>
      have held := (sound.straight _ _ found).unsent submitting
      exact ⟨placed.submit found held, sound.submit found submitting⟩
  | resume found waiting moved =>
      constructor
      · exact placed.put_same found rfl
      · exact sound.put ((sound.straight _ _ found).resume waiting)
  | poll found streaming polled =>
      constructor
      · exact placed.put_same found (PooledRead.poll_stage polled)
      · exact sound.put ((sound.straight _ _ found).poll streaming polled)
  | drop found alive =>
      constructor
      · exact placed.drop found
      · exact (sound.put ((sound.straight _ _ found).drop _)).pending _
  | signal open_ returned => exact ⟨placed.signal, sound.signal open_ returned⟩
  | release shut held =>
      constructor
      · exact ⟨placed.nodup, placed.queued, placed.busy, placed.apart⟩
      · exact ⟨sound.straight, sound.manned, fun _ => shut, sound.left⟩
  | take idle taken => exact ⟨placed.take idle taken, sound.take placed taken⟩
  | work own taken => exact ⟨placed.work taken, sound.work taken⟩

theorem sound_of_run {config : ReadPoolConfig} {labels : List PoolStep} {pool : ReadPool}
    (reached : run step (start config) labels = some pool) : pool.Placed ∧ pool.Sound := by
  have kept (pool : ReadPool) (label : PoolStep) (next : ReadPool)
      (holds : pool.Placed ∧ pool.Sound) (taken : pool.step label = some next) :
      next.Placed ∧ next.Sound :=
    holds.2.step holds.1 (steps_of_step taken)
  exact invariant_of_steps kept ⟨placed_start config, sound_start config⟩ reached

end ReadPool

end Tephra.Embedded
