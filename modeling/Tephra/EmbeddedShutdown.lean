import Tephra.EmbeddedResults

/-!
# Dropping an embedded pool

The pool sets its flag, drops its job sender and joins its workers.  A worker is stuck
when no steps of the workers let it go on.  No worker gets stuck if, when the sender is
dropped, no stream holds a sender of its own and every report of a panic still to be
sent can be sent, and if later panics come in reads whose report can be sent at once.
-/

namespace Tephra.Embedded

open Histories Parties

namespace PooledRead

/-- The report of a panic can be sent, or finds the receiver gone. -/
def CanReport (config : ReadPoolConfig) (read : PooledRead) : Prop :=
  read.receiver = false ∨ read.channel.length < config.channelDepth

/-- What the workers of a dropped pool need of a read. -/
structure Free (config : ReadPoolConfig) (read : PooledRead) : Prop where
  unheld : read.holdsSender = false
  reports : read.stage = .aborting → read.CanReport config

theorem Free.move {config : ReadPoolConfig} {read moved : PooledRead} (free : read.Free config)
    (collecting : moved.collecting = read.collecting) (phase : moved.phase = read.phase)
    (reports : moved.stage = .aborting → moved.CanReport config) : moved.Free config where
  unheld := by
    rw [holdsSender, collecting, phase]
    exact free.unheld
  reports := reports

theorem Free.poll {config : ReadPoolConfig} {read moved : PooledRead} (free : read.Free config)
    (streaming : read.phase = .streaming) (polled : read.poll = some moved) :
    moved.Free config := by
  have receives : read.receiver = true := by simp [receiver, streaming]
  have stage := poll_stage polled
  have unheld {phase : ConsumerPhase} (here : phase = .streaming ∨ phase = .dropped) :
      ({ read with phase := phase } : PooledRead).holdsSender = false := by
    rcases here with rfl | rfl <;> simp [holdsSender]
  have shorter {first : ReadItem} {channel : List ReadItem}
      (channelEq : read.channel = first :: channel) (aborting : read.stage = .aborting) :
      channel.length < config.channelDepth := by
    rcases free.reports aborting with alone | room
    · rw [receives] at alone
      cases alone
    · rw [channelEq, List.length_cons] at room
      omega
  unfold PooledRead.poll at polled
  split at polled
  · rename_i batch channel channelEq
    obtain rfl := Option.some.inj polled
    exact ⟨free.unheld, fun aborting => Or.inr (shorter channelEq aborting)⟩
  · rename_i error channel channelEq
    obtain rfl := Option.some.inj polled
    constructor
    · apply unheld
      split
      · exact Or.inr rfl
      · exact Or.inl streaming
    · exact fun aborting => Or.inr (shorter channelEq aborting)
  · split at polled
    · rename_i gone
      obtain rfl := Option.some.inj polled
      constructor
      · apply unheld
        split
        · exact Or.inr rfl
        · exact Or.inl streaming
      · intro aborting
        rw [gone] at aborting
        cases aborting
    · cases polled

theorem run_keeps {read moved : PooledRead} {config : ReadPoolConfig} {shutdown : Bool}
    {label : PoolStep} (ran : read.run config shutdown label = some moved) :
    moved.collecting = read.collecting ∧ moved.phase = read.phase ∧
      (moved.stage = .aborting →
        (∃ worker, label = .panic worker) ∧ moved.channel = read.channel) := by
  unfold PooledRead.run at ran
  split at ran
  · split at ran
    · obtain rfl := Option.some.inj ran
      simp
    · cases ran
  · split at ran
    · obtain rfl := Option.some.inj ran
      refine ⟨rfl, rfl, ?_⟩
      simp only [PooledRead.next]
      split
      · split
        · simp
        · simp
      · split
        · simp
        · split
          · simp
          · simp
    · cases ran
  · split at ran
    · split at ran
      · obtain rfl := Option.some.inj ran
        simp
      · obtain rfl := Option.some.inj ran
        simp
    · cases ran
  · split at ran
    · rename_i rest _
      obtain rfl := Option.some.inj ran
      unfold PooledRead.send
      split
      · simp
      · split
        · refine ⟨rfl, rfl, ?_⟩
          cases rest with
          | none => simp
          | some rest => simp
        · simp
    · cases ran
  · rename_i worker
    split at ran
    · obtain rfl := Option.some.inj ran
      exact ⟨rfl, rfl, fun _ => ⟨⟨worker, rfl⟩, rfl⟩⟩
    · obtain rfl := Option.some.inj ran
      exact ⟨rfl, rfl, fun _ => ⟨⟨worker, rfl⟩, rfl⟩⟩
    · cases ran
  · split at ran
    · unfold PooledRead.abort at ran
      split at ran
      · obtain rfl := Option.some.inj ran
        simp
      · split at ran
        · obtain rfl := Option.some.inj ran
          simp
        · cases ran
    · cases ran
  · cases ran

theorem Free.runs {config : ReadPoolConfig} {read : PooledRead} (free : read.Free config)
    (running : read.stage.running = true) (shutdown : Bool) (worker : Nat) :
    ∃ label moved, label.worker = some worker ∧ read.run config shutdown label = some moved := by
  cases here : read.stage with
  | held =>
      rw [here] at running
      cases running
  | queued =>
      rw [here] at running
      cases running
  | gone =>
      rw [here] at running
      cases running
  | taken => exact ⟨.begin worker ⟨[], none⟩, _, rfl, by simp only [run, here]; rfl⟩
  | scanning rest batch batchBytes =>
      exact ⟨.next worker, _, rfl, by simp only [run, here]; rfl⟩
  | sending item rest checked =>
      cases checked with
      | false =>
          cases shutdown with
          | false => exact ⟨.check worker, _, rfl, by simp only [run, here]; rfl⟩
          | true => exact ⟨.check worker, _, rfl, by simp only [run, here]; rfl⟩
      | true => exact ⟨.send worker, _, rfl, by simp only [run, here]; rfl⟩
  | aborting =>
      refine ⟨.abort worker, ?_⟩
      simp only [run, here, PooledRead.abort]
      rcases free.reports here with alone | room
      · exact ⟨_, rfl, if_pos alone⟩
      · by_cases alone : read.receiver = false
        · exact ⟨_, rfl, if_pos alone⟩
        · exact ⟨_, rfl, (if_neg alone).trans (if_pos room)⟩

end PooledRead

namespace ReadPool

/-- A worker that has not left makes no step after any steps of the workers. -/
def Stuck (pool : ReadPool) (worker : Nat) : Prop :=
  (∃ doing, pool.workers[worker]? = some doing ∧ doing ≠ .exited) ∧
    ∀ (labels : List PoolStep) (later : ReadPool) (label : PoolStep),
      (∀ earlier ∈ labels, earlier.worker.isSome) → run step pool labels = some later →
      label.worker = some worker → later.step label = none

/-- The condition on the steps. -/
def Reportable (pool : ReadPool) : PoolStep → Prop
  | .release => Each (fun _ read => read.Free pool.config) pool.reads
  | .panic worker => pool.sender = false → ∀ (place : Nat) (read : PooledRead),
      pool.workers[worker]? = some (.busy place) → pool.reads[place]? = some read →
      read.CanReport pool.config
  | _ => True

/-- After its sender is dropped, all reads of a pool are free. -/
def Released (pool : ReadPool) : Prop :=
  pool.sender = false → Each (fun _ read => read.Free pool.config) pool.reads

theorem Released.put {pool : ReadPool} {place : Nat} {moved : PooledRead}
    (released : pool.Released) (own : pool.sender = false → moved.Free pool.config) :
    (pool.put place moved).Released := by
  intro dropped
  exact (released dropped).set (own dropped) fun _ _ _ _ there => there

theorem Released.work {pool next : ReadPool} {worker : Nat} {label : PoolStep}
    (released : pool.Released) (meets : pool.Reportable label)
    (own : label.worker = some worker) (taken : pool.work worker label = some next) :
    next.Released := by
  unfold ReadPool.work at taken
  split at taken
  · rename_i place working
    simp only [Option.bind_eq_bind, Option.bind_eq_some_iff] at taken
    obtain ⟨read, found, moved, ran, taken⟩ := taken
    have later : (pool.put place moved).Released := by
      apply released.put
      intro dropped
      obtain ⟨collecting, phase, aborting⟩ := PooledRead.run_keeps ran
      apply (released dropped place read found).move collecting phase
      intro reporting
      obtain ⟨⟨other, rfl⟩, channel⟩ := aborting reporting
      cases own
      have room := meets dropped place read working found
      rw [PooledRead.CanReport, PooledRead.receiver, phase, channel]
      exact room
    split at taken
    · obtain rfl := Option.some.inj taken
      exact later
    · obtain rfl := Option.some.inj taken
      exact later
  · cases taken

theorem Released.take {pool next : ReadPool} {worker : Nat} (released : pool.Released)
    (taken : pool.take worker = some next) : next.Released := by
  unfold ReadPool.take at taken
  split at taken
  · split at taken
    · rename_i read found
      obtain rfl := Option.some.inj taken
      intro dropped
      refine (released dropped).set ?_ fun _ _ _ _ there => there
      exact (released dropped _ read found).move rfl rfl nofun
    · cases taken
  · split at taken
    · cases taken
    · obtain rfl := Option.some.inj taken
      exact released

theorem Released.submit {pool : ReadPool} {place : Nat} {read : PooledRead}
    (released : pool.Released) (found : pool.reads[place]? = some read)
    (submitting : read.phase = .submitting) : (pool.submit place read).Released := by
  have collecting (dropped : pool.sender = false) : read.collecting = true := by
    simpa [PooledRead.holdsSender, submitting] using (released dropped place read found).unheld
  unfold ReadPool.submit
  split
  · apply released.put
    intro dropped
    exact ⟨by simp [PooledRead.holdsSender], nofun⟩
  · intro dropped
    refine (released dropped).set ?_ fun _ _ _ _ there => there
    exact ⟨by simp [PooledRead.holdsSender, collecting dropped], nofun⟩

theorem Released.step {pool next : ReadPool} {label : PoolStep} (released : pool.Released)
    (sound : pool.Sound) (meets : pool.Reportable label) (taken : Steps pool label next) :
    next.Released := by
  have shut := sound.released
  cases taken with
  | read collecting open_ =>
      intro dropped
      rw [shut dropped] at open_
      cases open_
  | submit found submitting => exact released.submit found submitting
  | resume found waiting moved =>
      apply released.put
      intro dropped
      have free := released dropped _ _ found
      refine ⟨by simp [PooledRead.holdsSender], fun aborting => ?_⟩
      rcases free.reports aborting with alone | room
      · simp [PooledRead.receiver, waiting] at alone
      · exact Or.inr room
  | poll found streaming polled =>
      apply released.put
      intro dropped
      exact (released dropped _ _ found).poll streaming polled
  | drop found alive =>
      intro dropped
      refine (released dropped).set ?_ fun _ _ _ _ there => there
      exact ⟨by simp [PooledRead.holdsSender, PooledRead.drop], fun _ => Or.inl rfl⟩
  | signal open_ returned =>
      intro dropped
      rw [shut dropped] at open_
      cases open_
  | release shut held => exact fun _ => meets
  | take idle taken => exact released.take taken
  | work own taken => exact released.work meets own taken

theorem step_of_run {pool : ReadPool} {read moved : PooledRead} {config : ReadPoolConfig}
    {shutdown : Bool} {label : PoolStep} {worker : Nat} (own : label.worker = some worker)
    (ran : read.run config shutdown label = some moved) :
    pool.step label = pool.work worker label := by
  cases label with
  | begin | next | check | send | panic | abort =>
      cases own
      rfl
  | take => cases ran
  | read | submit | resume | poll | drop | signal | release => cases own

/-- In a dropped pool with free reads, every worker that has not left has a step. -/
theorem Released.not_stuck {pool : ReadPool} (released : pool.Released) (placed : pool.Placed)
    (dropped : pool.sender = false) (worker : Nat) : ¬ pool.Stuck worker := by
  rintro ⟨⟨doing, working, stays⟩, halted⟩
  have halts (label : PoolStep) (own : label.worker = some worker) : pool.step label = none :=
    halted [] pool label (by simp) rfl own
  have free := released dropped
  cases doing with
  | exited => exact stays rfl
  | idle =>
      have halt := halts (.take worker) rfl
      rw [ReadPool.step, if_pos working] at halt
      unfold ReadPool.take at halt
      split at halt
      · rename_i place pending pendingEq
        obtain ⟨read, found, -⟩ := placed.queued place (by simp [pendingEq])
        rw [found] at halt
        cases halt
      · have unheld : pool.hasSender = false := by
          rw [hasSender, dropped, Bool.false_or, List.any_eq_false]
          intro read mem
          obtain ⟨place, found⟩ := List.mem_iff_getElem?.mp mem
          simp [(free place read found).unheld]
        rw [unheld] at halt
        cases halt
  | busy place =>
      obtain ⟨read, found, running⟩ := placed.busy worker place working
      obtain ⟨label, moved, own, ran⟩ := (free place read found).runs running pool.shutdown worker
      have worked : pool.work worker label ≠ none := by
        simp only [ReadPool.work, working, found, ran, Option.bind_eq_bind, Option.bind_some]
        split <;> simp
      rw [← step_of_run own ran] at worked
      exact worked (halts label own)

end ReadPool

/-- No worker of a dropped pool gets stuck in a history whose steps meet the condition. -/
theorem dropped_pool_workers_end {config : ReadPoolConfig} {labels : List PoolStep}
    {pool : ReadPool}
    (meets : Allowed ReadPool.step ReadPool.Reportable (ReadPool.start config) labels)
    (reached : run ReadPool.step (ReadPool.start config) labels = some pool)
    (dropped : pool.sender = false) (worker : Nat) : ¬ pool.Stuck worker := by
  have kept (pool : ReadPool) (label : PoolStep) (next : ReadPool)
      (holds : pool.Released ∧ pool.Placed ∧ pool.Sound) (here : pool.Reportable label)
      (taken : pool.step label = some next) : next.Released ∧ next.Placed ∧ next.Sound := by
    obtain ⟨released, placed, sound⟩ := holds
    have steps := ReadPool.steps_of_step taken
    exact ⟨released.step sound here steps, sound.step placed steps⟩
  have first : (ReadPool.start config).Released := nofun
  obtain ⟨released, placed, -⟩ := invariant_of_run kept
    ⟨first, ReadPool.placed_start config, ReadPool.sound_start config⟩ meets reached
  exact released.not_stuck placed dropped worker

/-- The pool with one stream and what its worker does. -/
def loneStream (worker : Worker) (read : PooledRead) (sender : Bool) : ReadPool :=
  ⟨smallPool, [worker], [read], [], true, sender⟩

/-- A stream that nobody drains, with its second batch to be sent. -/
def undrained : PooledRead :=
  ⟨false, .streaming, .sending (.ok [rowAt 2]) (some ⟨[], none⟩) false, [.ok [rowAt 1]], [], false,
    some ⟨[rowAt 1, rowAt 2], none⟩, true⟩

/-- The pool is dropped with an undrained stream. -/
theorem dropped_pool_workers_end_undrained :
    run ReadPool.step (loneStream (.busy 0) undrained true) [.release] =
        some (loneStream (.busy 0) undrained false) ∧
      ¬ (loneStream (.busy 0) undrained false).Stuck 0 := by
  let front : List PoolStep :=
    [.read false, .submit 0, .take 0, .begin 0 ⟨[rowAt 1, rowAt 2], none⟩, .next 0, .check 0,
      .send 0, .next 0, .signal]
  have halfway : run ReadPool.step (ReadPool.start smallPool) front =
      some (loneStream (.busy 0) undrained true) := rfl
  have reached : run ReadPool.step (ReadPool.start smallPool) (front ++ [.release]) =
      some (loneStream (.busy 0) undrained false) := rfl
  have free : undrained.Free smallPool := ⟨rfl, nofun⟩
  have meets : Allowed ReadPool.step ReadPool.Reportable (ReadPool.start smallPool)
      (front ++ [.release]) := by
    apply Allowed.append (allowed_of_forall (by simp [front, ReadPool.Reportable]) _) halfway
    refine Allowed.cons ?_ rfl trivial
    exact (each_nil _).snoc free fun _ _ _ there => there
  exact ⟨rfl, dropped_pool_workers_end meets reached rfl 0⟩

theorem stuck_of_halted {pool : ReadPool} {worker : Nat} {doing : Worker}
    (working : pool.workers[worker]? = some doing) (stays : doing ≠ .exited)
    (halted : ∀ label, label.worker.isSome → pool.step label = none) : pool.Stuck worker := by
  refine ⟨⟨doing, working, stays⟩, ?_⟩
  intro labels later label workers reached own
  cases labels with
  | nil =>
      cases reached
      exact halted label (by simp [own])
  | cons first labels =>
      rw [run, halted first (workers first (by simp))] at reached
      cases reached

/-- A stream that was not polled before its pool was shut down. -/
def unpolled : PooledRead := { PooledRead.new false with interrupted := true }

/-- A stream that nobody drains, whose read has panicked. -/
def panicked : PooledRead := { undrained with stage := .aborting }

/-- A stream that was never polled keeps an idle worker in its receive, and a full channel
keeps the worker of a panicked read in the send of its report. -/
theorem dropped_pool_keeps_workers :
    (∃ labels, run ReadPool.step (ReadPool.start smallPool) labels =
        some (loneStream .idle unpolled false) ∧
      (loneStream .idle unpolled false).Stuck 0) ∧
    ∃ labels, run ReadPool.step (ReadPool.start smallPool) labels =
        some (loneStream (.busy 0) panicked false) ∧
      (loneStream (.busy 0) panicked false).Stuck 0 := by
  constructor
  · refine ⟨[.read false, .signal, .release], rfl, ?_⟩
    apply stuck_of_halted rfl (by simp)
    intro label own
    cases label with
    | read | submit | resume | poll | drop | signal | release => cases own
    | take worker =>
        simp only [ReadPool.step]
        split <;> rfl
    | begin worker | next worker | check worker | send worker | panic worker | abort worker =>
        cases worker <;> rfl
  · refine ⟨[.read false, .submit 0, .take 0, .begin 0 ⟨[rowAt 1, rowAt 2], none⟩, .next 0,
      .check 0, .send 0, .panic 0, .signal, .release], rfl, ?_⟩
    apply stuck_of_halted rfl (by simp)
    intro label own
    cases label with
    | read | submit | resume | poll | drop | signal | release => cases own
    | take worker =>
        cases worker <;> rfl
    | begin worker | next worker | check worker | send worker | panic worker | abort worker =>
        cases worker <;> rfl

end Tephra.Embedded
