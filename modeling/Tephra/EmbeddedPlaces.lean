import Tephra.EmbeddedPool

/-!
# Where the jobs of an embedded pool are

A job is pending at most once and runs on at most one worker.  Its stage says which.
-/

namespace Tephra.Embedded

open Histories

/-- The job is with a worker. -/
def Stage.running : Stage → Bool
  | .held => false
  | .queued => false
  | .taken => true
  | .scanning _ _ _ => true
  | .sending _ _ _ => true
  | .aborting => true
  | .gone => false

/-- A step inside a job finds the job with its worker. -/
theorem PooledRead.run_running {read moved : PooledRead} {config : ReadPoolConfig}
    {shutdown : Bool} {label : PoolStep} (taken : read.run config shutdown label = some moved) :
    read.stage.running = true := by
  unfold PooledRead.run at taken
  cases here : read.stage with
  | held => cases label <;> simp [here] at taken
  | queued => cases label <;> simp [here] at taken
  | gone => cases label <;> simp [here] at taken
  | taken => rfl
  | scanning rest batch batchBytes => rfl
  | sending item rest checked => rfl
  | aborting => rfl

/-- A step inside a job keeps it there or ends it. -/
theorem PooledRead.run_stage {read moved : PooledRead} {config : ReadPoolConfig}
    {shutdown : Bool} {label : PoolStep} (taken : read.run config shutdown label = some moved) :
    moved.stage = .gone ∨ moved.stage.running = true := by
  unfold PooledRead.run at taken
  split at taken
  · split at taken
    · obtain rfl := Option.some.inj taken
      exact Or.inr rfl
    · cases taken
  · split at taken
    · obtain rfl := Option.some.inj taken
      simp only [PooledRead.next]
      split
      · split
        · exact Or.inr rfl
        · exact Or.inr rfl
      · split
        · exact Or.inr rfl
        · split
          · exact Or.inl rfl
          · exact Or.inr rfl
    · cases taken
  · split at taken
    · split at taken
      · obtain rfl := Option.some.inj taken
        exact Or.inl rfl
      · obtain rfl := Option.some.inj taken
        exact Or.inr rfl
    · cases taken
  · split at taken
    · obtain rfl := Option.some.inj taken
      unfold PooledRead.send
      split
      · exact Or.inl rfl
      · split
        · rename_i rest _ _ _
          cases rest with
          | none => exact Or.inl rfl
          | some rest => exact Or.inr rfl
        · exact Or.inr rfl
    · cases taken
  · split at taken
    · obtain rfl := Option.some.inj taken
      exact Or.inr rfl
    · obtain rfl := Option.some.inj taken
      exact Or.inr rfl
    · cases taken
  · split at taken
    · unfold PooledRead.abort at taken
      split at taken
      · obtain rfl := Option.some.inj taken
        exact Or.inl rfl
      · split at taken
        · obtain rfl := Option.some.inj taken
          exact Or.inl rfl
        · cases taken
    · cases taken
  · cases taken

/-- What a consumer receives does not move the job. -/
theorem PooledRead.poll_stage {read moved : PooledRead} (polled : read.poll = some moved) :
    moved.stage = read.stage := by
  unfold PooledRead.poll at polled
  split at polled
  · obtain rfl := Option.some.inj polled
    rfl
  · obtain rfl := Option.some.inj polled
    rfl
  · split at polled
    · obtain rfl := Option.some.inj polled
      rfl
    · cases polled

namespace ReadPool

structure Placed (pool : ReadPool) : Prop where
  nodup : pool.pending.Nodup
  queued : ∀ place ∈ pool.pending, ∃ read, pool.reads[place]? = some read ∧ read.stage = .queued
  busy : ∀ (worker : Nat) place, pool.workers[worker]? = some (.busy place) →
    ∃ read, pool.reads[place]? = some read ∧ read.stage.running = true
  apart : ∀ (worker other : Nat) place, pool.workers[worker]? = some (.busy place) →
    pool.workers[other]? = some (.busy place) → worker = other

theorem placed_start (config : ReadPoolConfig) : (start config).Placed where
  nodup := List.nodup_nil
  queued := by simp [start]
  busy := by
    intro worker place found
    have mem := List.mem_of_getElem? found
    rw [start] at mem
    cases List.eq_of_mem_replicate mem
  apart := by
    intro worker other place found
    have mem := List.mem_of_getElem? found
    rw [start] at mem
    cases List.eq_of_mem_replicate mem

/-- A read moves on without leaving the place that its job is in. -/
theorem Placed.put {pool : ReadPool} {place : Nat} {moved : PooledRead} (placed : pool.Placed)
    (queued : place ∈ pool.pending → moved.stage = .queued)
    (busy : ∀ worker : Nat, pool.workers[worker]? = some (.busy place) →
      moved.stage.running = true) : (pool.put place moved).Placed where
  nodup := placed.nodup
  queued := by
    intro other mem
    obtain ⟨read, found, stage⟩ := placed.queued other mem
    by_cases same : place = other
    · subst same
      have inside := (List.getElem?_eq_some_iff.mp found).1
      exact ⟨moved, List.getElem?_set_self inside, queued mem⟩
    · exact ⟨read, (List.getElem?_set_ne same).trans found, stage⟩
  busy := by
    intro worker other working
    obtain ⟨read, found, stage⟩ := placed.busy worker other working
    by_cases same : place = other
    · subst same
      have inside := (List.getElem?_eq_some_iff.mp found).1
      exact ⟨moved, List.getElem?_set_self inside, busy worker working⟩
    · exact ⟨read, (List.getElem?_set_ne same).trans found, stage⟩
  apart := placed.apart

theorem Placed.put_same {pool : ReadPool} {place : Nat} {read moved : PooledRead}
    (placed : pool.Placed) (found : pool.reads[place]? = some read)
    (stage : moved.stage = read.stage) : (pool.put place moved).Placed := by
  apply placed.put
  · intro mem
    obtain ⟨former, formerFound, queued⟩ := placed.queued place mem
    rw [found] at formerFound
    cases formerFound
    rw [stage, queued]
  · intro worker working
    obtain ⟨former, formerFound, running⟩ := placed.busy worker place working
    rw [found] at formerFound
    cases formerFound
    rw [stage, running]

theorem Placed.not_pending {pool : ReadPool} {place : Nat} {read : PooledRead}
    (placed : pool.Placed) (found : pool.reads[place]? = some read)
    (elsewhere : read.stage ≠ .queued) : place ∉ pool.pending := by
  intro mem
  obtain ⟨former, formerFound, queued⟩ := placed.queued place mem
  rw [found] at formerFound
  cases formerFound
  exact elsewhere queued

theorem Placed.not_busy {pool : ReadPool} {place worker : Nat} {read : PooledRead}
    (placed : pool.Placed) (found : pool.reads[place]? = some read)
    (elsewhere : read.stage.running = false) :
    pool.workers[worker]? ≠ some (.busy place) := by
  intro working
  obtain ⟨former, formerFound, running⟩ := placed.busy worker place working
  rw [found] at formerFound
  cases formerFound
  rw [elsewhere] at running
  cases running

theorem Placed.put_free {pool : ReadPool} {place : Nat} {read moved : PooledRead}
    (placed : pool.Placed) (found : pool.reads[place]? = some read)
    (unqueued : read.stage ≠ .queued) (idle : read.stage.running = false) :
    (pool.put place moved).Placed := by
  apply placed.put
  · intro mem
    exact absurd mem (placed.not_pending found unqueued)
  · intro worker working
    exact absurd working (placed.not_busy found idle)

theorem Placed.submit {pool : ReadPool} {place : Nat} {read : PooledRead} (placed : pool.Placed)
    (found : pool.reads[place]? = some read) (held : read.stage = .held) :
    (pool.submit place read).Placed := by
  have unqueued : read.stage ≠ .queued := by simp [held]
  have idle : read.stage.running = false := by rw [held]; rfl
  have inside := (List.getElem?_eq_some_iff.mp found).1
  unfold ReadPool.submit
  split
  · exact placed.put_free found unqueued idle
  · have moves (moved : PooledRead) := @Placed.put_free pool place read moved placed found unqueued idle
    constructor
    · apply placed.nodup.append (List.nodup_singleton place)
      simpa using placed.not_pending found unqueued
    · intro other mem
      rcases List.mem_append.mp mem with before | here
      · exact (moves _).queued other before
      · rw [List.mem_singleton.mp here]
        exact ⟨_, List.getElem?_set_self inside, rfl⟩
    · exact (moves _).busy
    · exact placed.apart

theorem Placed.assign {pool : ReadPool} {place : Nat} {worker : Worker} (placed : pool.Placed)
    (free : ∀ job, worker ≠ .busy job) :
    ({ pool with workers := pool.workers.set place worker } : ReadPool).Placed := by
  have kept {other job : Nat}
      (working : (pool.workers.set place worker)[other]? = some (.busy job)) :
      pool.workers[other]? = some (.busy job) := by
    by_cases same : place = other
    · subst same
      have inside := (List.getElem?_eq_some_iff.mp working).1
      rw [List.getElem?_set_self (by simpa using inside)] at working
      exact absurd (Option.some.inj working) (free job)
    · rwa [List.getElem?_set_ne same] at working
  constructor
  · exact placed.nodup
  · exact placed.queued
  · intro other job working
    exact placed.busy other job (kept working)
  · intro first second job working again
    exact placed.apart first second job (kept working) (kept again)

theorem Placed.take {pool next : ReadPool} {worker : Nat} (placed : pool.Placed)
    (idle : pool.workers[worker]? = some .idle) (taken : pool.take worker = some next) :
    next.Placed := by
  unfold ReadPool.take at taken
  split at taken
  · rename_i place pending pendingEq
    have nodup := placed.nodup
    rw [pendingEq, List.nodup_cons] at nodup
    split at taken
    · rename_i read found
      obtain rfl := Option.some.inj taken
      have inside := (List.getElem?_eq_some_iff.mp found).1
      have queued : read.stage = .queued := by
        obtain ⟨former, formerFound, stage⟩ := placed.queued place (by simp [pendingEq])
        rw [found] at formerFound
        cases formerFound
        exact stage
      have free (other : Nat) : pool.workers[other]? ≠ some (.busy place) :=
        placed.not_busy found (by rw [queued]; rfl)
      constructor
      · exact nodup.2
      · intro other mem
        have apart : place ≠ other := by
          rintro rfl
          exact nodup.1 mem
        obtain ⟨former, formerFound, stage⟩ := placed.queued other (by simp [pendingEq, mem])
        exact ⟨former, (List.getElem?_set_ne apart).trans formerFound, stage⟩
      · intro other job working
        by_cases same : worker = other
        · subst same
          have workerInside := (List.getElem?_eq_some_iff.mp idle).1
          rw [List.getElem?_set_self workerInside] at working
          cases working
          exact ⟨_, List.getElem?_set_self inside, rfl⟩
        · rw [List.getElem?_set_ne same] at working
          obtain ⟨former, formerFound, running⟩ := placed.busy other job working
          have apart : place ≠ job := by
            rintro rfl
            exact free other working
          exact ⟨former, (List.getElem?_set_ne apart).trans formerFound, running⟩
      · intro first second job working again
        have workerInside := (List.getElem?_eq_some_iff.mp idle).1
        by_cases here : worker = first
        · by_cases there : worker = second
          · exact here.symm.trans there
          · subst here
            rw [List.getElem?_set_self workerInside] at working
            rw [List.getElem?_set_ne there] at again
            cases working
            exact absurd again (free second)
        · rw [List.getElem?_set_ne here] at working
          by_cases there : worker = second
          · subst there
            rw [List.getElem?_set_self workerInside] at again
            cases again
            exact absurd working (free first)
          · rw [List.getElem?_set_ne there] at again
            exact placed.apart first second job working again
    · cases taken
  · split at taken
    · cases taken
    · obtain rfl := Option.some.inj taken
      exact placed.assign (by simp)

theorem Placed.work {pool next : ReadPool} {worker : Nat} {label : PoolStep}
    (placed : pool.Placed) (taken : pool.work worker label = some next) : next.Placed := by
  unfold ReadPool.work at taken
  split at taken
  · rename_i place working
    simp only [Option.bind_eq_bind, Option.bind_eq_some_iff] at taken
    obtain ⟨read, found, moved, ran, taken⟩ := taken
    have running := PooledRead.run_running ran
    have unqueued : read.stage ≠ .queued := by
      intro queued
      rw [queued] at running
      cases running
    have pending := placed.not_pending found unqueued
    split at taken
    · rename_i gone
      obtain rfl := Option.some.inj taken
      have leaves := @Placed.assign pool worker .idle placed (by simp)
      apply @Placed.put { pool with workers := pool.workers.set worker .idle } place moved leaves
      · intro mem
        exact absurd mem pending
      · intro other again
        simp only at again
        by_cases same : worker = other
        · subst same
          have inside := (List.getElem?_eq_some_iff.mp working).1
          rw [List.getElem?_set_self inside] at again
          cases again
        · rw [List.getElem?_set_ne same] at again
          exact absurd (placed.apart worker other place working again) same
    · rename_i stays
      obtain rfl := Option.some.inj taken
      apply placed.put
      · intro mem
        exact absurd mem pending
      · intro _ _
        rcases PooledRead.run_stage ran with gone | still
        · exact absurd gone stays
        · exact still
  · cases taken

/-- A consumer that goes away takes the job of a pending send out. -/
theorem Placed.drop {pool : ReadPool} {place : Nat} {read : PooledRead} (placed : pool.Placed)
    (found : pool.reads[place]? = some read) :
    ({ pool.put place (read.drop (pool.hooked place)) with
        pending := if pool.hooked place then pool.pending.erase place else pool.pending } :
      ReadPool).Placed := by
  cases hookedEq : pool.hooked place with
  | true =>
      have mem : place ∈ pool.pending := by
        rw [hooked, List.contains_iff_mem] at hookedEq
        exact List.mem_of_mem_drop hookedEq
      obtain ⟨former, formerFound, queued⟩ := placed.queued place mem
      rw [found] at formerFound
      cases formerFound
      have idle : read.stage.running = false := by rw [queued]; rfl
      simp only [if_true]
      constructor
      · exact placed.nodup.erase place
      · intro other later
        obtain ⟨apart, before⟩ := placed.nodup.mem_erase_iff.mp later
        obtain ⟨last, lastFound, stage⟩ := placed.queued other before
        exact ⟨last, (List.getElem?_set_ne (Ne.symm apart)).trans lastFound, stage⟩
      · intro worker job working
        have apart : place ≠ job := by
          rintro rfl
          exact placed.not_busy found idle working
        obtain ⟨last, lastFound, running⟩ := placed.busy worker job working
        exact ⟨last, (List.getElem?_set_ne apart).trans lastFound, running⟩
      · exact placed.apart
  | false =>
      simp only [Bool.false_eq_true, if_false]
      by_cases held : read.stage = .held
      · exact placed.put_free found (by simp [held]) (by rw [held]; rfl)
      · apply placed.put_same found
        unfold PooledRead.drop
        simp only [Bool.false_eq_true, if_false]
        split
        · rename_i impossible
          exact absurd impossible held
        · rename_i queued
          exact queued.symm
        · rfl

theorem interrupt_stage (read : PooledRead) : read.interrupt.stage = read.stage := by
  unfold PooledRead.interrupt
  split
  · rfl
  · rfl

theorem Placed.signal {pool : ReadPool} (placed : pool.Placed) :
    ({ pool with shutdown := true, reads := pool.reads.map PooledRead.interrupt } :
      ReadPool).Placed := by
  have moves {place : Nat} {read : PooledRead} (found : pool.reads[place]? = some read) :
      (pool.reads.map PooledRead.interrupt)[place]? = some read.interrupt := by
    rw [List.getElem?_map, found]
    rfl
  constructor
  · exact placed.nodup
  · intro place mem
    obtain ⟨read, found, stage⟩ := placed.queued place mem
    exact ⟨_, moves found, (interrupt_stage read).trans stage⟩
  · intro worker place working
    obtain ⟨read, found, running⟩ := placed.busy worker place working
    refine ⟨_, moves found, ?_⟩
    rw [interrupt_stage]
    exact running
  · exact placed.apart

theorem Placed.read {pool : ReadPool} (placed : pool.Placed) (read : PooledRead) :
    ({ pool with reads := pool.reads ++ [read] } : ReadPool).Placed := by
  have keeps {place : Nat} {former : PooledRead} (found : pool.reads[place]? = some former) :
      (pool.reads ++ [read])[place]? = some former := by
    rw [List.getElem?_append_left (List.getElem?_eq_some_iff.mp found).1]
    exact found
  constructor
  · exact placed.nodup
  · intro place mem
    obtain ⟨former, found, stage⟩ := placed.queued place mem
    exact ⟨former, keeps found, stage⟩
  · intro worker place working
    obtain ⟨former, found, running⟩ := placed.busy worker place working
    exact ⟨former, keeps found, running⟩
  · exact placed.apart

/-- What one step of a pool does. -/
inductive Steps (pool : ReadPool) : PoolStep → ReadPool → Prop
  | read (collecting : Bool) (open_ : pool.shutdown = false) :
      Steps pool (.read collecting)
        { pool with reads := pool.reads ++ [PooledRead.new collecting] }
  | submit {place : Nat} {read : PooledRead} (found : pool.reads[place]? = some read)
      (submitting : read.phase = .submitting) :
      Steps pool (.submit place) (pool.submit place read)
  | resume {place : Nat} {read : PooledRead} (found : pool.reads[place]? = some read)
      (waiting : read.phase = .waiting) (moved : pool.hooked place = false) :
      Steps pool (.resume place) (pool.put place { read with phase := .streaming })
  | poll {place : Nat} {read moved : PooledRead} (found : pool.reads[place]? = some read)
      (streaming : read.phase = .streaming) (polled : read.poll = some moved) :
      Steps pool (.poll place) (pool.put place moved)
  | drop {place : Nat} {read : PooledRead} (found : pool.reads[place]? = some read)
      (alive : read.phase ≠ .dropped) :
      Steps pool (.drop place)
        { pool.put place (read.drop (pool.hooked place)) with
          pending := if pool.hooked place then pool.pending.erase place else pool.pending }
  | signal (open_ : pool.shutdown = false)
      (returned : ∀ read ∈ pool.reads, read.collecting = true → read.phase = .dropped) :
      Steps pool .signal
        { pool with shutdown := true, reads := pool.reads.map PooledRead.interrupt }
  | release (shut : pool.shutdown = true) (held : pool.sender = true) :
      Steps pool .release { pool with sender := false }
  | take {worker : Nat} {next : ReadPool} (idle : pool.workers[worker]? = some .idle)
      (taken : pool.take worker = some next) : Steps pool (.take worker) next
  | work {worker : Nat} {label : PoolStep} {next : ReadPool} (own : label.worker = some worker)
      (taken : pool.work worker label = some next) : Steps pool label next

theorem steps_of_step {pool next : ReadPool} {label : PoolStep}
    (taken : pool.step label = some next) : Steps pool label next := by
  cases label with
  | read collecting =>
      simp only [step] at taken
      split at taken
      · cases taken
      · rename_i open_
        obtain rfl := Option.some.inj taken
        exact .read collecting (by simpa using open_)
  | submit place =>
      simp only [step, Option.bind_eq_bind, Option.bind_eq_some_iff,
        Option.ite_none_right_eq_some, Option.some.injEq] at taken
      obtain ⟨read, found, submitting, rfl⟩ := taken
      exact .submit found submitting
  | resume place =>
      simp only [step, Option.bind_eq_bind, Option.bind_eq_some_iff,
        Option.ite_none_right_eq_some, Option.some.injEq] at taken
      obtain ⟨read, found, ⟨waiting, moved⟩, rfl⟩ := taken
      exact .resume found waiting moved
  | poll place =>
      simp only [step, Option.bind_eq_bind, Option.bind_eq_some_iff,
        Option.ite_none_right_eq_some, Option.map_eq_some_iff] at taken
      obtain ⟨read, found, streaming, moved, polled, rfl⟩ := taken
      exact .poll found streaming polled
  | drop place =>
      simp only [step, Option.bind_eq_bind, Option.bind_eq_some_iff,
        Option.ite_none_right_eq_some, Option.some.injEq] at taken
      obtain ⟨read, found, alive, rfl⟩ := taken
      exact .drop found alive
  | signal =>
      simp only [step, Option.ite_none_right_eq_some, Option.some.injEq] at taken
      obtain ⟨⟨open_, returned⟩, rfl⟩ := taken
      refine .signal open_ fun read mem collecting => ?_
      have here := List.all_eq_true.mp returned read mem
      simpa [collecting] using here
  | release =>
      simp only [step, Option.ite_none_right_eq_some, Option.some.injEq] at taken
      obtain ⟨⟨shut, held⟩, rfl⟩ := taken
      exact .release shut held
  | take worker =>
      simp only [step, Option.ite_none_right_eq_some] at taken
      exact .take taken.1 taken.2
  | begin worker scan => exact .work rfl taken
  | next worker => exact .work rfl taken
  | check worker => exact .work rfl taken
  | send worker => exact .work rfl taken
  | panic worker => exact .work rfl taken
  | abort worker => exact .work rfl taken

end ReadPool

end Tephra.Embedded
