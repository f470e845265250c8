import Mathlib.Data.List.ReduceOption
import Tephra.ConnTeardown
import Tephra.Parties

/-!
# What holds of a connection

The wait group counts the workers that have not cleaned up, permits are neither lost nor made up,
the queue of the read pool has the reads that wait in it, and the thread of `serve_over` is parked
only while there is a worker to wait for.
-/

namespace Tephra.Server

open Parties

/-- The worker is with its frames, or behind them. -/
def WorkerPlace.Runs (self : WorkerPlace) : Prop :=
  match self with
  | .running | .producing _ _ | .ending => True
  | _ => False

namespace ConnWorker

variable {self moved : ConnWorker}

/-- A permit is held by a worker that was admitted, and the pool has to do with reads only. -/
structure Holds (worker : ConnWorker) : Prop where
  admitted : worker.permit = true → worker.place ≠ .admitting ∧ worker.place ≠ .gone
  pooled : worker.place = .queued ∨ worker.place = .admitting → worker.pooled = true

theorem counted_of_runs (runs : self.place.Runs) : self.counted = true := by
  cases here : self.place <;> simp [counted, WorkerPlace.Runs, here] at runs ⊢

theorem onPool_of_runs (runs : self.place.Runs) : self.onPool = self.pooled := by
  cases here : self.place <;> simp [onPool, WorkerPlace.Runs, here] at runs ⊢

theorem holds_of_runs (runs : self.place.Runs) : self.Holds := by
  cases here : self.place <;> simp only [WorkerPlace.Runs, here] at runs
  all_goals exact ⟨by simp [here], by simp [here]⟩

theorem ne_queued_of_runs (runs : self.place.Runs) : self.place ≠ .queued := by
  intro queued
  rw [queued] at runs
  exact runs

/-- A worker that moves by itself is with its frames. -/
theorem runs_of_alone {alive : Bool} {choice : WorkerChoice}
    (taken : self.alone alive choice = some moved) :
    self.place.Runs ∧ ∃ next : WorkerPlace, moved = self.goTo next ∧ next.Runs := by
  cases choice with
  | produce frames =>
      rw [alone] at taken
      split at taken
      · next goes =>
        cases taken
        exact ⟨by rw [goes.1]; trivial, _, rfl, trivial⟩
      · cases taken
  | finish frames =>
      rw [alone] at taken
      split at taken
      · next goes =>
        cases taken
        exact ⟨by rw [goes.1]; trivial, _, rfl, trivial⟩
      · cases taken
  | proceed =>
      rw [alone] at taken
      split at taken
      · next last here =>
        cases taken
        exact ⟨by rw [here]; trivial, _, rfl, by cases last <;> trivial⟩
      · cases taken
  | panic =>
      rw [alone] at taken
      split at taken
      · next here =>
        cases taken
        exact ⟨by rw [here]; trivial, _, rfl, trivial⟩
      · next here =>
        cases taken
        exact ⟨by rw [here]; trivial, _, rfl, trivial⟩
      · cases taken

end ConnWorker

namespace Serving

/-- The lanes have a place, the permits are conserved, the wait group counts the workers that have
not cleaned up, and the queue has the reads that wait in it, in the order in which they came. -/
structure Crewed (serving : Serving) : Prop where
  depths : 1 ≤ serving.controlDepth ∧ 1 ≤ serving.bulkDepth
  capacity : 1 ≤ serving.readInflight.capacity
  permits : serving.readInflight.permits + serving.jobs.countP ConnWorker.permit =
    serving.readInflight.capacity
  holds : ∀ worker ∈ serving.jobs, worker.Holds
  counted : serving.workers = serving.jobs.countP ConnWorker.counted
  staffed : 1 ≤ serving.idle + serving.elsewhere + serving.jobs.countP ConnWorker.onPool
  line : serving.queue.reduceOption.Pairwise (· < ·)
  queued : ∀ place, some place ∈ serving.queue ↔
    ∃ worker, serving.jobs[place]? = some worker ∧ worker.place = .queued

namespace Crewed

variable {self next : Serving} {place : Nat} {worker : ConnWorker}

theorem start {controlDepth bulkDepth : Nat} (depths : 1 ≤ controlDepth ∧ 1 ≤ bulkDepth)
    (reads poolSize : Nat) : (start controlDepth bulkDepth reads poolSize).Crewed where
  depths := depths
  capacity := Semaphore.one_le_capacity_new reads
  permits := rfl
  holds _ member := absurd member List.not_mem_nil
  counted := rfl
  staffed := Nat.le_max_right poolSize 1
  line := .nil
  queued place := by simp [Serving.start]

/-- A worker joins, and is queued if it is a read. -/
theorem join (crewed : self.Crewed) {joining : ConnWorker} (counts : joining.counted = true)
    (holds : joining.Holds) {permits slots : Semaphore}
    (permitsEq : permits.permits + joining.permit.toNat = self.readInflight.permits)
    (capacityEq : permits.capacity = self.readInflight.capacity) {line : List (Option Nat)}
    (lineEq : line = self.queue ∧ joining.place ≠ .queued ∨
      line = self.queue ++ [some self.jobs.length] ∧ joining.place = .queued) :
    Crewed { self with
      jobs := self.jobs ++ [joining]
      workers := self.workers + 1
      queue := line
      readInflight := permits
      readOverflow := slots } := by
  have inside {other : Nat} (queued : some other ∈ self.queue) : other < self.jobs.length := by
    obtain ⟨worker, found, -⟩ := (crewed.queued other).mp queued
    exact (List.getElem?_eq_some_iff.mp found).1
  constructor
  case depths => exact crewed.depths
  case capacity => exact capacityEq ▸ crewed.capacity
  case permits =>
    have before := crewed.permits
    change permits.permits + (self.jobs ++ [joining]).countP _ = permits.capacity
    rw [List.countP_append, capacityEq, ← before, List.countP_singleton]
    cases has : joining.permit <;> simp [has] at permitsEq ⊢ <;> omega
  case holds =>
    intro other member
    rcases List.mem_append.mp member with before | last
    · exact crewed.holds other before
    · rwa [List.mem_singleton.mp last]
  case counted =>
    change self.workers + 1 = (self.jobs ++ [joining]).countP _
    rw [List.countP_append, crewed.counted, List.countP_singleton, if_pos counts]
  case staffed =>
    change 1 ≤ self.idle + self.elsewhere + (self.jobs ++ [joining]).countP _
    rw [List.countP_append]
    have before := crewed.staffed
    omega
  case line =>
    rcases lineEq with ⟨rfl, -⟩ | ⟨rfl, -⟩
    · exact crewed.line
    · change (self.queue ++ [some self.jobs.length]).reduceOption.Pairwise _
      rw [List.reduceOption_append]
      refine List.pairwise_append.mpr ⟨crewed.line, List.pairwise_singleton _ _, ?_⟩
      intro other queued last member
      obtain rfl : last = self.jobs.length := by simpa using member
      exact inside (List.reduceOption_mem_iff.mp queued)
  case queued =>
    intro other
    change some other ∈ line ↔ ∃ worker, (self.jobs ++ [joining])[other]? = some worker ∧ _
    by_cases old : other < self.jobs.length
    · rw [List.getElem?_append_left old, ← crewed.queued other]
      rcases lineEq with ⟨rfl, -⟩ | ⟨rfl, -⟩
      · rfl
      · simp [Nat.ne_of_lt old]
    · have behind : some other ∉ self.queue := fun queued => old (inside queued)
      rw [List.getElem?_append_right (Nat.le_of_not_lt old)]
      rcases lineEq with ⟨rfl, apart⟩ | ⟨rfl, queued⟩
      · cases count : other - self.jobs.length <;> simp [behind, apart]
      · have here : other = self.jobs.length ↔ other - self.jobs.length = 0 := by omega
        cases count : other - self.jobs.length <;> simp [behind, queued, here, count]

/-- A worker moves; if it leaves the queue, it was the first in it. -/
theorem put (crewed : self.Crewed) (found : self.jobs[place]? = some worker)
    (moved : ConnWorker) (holds : moved.Holds) {permits slots : Semaphore} {count idle bulk : Nat}
    {line : List (Option Nat)} {at' : ServePlace}
    (permitsEq : permits.permits + moved.permit.toNat =
      self.readInflight.permits + worker.permit.toNat)
    (capacityEq : permits.capacity = self.readInflight.capacity)
    (countEq : count + worker.counted.toNat = self.workers + moved.counted.toNat)
    (idleEq : idle + moved.onPool.toNat = self.idle + worker.onPool.toNat)
    (lineEq : line = self.queue ∧ (moved.place = .queued ↔ worker.place = .queued) ∨
      self.queue = some place :: line ∧ moved.place ≠ .queued) :
    Crewed { self with
      jobs := self.jobs.set place moved
      readInflight := permits
      readOverflow := slots
      workers := count
      queue := line
      idle := idle
      bulk := bulk
      place := at' } := by
  have inside : place < self.jobs.length := (List.getElem?_eq_some_iff.mp found).1
  constructor
  case depths => exact crewed.depths
  case capacity => exact capacityEq ▸ crewed.capacity
  case permits =>
    have before := crewed.permits
    have changed := @countP_set_add _ ConnWorker.permit _ _ _ moved found
    change permits.permits + (self.jobs.set place moved).countP _ = permits.capacity
    omega
  case holds =>
    intro other member
    rcases List.mem_or_eq_of_mem_set member with before | rfl
    · exact crewed.holds other before
    · exact holds
  case counted =>
    have before := crewed.counted
    have changed := @countP_set_add _ ConnWorker.counted _ _ _ moved found
    change count = (self.jobs.set place moved).countP _
    omega
  case staffed =>
    have before := crewed.staffed
    have changed := @countP_set_add _ ConnWorker.onPool _ _ _ moved found
    change 1 ≤ idle + self.elsewhere + (self.jobs.set place moved).countP _
    omega
  case line =>
    have before := crewed.line
    rcases lineEq with ⟨rfl, -⟩ | ⟨first, -⟩
    · exact before
    · rw [first, List.reduceOption_cons_of_some] at before
      exact (List.pairwise_cons.mp before).2
  case queued =>
    intro other
    change some other ∈ line ↔ ∃ worker, (self.jobs.set place moved)[other]? = some worker ∧ _
    have known := crewed.queued other
    by_cases same : other = place
    · subst same
      rw [found] at known
      rw [List.getElem?_set_self inside]
      rcases lineEq with ⟨rfl, queued⟩ | ⟨first, apart⟩
      · simpa [queued] using known
      · have ahead := crewed.line
        rw [first, List.reduceOption_cons_of_some] at ahead
        have none : some other ∉ line := fun member =>
          Nat.lt_irrefl other ((List.pairwise_cons.mp ahead).1 other
            (List.reduceOption_mem_iff.mpr member))
        simp [none, apart]
    · rw [List.getElem?_set_ne (Ne.symm same), ← known]
      rcases lineEq with ⟨rfl, -⟩ | ⟨first, -⟩
      · rfl
      · simp [first, same]

/-- A worker that is with its frames sends them, or comes to their end. -/
theorem goTo (crewed : self.Crewed) (found : self.jobs[place]? = some worker)
    (runs : worker.place.Runs) (there : WorkerPlace) (stays : there.Runs) {bulk : Nat} :
    Crewed { self with jobs := self.jobs.set place (worker.goTo there), bulk := bulk } := by
  have goes : (worker.goTo there).place.Runs := stays
  refine crewed.put found _ (ConnWorker.holds_of_runs goes) rfl rfl ?_ ?_ (.inl ⟨rfl, ?_⟩)
  · rw [ConnWorker.counted_of_runs runs, ConnWorker.counted_of_runs goes]
  · rw [ConnWorker.onPool_of_runs runs, ConnWorker.onPool_of_runs goes]
    rfl
  · exact iff_of_false (ConnWorker.ne_queued_of_runs goes) (ConnWorker.ne_queued_of_runs runs)

theorem loop {what : LoopStep} (crewed : self.Crewed) (taken : self.loop what = some next) :
    next.Crewed := by
  cases what with
  | spawnRead =>
      rw [Serving.loop] at taken
      split at taken
      · next permits acquired =>
        cases taken
        obtain ⟨capacity, fewer⟩ := Semaphore.tryAcquire_eq_some acquired
        exact @join self crewed ⟨true, true, false, .queued⟩ rfl
          ⟨fun _ => ⟨by simp, by simp⟩, fun _ => rfl⟩ _ _ fewer capacity _ (.inr ⟨rfl, rfl⟩)
      · split at taken
        · cases taken
          exact @join self crewed ⟨true, false, false, .queued⟩ rfl ⟨by simp, fun _ => rfl⟩ _ _ rfl
            rfl _ (.inr ⟨rfl, rfl⟩)
        · cases taken
          exact crewed
  | spawnSubscribe =>
      cases taken
      exact @join self crewed ⟨false, false, false, .running⟩ rfl ⟨by simp, by simp⟩ _ _ rfl rfl _
        (.inl ⟨rfl, by simp⟩)
  | submit =>
      cases taken
      exact { crewed with }
  | cancel place =>
      obtain ⟨worker, found, rfl⟩ := Option.map_eq_some_iff.mp taken
      have holds := crewed.holds worker (List.mem_of_getElem? found)
      exact crewed.put found { worker with cancelled := true } ⟨holds.admitted, holds.pooled⟩ rfl
        rfl rfl rfl (.inl ⟨rfl, .rfl⟩)
  | sendControl =>
      rw [Serving.loop] at taken
      split at taken
      · cases taken
        exact { crewed with }
      · cases taken
  | leave =>
      cases taken
      exact { crewed with }

theorem pickUp (crewed : self.Crewed) (found : self.jobs[place]? = some worker)
    (taken : self.work place worker .pickUp = some next) : next.Crewed := by
  rw [work] at taken
  split at taken
  case isFalse => cases taken
  next takes =>
  obtain ⟨queued, first, idle⟩ := takes
  cases taken
  have pooled := (crewed.holds worker (List.mem_of_getElem? found)).pooled (.inl queued)
  have front : self.queue = some place :: self.queue.tail :=
    List.eq_cons_of_mem_head? first
  refine crewed.put found _ ?_ rfl rfl ?_ ?_ (.inr ⟨front, ?_⟩)
  · constructor
    · intro permit
      have permit : worker.permit = true := permit
      simp [ConnWorker.goTo, permit]
    · exact fun _ => pooled
  · cases has : worker.permit <;> simp [ConnWorker.counted, ConnWorker.goTo, queued]
  · cases has : worker.permit <;>
      simp [ConnWorker.onPool, ConnWorker.goTo, queued, pooled] <;> omega
  · cases has : worker.permit <;> simp [ConnWorker.goTo]

theorem acquire (crewed : self.Crewed) (found : self.jobs[place]? = some worker)
    (taken : self.work place worker .acquire = some next) : next.Crewed := by
  rw [work] at taken
  split at taken
  case isFalse => cases taken
  next waits =>
  obtain ⟨permits, acquired, rfl⟩ := Option.map_eq_some_iff.mp taken
  obtain ⟨capacity, fewer⟩ := Semaphore.tryAcquire_eq_some acquired
  have holds := crewed.holds worker (List.mem_of_getElem? found)
  have without : worker.permit = false := by
    by_contra has
    exact (holds.admitted (eq_true_of_ne_false has)).1 waits.1
  refine crewed.put found { worker with permit := true, place := .running }
    (ConnWorker.holds_of_runs trivial) ?_ capacity ?_ ?_ (.inl ⟨rfl, ?_⟩)
  · simpa [without] using fewer
  · simp [ConnWorker.counted, waits.1]
  · simp [ConnWorker.onPool, waits.1]
  · simp [waits.1]

theorem giveUp (crewed : self.Crewed) (found : self.jobs[place]? = some worker)
    (taken : self.work place worker .giveUp = some next) : next.Crewed := by
  rw [work] at taken
  split at taken
  case isFalse => cases taken
  next waits =>
  cases taken
  refine crewed.put found (worker.goTo .ending) (ConnWorker.holds_of_runs trivial) rfl rfl ?_ ?_
    (.inl ⟨rfl, ?_⟩)
  · simp [ConnWorker.counted, ConnWorker.goTo, waits.1]
  · simp [ConnWorker.onPool, ConnWorker.goTo, waits.1]
  · simp [ConnWorker.goTo, waits.1]

theorem send (crewed : self.Crewed) (found : self.jobs[place]? = some worker)
    (taken : self.work place worker .send = some next) : next.Crewed := by
  rw [work] at taken
  split at taken
  · next frames last producing =>
    have runs : worker.place.Runs := by rw [producing]; trivial
    split at taken
    · cases taken
      exact crewed.goTo found runs .ending trivial
    · split at taken
      · cases taken
        exact crewed.goTo found runs (.producing frames last) trivial
      · cases taken
  · cases taken

theorem cleanup (crewed : self.Crewed) (found : self.jobs[place]? = some worker)
    (taken : self.work place worker .cleanup = some next) : next.Crewed := by
  rw [work] at taken
  split at taken
  case isFalse => cases taken
  next ending =>
  cases taken
  have counts : worker.counted = true := by rw [ConnWorker.counted, ending]
  have some' : 0 < self.workers := by
    rw [crewed.counted]
    exact List.countP_pos_iff.mpr ⟨worker, List.mem_of_getElem? found, counts⟩
  refine @put self place worker crewed found (worker.goTo .leaving)
    ⟨fun _ => by simp [ConnWorker.goTo], by simp [ConnWorker.goTo]⟩ _ _ _ _ _ _ _ rfl rfl ?_ ?_
    (.inl ⟨rfl, ?_⟩)
  · rw [counts]
    exact Nat.sub_add_cancel some'
  · simp [ConnWorker.onPool, ConnWorker.goTo, ending, done]
  · simp [ConnWorker.goTo, ending]

theorem release (crewed : self.Crewed) (found : self.jobs[place]? = some worker)
    (taken : self.work place worker .release = some next) : next.Crewed := by
  rw [work] at taken
  split at taken
  case isFalse => cases taken
  next held =>
  cases taken
  obtain ⟨behind, permit⟩ := held
  have holds := crewed.holds worker (List.mem_of_getElem? found)
  refine crewed.put found { worker with permit := false } ⟨by simp, holds.pooled⟩ ?_ rfl rfl rfl
    (.inl ⟨rfl, .rfl⟩)
  simp [permit]

theorem depart (crewed : self.Crewed) (found : self.jobs[place]? = some worker)
    (taken : self.work place worker .depart = some next) : next.Crewed := by
  rw [work] at taken
  split at taken
  case isFalse => cases taken
  next leaves =>
  cases taken
  obtain ⟨leaving, without⟩ := leaves
  refine crewed.put found (worker.goTo .gone) ⟨fun has => ?_, by simp [ConnWorker.goTo]⟩ rfl rfl
    ?_ ?_ (.inl ⟨rfl, ?_⟩)
  · exact absurd (without.symm.trans has) Bool.false_ne_true
  · simp [ConnWorker.counted, ConnWorker.goTo, leaving]
  · simp [ConnWorker.onPool, ConnWorker.goTo, leaving]
  · simp [ConnWorker.goTo, leaving]

theorem work {what : ConnWorkerStep} (crewed : self.Crewed)
    (found : self.jobs[place]? = some worker)
    (taken : self.work place worker what = some next) : next.Crewed := by
  cases what with
  | alone choice =>
      obtain ⟨moved, alone, rfl⟩ := Option.map_eq_some_iff.mp taken
      obtain ⟨runs, there, rfl, stays⟩ := ConnWorker.runs_of_alone alone
      exact crewed.goTo found runs there stays
  | pickUp => exact crewed.pickUp found taken
  | acquire => exact crewed.acquire found taken
  | giveUp => exact crewed.giveUp found taken
  | send => exact crewed.send found taken
  | cleanup => exact crewed.cleanup found taken
  | release => exact crewed.release found taken
  | depart => exact crewed.depart found taken

/-- What others do leaves the reads of the connection where they are. -/
theorem others {what : OthersStep} (crewed : self.Crewed)
    (taken : self.othersStep what = some next) : next.Crewed := by
  cases what with
  | queueRead =>
      cases taken
      exact { crewed with
        line := by
          rw [List.reduceOption_append]
          simpa using crewed.line
        queued := by
          intro place
          simpa using crewed.queued place }
  | pickUp =>
      rw [othersStep] at taken
      split at taken
      case isFalse => cases taken
      next takes =>
      obtain ⟨first, idle⟩ := takes
      cases taken
      have front : self.queue = none :: self.queue.tail := List.eq_cons_of_mem_head? first
      have line := crewed.line
      rw [front, List.reduceOption_cons_of_none] at line
      exact { crewed with
        staffed := by
          have before := crewed.staffed
          change 1 ≤ self.idle - 1 + (self.elsewhere + 1) + _
          omega
        line := line
        queued := by
          intro place
          refine Iff.trans ?_ (crewed.queued place)
          rw [front]
          simp }
  | complete =>
      rw [othersStep] at taken
      split at taken
      case isTrue => cases taken
      cases taken
      exact { crewed with
        staffed := by
          have before := crewed.staffed
          change 1 ≤ self.idle + 1 + (self.elsewhere - 1) + _
          omega }
  | reply =>
      rw [othersStep] at taken
      split at taken
      case isTrue => cases taken
      cases taken
      exact { crewed with }

end Crewed

/-- Who waits has something to wait for, and who waited has it behind. -/
structure Placed (serving : Serving) : Prop where
  waits : serving.place = .parked → 0 < serving.workers
  waited : serving.place = .joiningPump ∨ serving.place = .joiningWriter ∨
    serving.place = .returned → serving.workers = 0
  pumped : serving.place = .joiningWriter ∨ serving.place = .returned → serving.pump = .exited
  written : serving.place = .returned → serving.writer = .ended
  dead : serving.place ≠ .looping → serving.place ≠ .marking → serving.alive = false

namespace Placed

variable {self next : Serving} {place : Nat} {worker : ConnWorker}

theorem of_early (early : self.place = .looping ∨ self.place = .marking) : self.Placed := by
  constructor <;> rcases early with here | here <;> simp [here]

/-- The request loop goes on, or it has just ended. -/
theorem loop {what : LoopStep} (looping : self.place = .looping)
    (taken : self.loop what = some next) : next.Placed := by
  apply of_early
  cases what with
  | spawnRead =>
      rw [Serving.loop] at taken
      split at taken
      · cases taken
        exact .inl looping
      · split at taken <;> cases taken <;> exact .inl looping
  | spawnSubscribe =>
      cases taken
      exact .inl looping
  | submit =>
      cases taken
      exact .inl looping
  | cancel place =>
      obtain ⟨worker, -, rfl⟩ := Option.map_eq_some_iff.mp taken
      exact .inl looping
  | sendControl =>
      rw [Serving.loop] at taken
      split at taken <;> cases taken
      exact .inl looping
  | leave =>
      cases taken
      exact .inr rfl

theorem teardown (placed : self.Placed) (taken : self.teardown = some next) : next.Placed := by
  rw [Serving.teardown] at taken
  split at taken
  · cases taken
  · cases taken
  · cases taken
  · cases taken
    constructor <;> simp
  · next here =>
    cases taken
    have dead := placed.dead (by simp [here]) (by simp [here])
    constructor <;> simp [dead]
  · next here =>
    cases taken
    have dead := placed.dead (by simp [here]) (by simp [here])
    by_cases some' : 0 < self.workers
    · constructor <;> simp [dead, some']
    · have none := Nat.eq_zero_of_not_pos some'
      constructor <;> simp [dead, none]
  · next here =>
    split at taken
    case isFalse => cases taken
    next exited =>
    cases taken
    have dead := placed.dead (by simp [here]) (by simp [here])
    constructor <;> simp [dead, exited, placed.waited (.inl here)]
  · next here =>
    split at taken
    case isFalse => cases taken
    next ended =>
    cases taken
    have dead := placed.dead (by simp [here]) (by simp [here])
    constructor <;> simp [dead, ended, placed.waited (.inr (.inl here)), placed.pumped (.inl here)]

/-- The thread is woken, or it wakes by itself. -/
theorem wake (placed : self.Placed) (parked : self.place = .parked) (workers : Nat)
    (jobs : List ConnWorker) :
    Placed { self with jobs := jobs, workers := workers, place := .waiting } := by
  have dead := placed.dead (by simp [parked]) (by simp [parked])
  constructor <;> simp [dead]

/-- The last worker that cleans up wakes the thread. -/
theorem done (placed : self.Placed) (jobs : List ConnWorker) :
    Placed { self.done with jobs := jobs } := by
  by_cases parked : self.place = .parked
  · by_cases last : self.workers - 1 = 0
    · have woken := placed.wake parked (self.workers - 1) jobs
      simpa [Serving.done, parked, last] using woken
    · have dead := placed.dead (by simp [parked]) (by simp [parked])
      constructor <;> simp [Serving.done, parked, last, dead]
      omega
  · have same : self.done.place = self.place := by simp [Serving.done, parked]
    constructor
    case waits => exact fun here => absurd (same.symm.trans here) parked
    case waited =>
      intro past
      have before := placed.waited (same ▸ past)
      change self.workers - 1 = 0
      omega
    case pumped => exact fun past => placed.pumped (same ▸ past)
    case written => exact fun past => placed.written (same ▸ past)
    case dead => exact fun looping marking => placed.dead (same ▸ looping) (same ▸ marking)

theorem work {what : ConnWorkerStep} (placed : self.Placed)
    (taken : self.work place worker what = some next) : next.Placed := by
  cases what with
  | alone choice =>
      obtain ⟨moved, -, rfl⟩ := Option.map_eq_some_iff.mp taken
      exact { placed with }
  | pickUp =>
      rw [Serving.work] at taken
      split at taken <;> cases taken
      exact { placed with }
  | acquire =>
      rw [Serving.work] at taken
      split at taken
      · obtain ⟨permits, -, rfl⟩ := Option.map_eq_some_iff.mp taken
        exact { placed with }
      · cases taken
  | giveUp =>
      rw [Serving.work] at taken
      split at taken <;> cases taken
      exact { placed with }
  | send =>
      rw [Serving.work] at taken
      split at taken
      · split at taken
        · cases taken
          exact { placed with }
        · split at taken <;> cases taken
          exact { placed with }
      · cases taken
  | cleanup =>
      rw [Serving.work] at taken
      split at taken <;> cases taken
      exact placed.done _
  | release =>
      rw [Serving.work] at taken
      split at taken <;> cases taken
      exact { placed with }
  | depart =>
      rw [Serving.work] at taken
      split at taken <;> cases taken
      exact { placed with }

/-- The pump moves only while nobody has joined it. -/
theorem pump {what : PumpStep} (placed : self.Placed)
    (taken : self.pumpStep what = some next) : next.Placed := by
  have pumping (live : self.pump ≠ .exited) {pump : PumpPhase} :
      self.place = .joiningWriter ∨ self.place = .returned → pump = .exited :=
    fun past => absurd (placed.pumped past) live
  cases what with
  | receive =>
      rw [pumpStep] at taken
      split at taken
      case isFalse => cases taken
      next receiving =>
      cases taken
      exact { placed with pumped := pumping (by simp [receiving.1]) }
  | close =>
      rw [pumpStep] at taken
      split at taken
      case isFalse => cases taken
      next receiving =>
      cases taken
      exact { placed with pumped := pumping (by simp [receiving.1]) }
  | send =>
      rw [pumpStep] at taken
      split at taken
      case isFalse => cases taken
      next sending =>
      split at taken
      · cases taken
        exact { placed with pumped := pumping (by simp [sending]) }
      · split at taken <;> cases taken
        exact { placed with pumped := pumping (by simp [sending]) }
  | release =>
      rw [pumpStep] at taken
      split at taken
      · next sent releasing =>
        cases taken
        exact { placed with pumped := pumping (by simp [releasing]) }
      · cases taken
  | exit =>
      rw [pumpStep] at taken
      split at taken
      case isFalse => cases taken
      next leaving =>
      cases taken
      exact { placed with pumped := pumping (by simp [leaving]) }

/-- The writer moves only while nobody has joined it. -/
theorem writer {what : WriterStep} (placed : self.Placed)
    (taken : self.writerStep what = some next) : next.Placed := by
  have writing (live : self.writer ≠ .ended) {writer : ConnWriterPhase} :
      self.place = .returned → writer = .ended :=
    fun past => absurd (placed.written past) live
  cases what with
  | writeControl =>
      rw [writerStep] at taken
      split at taken <;> cases taken
      exact { placed with }
  | writeBulk =>
      rw [writerStep] at taken
      split at taken <;> cases taken
      exact { placed with }
  | fail =>
      rw [writerStep] at taken
      split at taken
      case isFalse => cases taken
      next running =>
      cases taken
      exact { placed with written := writing (by simp [running]) }
  | finish =>
      rw [writerStep] at taken
      split at taken
      case isFalse => cases taken
      next running =>
      cases taken
      exact { placed with written := writing (by simp [running.1]) }
  | proceed =>
      rw [writerStep] at taken
      split at taken
      · cases taken
      · cases taken
      · next here =>
        cases taken
        exact { placed with written := writing (by simp [here]), dead := fun _ _ => rfl }
      · next here =>
        cases taken
        exact { placed with written := writing (by simp [here]) }
      · next here =>
        cases taken
        exact { placed with written := writing (by simp [here]) }

theorem others {what : OthersStep} (placed : self.Placed)
    (taken : self.othersStep what = some next) : next.Placed := by
  cases what with
  | queueRead =>
      cases taken
      exact { placed with }
  | pickUp =>
      rw [othersStep] at taken
      split at taken <;> cases taken
      exact { placed with }
  | complete =>
      rw [othersStep] at taken
      split at taken <;> cases taken
      exact { placed with }
  | reply =>
      rw [othersStep] at taken
      split at taken <;> cases taken
      exact { placed with }

end Placed

theorem frame_of_teardown {self next : Serving} (taken : self.teardown = some next) :
    ∃ alive place, next = { self with alive := alive, place := place } := by
  rw [teardown] at taken
  split at taken
  · cases taken
  · cases taken
  · cases taken
  · cases taken
    exact ⟨_, _, rfl⟩
  · cases taken
    exact ⟨_, _, rfl⟩
  · cases taken
    exact ⟨_, _, rfl⟩
  · split at taken <;> cases taken
    exact ⟨_, _, rfl⟩
  · split at taken <;> cases taken
    exact ⟨_, _, rfl⟩

theorem frame_of_pump {self next : Serving} {what : PumpStep}
    (taken : self.pumpStep what = some next) :
    ∃ control replies pump,
      next = { self with control := control, replies := replies, pump := pump } := by
  cases what with
  | send =>
      rw [pumpStep] at taken
      split at taken
      · split at taken
        · cases taken
          exact ⟨_, _, _, rfl⟩
        · split at taken <;> cases taken
          exact ⟨_, _, _, rfl⟩
      · cases taken
  | receive | close | release | exit =>
      rw [pumpStep] at taken
      split at taken <;> cases taken
      exact ⟨_, _, _, rfl⟩

theorem frame_of_writer {self next : Serving} {what : WriterStep}
    (taken : self.writerStep what = some next) :
    ∃ alive control bulk writer,
      next = { self with alive := alive, control := control, bulk := bulk, writer := writer } := by
  cases what with
  | proceed =>
      rw [writerStep] at taken
      split at taken <;> cases taken <;> exact ⟨_, _, _, _, rfl⟩
  | writeControl | writeBulk | fail | finish =>
      rw [writerStep] at taken
      split at taken <;> cases taken
      exact ⟨_, _, _, _, rfl⟩

/-- What holds of a connection in every reachable state. -/
structure Settled (serving : Serving) : Prop where
  crewed : serving.Crewed
  placed : serving.Placed

theorem Settled.start {controlDepth bulkDepth : Nat} (depths : 1 ≤ controlDepth ∧ 1 ≤ bulkDepth)
    (reads poolSize : Nat) : (start controlDepth bulkDepth reads poolSize).Settled where
  crewed := .start depths reads poolSize
  placed := .of_early (.inl rfl)

theorem settled_step {self next : Serving} {label : ServingStep} (settled : self.Settled)
    (taken : self.step label = some next) : next.Settled := by
  obtain ⟨crewed, placed⟩ := settled
  cases label with
  | loop what =>
      rw [step] at taken
      split at taken
      case isFalse => cases taken
      next looping => exact ⟨crewed.loop taken, .loop looping taken⟩
  | teardown =>
      obtain ⟨alive, place, rfl⟩ := frame_of_teardown taken
      exact ⟨{ crewed with }, placed.teardown taken⟩
  | spurious =>
      rw [step] at taken
      split at taken
      case isFalse => cases taken
      next parked =>
      cases taken
      exact ⟨{ crewed with }, placed.wake parked self.workers self.jobs⟩
  | work place what =>
      obtain ⟨worker, found, taken⟩ := Option.bind_eq_some_iff.mp taken
      exact ⟨crewed.work found taken, placed.work taken⟩
  | pump what =>
      obtain ⟨control, replies, pump, rfl⟩ := frame_of_pump taken
      exact ⟨{ crewed with }, placed.pump taken⟩
  | writer what =>
      obtain ⟨alive, control, bulk, writer, rfl⟩ := frame_of_writer taken
      exact ⟨{ crewed with }, placed.writer taken⟩
  | others what => exact ⟨crewed.others taken, placed.others taken⟩

/-- The request loop has ended, and the connection is marked dead. -/
structure Closing (serving : Serving) : Prop where
  settled : serving.Settled
  looping : serving.place ≠ .looping
  marking : serving.place ≠ .marking

end Serving

end Tephra.Server
