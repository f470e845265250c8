import Tephra.Progress
import Tephra.WedgedPools

/-!
# The end of the teardown

Once the connection is marked dead every step comes closer to the return of `serve_over`, up to
spurious wake-ups and the reads that other connections queue.  The teardown gets there unless the
read pool is wedged, which it is not when reads are admitted in order.
-/

namespace Tephra.Server

open Histories Parties

/-- The steps that a worker has before it, on a dead connection. -/
def ConnWorker.weight (self : ConnWorker) : Nat :=
  self.permit.toNat + match self.place with
    | .queued => 12
    | .admitting => 11
    | .running => 9
    | .producing frames last => 2 * frames + if last then 4 else 10
    | .ending => 3
    | .leaving => 1
    | .gone => 0

/-- The steps that the pump has before it, when it has no more to receive. -/
def PumpPhase.rank (self : PumpPhase) : Nat :=
  match self with
  | .sending => 5
  | .releasing _ => 3
  | .receiving => 2
  | .leaving => 1
  | .exited => 0

def ConnWriterPhase.rank (self : ConnWriterPhase) : Nat :=
  match self with
  | .running => 4
  | .stopped => 3
  | .marked => 2
  | .shut => 1
  | .ended => 0

def ServePlace.rank (self : ServePlace) : Nat :=
  match self with
  | .looping => 7
  | .marking => 6
  | .dropping => 5
  | .waiting => 4
  | .parked => 3
  | .joiningPump => 2
  | .joiningWriter => 1
  | .returned => 0

theorem ConnWorker.weight_of_alone {self moved : ConnWorker} {choice : WorkerChoice}
    (taken : self.alone false choice = some moved) : moved.weight < self.weight := by
  cases choice with
  | produce frames => simp [alone] at taken
  | finish frames =>
      rw [alone] at taken
      split at taken
      · next goes =>
        cases taken
        simp only [weight, goTo, goes.1]
        simp
        omega
      · cases taken
  | proceed =>
      rw [alone] at taken
      split at taken
      · next last here =>
        cases taken
        cases last <;> simp [weight, goTo, here]
      · cases taken
  | panic =>
      rw [alone] at taken
      split at taken
      · next here =>
        cases taken
        simp [weight, goTo, here]
      · next frames last here =>
        cases taken
        cases last <;> simp [weight, goTo, here]
      · cases taken

namespace Serving

/-- The steps that a connection and the pool have before them, once it is marked dead. -/
def rank (self : Serving) : Nat :=
  total ConnWorker.weight self.jobs + self.bulk + self.control + 5 * self.submitted +
    4 * self.replies + 2 * self.queue.count none + self.elsewhere + self.pump.rank +
    self.writer.rank + self.place.rank

/-- Every step but a spurious wake-up and a read of another connection. -/
def cost (label : ServingStep) : Nat :=
  if label = .spurious ∨ label = .others .queueRead then 0 else 1

def gain (label : ServingStep) : Nat :=
  if label = .spurious then 1 else if label = .others .queueRead then 2 else 0

section Rank

variable {self next : Serving} {place : Nat} {worker : ConnWorker}

theorem rank_teardown (marking : self.place ≠ .marking) (taken : self.teardown = some next) :
    next.rank < self.rank ∧ next.place ≠ .looping ∧ next.place ≠ .marking := by
  rw [teardown] at taken
  split at taken
  · cases taken
  · cases taken
  · cases taken
  · next here => exact absurd here marking
  · next here =>
    cases taken
    refine ⟨?_, by simp, by simp⟩
    rw [rank, rank, here]
    exact Nat.add_lt_add_left (Nat.lt_succ_self 4) _
  · next here =>
    cases taken
    by_cases some' : 0 < self.workers
    · simp only [if_pos some']
      refine ⟨?_, by simp, by simp⟩
      rw [rank, rank, here]
      exact Nat.add_lt_add_left (Nat.lt_succ_self 3) _
    · simp only [if_neg some']
      refine ⟨?_, by simp, by simp⟩
      rw [rank, rank, here]
      exact Nat.add_lt_add_left (show 2 < 4 by decide) _
  · next here =>
    split at taken <;> cases taken
    refine ⟨?_, by simp, by simp⟩
    rw [rank, rank, here]
    exact Nat.add_lt_add_left (Nat.lt_succ_self 1) _
  · next here =>
    split at taken <;> cases taken
    refine ⟨?_, by simp, by simp⟩
    rw [rank, rank, here]
    exact Nat.add_lt_add_left (Nat.lt_succ_self 0) _

/-- A move that brings a worker closer to its end brings the connection closer to its. -/
theorem rank_put (found : self.jobs[place]? = some worker) (moved : ConnWorker)
    {permits slots : Semaphore} {count idle bulk : Nat} {line : List (Option Nat)}
    {at' : ServePlace} (queue : line.count none = self.queue.count none)
    (lower : moved.weight + bulk + at'.rank < worker.weight + self.bulk + self.place.rank) :
    rank { self with
      jobs := self.jobs.set place moved
      readInflight := permits
      readOverflow := slots
      workers := count
      queue := line
      idle := idle
      bulk := bulk
      place := at' } < self.rank := by
  have weighed := @total_set _ ConnWorker.weight _ _ _ moved found
  change total ConnWorker.weight (self.jobs.set place moved) + bulk + self.control +
    5 * self.submitted + 4 * self.replies + 2 * line.count none + self.elsewhere +
    self.pump.rank + self.writer.rank + at'.rank < _
  rw [rank]
  omega

theorem rank_lighter (found : self.jobs[place]? = some worker) (moved : ConnWorker)
    {permits slots : Semaphore} {idle : Nat} (lower : moved.weight < worker.weight) :
    rank { self with
      jobs := self.jobs.set place moved
      readInflight := permits
      readOverflow := slots
      idle := idle } < self.rank :=
  rank_put found moved rfl (Nat.add_lt_add_right (Nat.add_lt_add_right lower _) _)

theorem rank_pickUp (found : self.jobs[place]? = some worker)
    (taken : self.work place worker .pickUp = some next) : next.rank < self.rank := by
  rw [work] at taken
  split at taken
  case isFalse => cases taken
  next takes =>
  obtain ⟨queued, first, -⟩ := takes
  cases taken
  have front : self.queue = some place :: self.queue.tail := List.eq_cons_of_mem_head? first
  refine rank_put found _ ?_ ?_
  · conv_rhs => rw [front]
    simp
  · cases has : worker.permit <;> simp [ConnWorker.weight, ConnWorker.goTo, queued]

theorem rank_send (found : self.jobs[place]? = some worker)
    (taken : self.work place worker .send = some next) : next.rank < self.rank := by
  rw [work] at taken
  split at taken
  · next frames last producing =>
    split at taken
    · cases taken
      refine rank_lighter found _ ?_
      cases last <;> simp [ConnWorker.weight, ConnWorker.goTo, producing]
    · split at taken <;> cases taken
      refine rank_put found (worker.goTo (.producing frames last)) rfl ?_
      cases last <;> simp [ConnWorker.weight, ConnWorker.goTo, producing] <;> omega
  · cases taken

theorem rank_cleanup (found : self.jobs[place]? = some worker)
    (taken : self.work place worker .cleanup = some next) : next.rank < self.rank := by
  rw [work] at taken
  split at taken
  case isFalse => cases taken
  next ending =>
  cases taken
  have woken : self.done.place.rank ≤ self.place.rank + 1 := by
    rw [done]
    split
    · next parked =>
      rw [parked.2]
      exact Nat.le_refl _
    · exact Nat.le_succ _
  refine @rank_put self place worker found (worker.goTo .leaving) _ _ _ _ _ _ _ rfl ?_
  have lighter : (worker.goTo .leaving).weight + 2 = worker.weight := by
    simp [ConnWorker.weight, ConnWorker.goTo, ending]
  change _ + self.bulk + self.done.place.rank < _
  omega

theorem rank_work {what : ConnWorkerStep} (dead : self.alive = false)
    (found : self.jobs[place]? = some worker)
    (taken : self.work place worker what = some next) : next.rank < self.rank := by
  cases what with
  | alone choice =>
      obtain ⟨moved, alone, rfl⟩ := Option.map_eq_some_iff.mp taken
      rw [dead] at alone
      exact rank_lighter found moved (ConnWorker.weight_of_alone alone)
  | pickUp => exact rank_pickUp found taken
  | acquire =>
      rw [work] at taken
      split at taken
      case isFalse => cases taken
      next waits =>
      obtain ⟨permits, -, rfl⟩ := Option.map_eq_some_iff.mp taken
      refine rank_lighter found { worker with permit := true, place := .running } ?_
      simp [ConnWorker.weight, waits.1]
  | giveUp =>
      rw [work] at taken
      split at taken
      case isFalse => cases taken
      next waits =>
      cases taken
      refine rank_lighter found _ ?_
      simp [ConnWorker.weight, ConnWorker.goTo, waits.1]
  | send => exact rank_send found taken
  | cleanup => exact rank_cleanup found taken
  | release =>
      rw [work] at taken
      split at taken
      case isFalse => cases taken
      next held =>
      cases taken
      refine rank_lighter found { worker with permit := false } ?_
      simp [ConnWorker.weight, held.2]
  | depart =>
      rw [work] at taken
      split at taken
      case isFalse => cases taken
      next leaves =>
      cases taken
      refine rank_lighter found _ ?_
      simp [ConnWorker.weight, ConnWorker.goTo, leaves.1]

theorem rank_pump {what : PumpStep} (taken : self.pumpStep what = some next) :
    next.rank < self.rank := by
  cases what with
  | receive =>
      rw [pumpStep] at taken
      split at taken
      case isFalse => cases taken
      next receiving =>
      cases taken
      have some' := receiving.2
      simp only [rank, receiving.1, PumpPhase.rank]
      omega
  | close =>
      rw [pumpStep] at taken
      split at taken
      case isFalse => cases taken
      next receiving =>
      cases taken
      simp only [rank, receiving.1, PumpPhase.rank]
      omega
  | send =>
      rw [pumpStep] at taken
      split at taken
      case isFalse => cases taken
      next sending =>
      split at taken
      · cases taken
        simp only [rank, sending, PumpPhase.rank]
        omega
      · split at taken <;> cases taken
        simp only [rank, sending, PumpPhase.rank]
        omega
  | release =>
      rw [pumpStep] at taken
      split at taken
      · next sent releasing =>
        cases taken
        cases sent <;> simp only [rank, releasing, PumpPhase.rank] <;> simp
      · cases taken
  | exit =>
      rw [pumpStep] at taken
      split at taken
      case isFalse => cases taken
      next leaving =>
      cases taken
      simp only [rank, leaving, PumpPhase.rank]
      omega

theorem rank_writer {what : WriterStep} (taken : self.writerStep what = some next) :
    next.rank < self.rank := by
  cases what with
  | writeControl =>
      rw [writerStep] at taken
      split at taken
      case isFalse => cases taken
      next writes =>
      cases taken
      have some' := writes.2
      simp only [rank]
      omega
  | writeBulk =>
      rw [writerStep] at taken
      split at taken
      case isFalse => cases taken
      next writes =>
      cases taken
      have some' := writes.2
      simp only [rank]
      omega
  | fail =>
      rw [writerStep] at taken
      split at taken
      case isFalse => cases taken
      next running =>
      cases taken
      simp only [rank, running, ConnWriterPhase.rank]
      omega
  | finish =>
      rw [writerStep] at taken
      split at taken
      case isFalse => cases taken
      next running =>
      cases taken
      simp only [rank, running.1, ConnWriterPhase.rank]
      omega
  | proceed =>
      rw [writerStep] at taken
      split at taken
      · cases taken
      · cases taken
      all_goals next here =>
        cases taken
        simp only [rank, here, ConnWriterPhase.rank]
        omega

theorem rank_others {what : OthersStep} (taken : self.othersStep what = some next) :
    next.rank + cost (.others what) ≤ self.rank + gain (.others what) := by
  cases what with
  | queueRead =>
      cases taken
      simp only [rank, cost, gain, List.count_append]
      simp
      omega
  | pickUp =>
      rw [othersStep] at taken
      split at taken
      case isFalse => cases taken
      next takes =>
      cases taken
      have front : self.queue = none :: self.queue.tail := List.eq_cons_of_mem_head? takes.1
      have fewer : self.queue.count none = self.queue.tail.count none + 1 := by
        conv_lhs => rw [front]
        simp
      simp only [rank, cost, gain, fewer]
      simp
      omega
  | complete =>
      rw [othersStep] at taken
      split at taken
      case isTrue => cases taken
      cases taken
      simp only [rank, cost, gain]
      simp
      omega
  | reply =>
      rw [othersStep] at taken
      split at taken
      case isTrue => cases taken
      cases taken
      simp only [rank, cost, gain]
      split <;> simp <;> omega

end Rank

theorem place_of_work {self next : Serving} {place : Nat} {worker : ConnWorker}
    {what : ConnWorkerStep} (taken : self.work place worker what = some next) :
    next.place = self.place ∨ next.place = .waiting := by
  cases what with
  | alone choice =>
      obtain ⟨moved, -, rfl⟩ := Option.map_eq_some_iff.mp taken
      exact .inl rfl
  | acquire =>
      rw [work] at taken
      split at taken
      · obtain ⟨permits, -, rfl⟩ := Option.map_eq_some_iff.mp taken
        exact .inl rfl
      · cases taken
  | send =>
      rw [work] at taken
      split at taken
      · split at taken
        · cases taken
          exact .inl rfl
        · split at taken <;> cases taken
          exact .inl rfl
      · cases taken
  | cleanup =>
      rw [work] at taken
      split at taken <;> cases taken
      rw [done]
      dsimp only
      split
      · exact .inr rfl
      · exact .inl rfl
  | pickUp | giveUp | release | depart =>
      rw [work] at taken
      split at taken <;> cases taken
      exact .inl rfl

theorem place_of_others {self next : Serving} {what : OthersStep}
    (taken : self.othersStep what = some next) : next.place = self.place := by
  cases what with
  | queueRead =>
      cases taken
      rfl
  | pickUp | complete | reply =>
      rw [othersStep] at taken
      split at taken <;> cases taken
      rfl

theorem closing_step (self : Serving) (label : ServingStep) (next : Serving)
    (closing : self.Closing) (taken : self.step label = some next) :
    next.Closing ∧ next.rank + cost label ≤ self.rank + gain label := by
  obtain ⟨settled, looping, marking⟩ := closing
  have still := settled_step settled taken
  cases label with
  | loop what =>
      rw [step, if_neg looping] at taken
      cases taken
  | teardown =>
      obtain ⟨lower, places⟩ := rank_teardown marking taken
      exact ⟨⟨still, places.1, places.2⟩, lower⟩
  | spurious =>
      rw [step] at taken
      split at taken
      case isFalse => cases taken
      next parked =>
      cases taken
      refine ⟨⟨still, by simp, by simp⟩, ?_⟩
      rw [rank, rank, parked]
      exact Nat.le_refl _
  | work place what =>
      obtain ⟨worker, found, taken⟩ := Option.bind_eq_some_iff.mp taken
      have lower := rank_work (settled.placed.dead looping marking) found taken
      rcases place_of_work taken with same | woken
      · exact ⟨⟨still, same ▸ looping, same ▸ marking⟩, lower⟩
      · exact ⟨⟨still, by simp [woken], by simp [woken]⟩, lower⟩
  | pump what =>
      have lower := rank_pump taken
      obtain ⟨control, replies, pump, rfl⟩ := frame_of_pump taken
      exact ⟨⟨still, looping, marking⟩, lower⟩
  | writer what =>
      have lower := rank_writer taken
      obtain ⟨alive, control, bulk, writer, rfl⟩ := frame_of_writer taken
      exact ⟨⟨still, looping, marking⟩, lower⟩
  | others what =>
      have same := place_of_others taken
      exact ⟨⟨still, same ▸ looping, same ▸ marking⟩, rank_others taken⟩

/-- Something can happen other than a spurious wake-up and a read of another connection. -/
def Goes (self : Serving) : Prop :=
  ∃ label, cost label = 1 ∧ (self.step label).isSome = true

section Progress

variable {self : Serving} {place : Nat} {worker : ConnWorker}

theorem goes_of_writer (live : self.writer ≠ .ended)
    (work : self.writer = .running →
      self.control ≠ 0 ∨ self.bulk ≠ 0 ∨ self.disconnected = true) : self.Goes := by
  cases phase : self.writer with
  | running =>
      rcases work phase with control | bulk | past
      · exact ⟨.writer .writeControl, rfl, by simp [step, writerStep, phase, control]⟩
      · exact ⟨.writer .writeBulk, rfl, by simp [step, writerStep, phase, bulk]⟩
      · exact ⟨.writer .finish, rfl, by simp [step, writerStep, phase, past]⟩
  | stopped => exact ⟨.writer .proceed, rfl, by simp [step, writerStep, phase]⟩
  | marked => exact ⟨.writer .proceed, rfl, by simp [step, writerStep, phase]⟩
  | shut => exact ⟨.writer .proceed, rfl, by simp [step, writerStep, phase]⟩
  | ended => exact absurd phase live

/-- A worker that waits for no permit goes on, or the writer makes room for its frame. -/
theorem goes_of_worker (crewed : self.Crewed) (found : self.jobs[place]? = some worker)
    (queued : worker.place ≠ .queued)
    (admitted : worker.place = .admitting → worker.cancelled = true ∨ self.readInflight.permits ≠ 0)
    (live : worker.isGone = false) : self.Goes := by
  have goes (what : ConnWorkerStep) (does : (self.work place worker what).isSome = true) :
      self.Goes :=
    ⟨.work place what, rfl, by simpa [step, found] using does⟩
  cases here : worker.place with
  | queued => exact absurd here queued
  | admitting =>
      cases quit : worker.cancelled with
      | true => exact goes .giveUp (by simp [work, here, quit])
      | false =>
          have free := (admitted here).resolve_left (by simp [quit])
          exact goes .acquire (by simp [work, here, quit, Semaphore.tryAcquire, free])
  | running => exact goes (.alone (.finish 0)) (by simp [work, ConnWorker.alone, here])
  | producing frames last =>
      cases frames with
      | zero => exact goes (.alone .proceed) (by simp [work, ConnWorker.alone, here])
      | succ frames =>
          by_cases ended : self.writer = .ended
          · exact goes .send (by simp [work, here, ended])
          · by_cases room : self.bulk < self.bulkDepth
            · exact goes .send (by simp [work, here, ended, room])
            · have depth := crewed.depths.2
              exact goes_of_writer ended fun _ => .inr (.inl (by omega))
  | ending => exact goes .cleanup (by simp [work, here])
  | leaving =>
      cases has : worker.permit with
      | true => exact goes .release (by simp [work, here, has])
      | false => exact goes .depart (by simp [work, here, has])
  | gone => simp [ConnWorker.isGone, here] at live

theorem goes_of_queue (crewed : self.Crewed) (some' : self.queue ≠ []) (idle : self.idle ≠ 0) :
    self.Goes := by
  obtain ⟨first, rest, front⟩ := List.exists_cons_of_ne_nil some'
  cases first with
  | none => exact ⟨.others .pickUp, rfl, by simp [step, othersStep, front, idle]⟩
  | some place =>
      obtain ⟨worker, found, queued⟩ :=
        (crewed.queued place).mp (by rw [front]; exact List.mem_cons_self)
      exact ⟨.work place .pickUp, rfl, by simp [step, work, found, queued, front, idle]⟩

/-- When nothing goes, every worker that is not gone waits in the queue or for a permit. -/
theorem waits_of_stuck (crewed : self.Crewed) (stuck : ¬ self.Goes) (member : worker ∈ self.jobs)
    (live : worker.isGone = false) :
    worker.place = .queued ∧ self.idle = 0 ∨
      worker.place = .admitting ∧ worker.cancelled = false ∧ self.readInflight.permits = 0 := by
  obtain ⟨place, found⟩ := List.getElem?_of_mem member
  by_cases queued : worker.place = .queued
  · refine .inl ⟨queued, ?_⟩
    by_contra idle
    have here := (crewed.queued place).mpr ⟨worker, found, queued⟩
    exact stuck (goes_of_queue crewed (List.ne_nil_of_mem here) idle)
  · refine .inr ?_
    by_contra free
    refine stuck (goes_of_worker crewed found queued (fun admitting => ?_) live)
    cases quit : worker.cancelled with
    | true => exact .inl rfl
    | false => exact .inr fun none => free ⟨admitting, quit, none⟩

theorem wedged_of_stuck (crewed : self.Crewed) (stuck : ¬ self.Goes) (some' : 0 < self.workers) :
    self.Wedged := by
  have waits {worker : ConnWorker} := @waits_of_stuck self worker crewed stuck
  have elsewhere : self.elsewhere = 0 := by
    by_contra busy
    exact stuck ⟨.others .complete, rfl, by simp [step, othersStep, busy]⟩
  have waiting {worker : ConnWorker} (member : worker ∈ self.jobs)
      (onPool : worker.onPool = true) : worker.place = .admitting ∧ worker.cancelled = false ∧
        self.readInflight.permits = 0 := by
    refine (waits member ?_).resolve_left fun queued => ?_
    · cases here : worker.place <;> simp [ConnWorker.onPool, ConnWorker.isGone, here] at onPool ⊢
    · simp [ConnWorker.onPool, queued.1] at onPool
  have permits : self.readInflight.permits = 0 := by
    rw [crewed.counted] at some'
    obtain ⟨worker, member, counted⟩ := List.countP_pos_iff.mp some'
    have live : worker.isGone = false := by
      cases here : worker.place <;>
        simp [ConnWorker.counted, ConnWorker.isGone, here] at counted ⊢
    rcases waits member live with ⟨-, idle⟩ | ⟨-, -, none⟩
    · have staffed := crewed.staffed
      obtain ⟨there, on, onPool⟩ :=
        List.countP_pos_iff.mp (show 0 < self.jobs.countP ConnWorker.onPool by omega)
      exact (waiting on onPool).2.2
    · exact none
  have held {worker : ConnWorker} (member : worker ∈ self.jobs)
      (permit : worker.permit = true) : worker.place = .queued ∧ self.idle = 0 := by
    obtain ⟨admitted, stays⟩ := (crewed.holds worker member).admitted permit
    refine (waits member ?_).resolve_right fun here => admitted here.1
    cases here : worker.place <;> simp [ConnWorker.isGone, here] at stays ⊢
  have conserved := crewed.permits
  have capacity := crewed.capacity
  obtain ⟨holder, there, permit⟩ :=
    List.countP_pos_iff.mp (show 0 < self.jobs.countP ConnWorker.permit by omega)
  exact ⟨(held there permit).2, elsewhere, permits,
    fun worker member onPool => ⟨(waiting member onPool).1, (waiting member onPool).2.1⟩,
    fun worker member permit => (held member permit).1⟩

theorem goes_of_pump (crewed : self.Crewed) (dropped : self.dropped = true)
    (live : self.pump ≠ .exited) : self.Goes := by
  cases phase : self.pump with
  | receiving =>
      by_cases replies : self.replies = 0
      · by_cases submitted : self.submitted = 0
        · exact ⟨.pump .close, rfl,
            by simp [step, pumpStep, phase, replies, submitted, dropped]⟩
        · exact ⟨.others .reply, rfl, by simp [step, othersStep, submitted]⟩
      · exact ⟨.pump .receive, rfl, by simp [step, pumpStep, phase, replies]⟩
  | sending =>
      by_cases ended : self.writer = .ended
      · exact ⟨.pump .send, rfl, by simp [step, pumpStep, phase, ended]⟩
      · by_cases room : self.control < self.controlDepth
        · exact ⟨.pump .send, rfl, by simp [step, pumpStep, phase, ended, room]⟩
        · have depth := crewed.depths.1
          exact goes_of_writer ended fun _ => .inl (by omega)
  | releasing sent => exact ⟨.pump .release, rfl, by simp [step, pumpStep, phase]⟩
  | leaving => exact ⟨.pump .exit, rfl, by simp [step, pumpStep, phase]⟩
  | exited => exact absurd phase live

/-- A writer that is joined goes on, or a worker that still has its handles does. -/
theorem goes_of_joining (settled : self.Settled) (here : self.place = .joiningWriter)
    (live : self.writer ≠ .ended) : self.Goes := by
  obtain ⟨crewed, placed⟩ := settled
  cases past : self.jobs.all ConnWorker.isGone with
  | true =>
      refine goes_of_writer live fun _ => .inr (.inr ?_)
      simp [disconnected, dropped, here, placed.pumped (.inl here), past]
  | false =>
      rw [List.all_eq_false] at past
      obtain ⟨worker, member, stays⟩ := past
      obtain ⟨place, found⟩ := List.getElem?_of_mem member
      have none := placed.waited (.inr (.inl here))
      rw [crewed.counted, List.countP_eq_zero] at none
      have cleaned := none worker member
      refine goes_of_worker crewed found (fun queued => ?_) (fun admitting => ?_)
        (eq_false_of_ne_true stays)
      · exact absurd (by rw [ConnWorker.counted, queued]) cleaned
      · exact absurd (by rw [ConnWorker.counted, admitting]) cleaned

/-- As long as `serve_over` has not returned, something goes on, or the pool is wedged. -/
theorem goes_of_open (settled : self.Settled) (looping : self.place ≠ .looping)
    (returned : self.place ≠ .returned) (free : ¬ self.Wedged) : self.Goes := by
  obtain ⟨crewed, placed⟩ := settled
  cases here : self.place with
  | looping => exact absurd here looping
  | marking => exact ⟨.teardown, rfl, by simp [step, teardown, here]⟩
  | dropping => exact ⟨.teardown, rfl, by simp [step, teardown, here]⟩
  | waiting => exact ⟨.teardown, rfl, by simp [step, teardown, here]⟩
  | parked =>
      by_contra stuck
      exact free (wedged_of_stuck crewed stuck (placed.waits here))
  | joiningPump =>
      by_cases exited : self.pump = .exited
      · exact ⟨.teardown, rfl, by simp [step, teardown, here, exited]⟩
      · exact goes_of_pump crewed (by simp [dropped, here]) exited
  | joiningWriter =>
      by_cases ended : self.writer = .ended
      · exact ⟨.teardown, rfl, by simp [step, teardown, here, ended]⟩
      · exact goes_of_joining ⟨crewed, placed⟩ here ended
  | returned => exact absurd here returned

end Progress

section Runs

variable {labels : List ServingStep} {self last : Serving}

theorem closing_of_run (closing : self.Closing) (ran : run step self labels = some last) :
    last.Closing :=
  invariant_of_steps (fun serving label next closing taken =>
    (closing_step serving label next closing taken).1) closing ran

theorem wedged_of_run (wedged : self.Wedged) (closing : self.Closing)
    (ran : run step self labels = some last) : last.Wedged := by
  have kept (serving : Serving) (label : ServingStep) (next : Serving)
      (both : serving.Wedged ∧ serving.Closing) (taken : serving.step label = some next) :
      next.Wedged ∧ next.Closing :=
    ⟨both.1.step both.2 taken, (closing_step serving label next both.2 taken).1⟩
  exact (invariant_of_steps kept ⟨wedged, closing⟩ ran).1

/-- Reads that were admitted in order are in order, also behind the end of the request loop. -/
theorem inOrder_of_run {first : Serving} {earlier : List ServingStep} (inOrder : first.InOrder)
    (settled : first.Settled) (allowed : Allowed step AdmitsInOrder first earlier)
    (reached : run step first earlier = some self) (closing : self.Closing)
    (ran : run step self labels = some last) : last.InOrder := by
  have looping (serving : Serving) (label : ServingStep) (next : Serving)
      (both : serving.InOrder ∧ serving.Settled) (here : serving.AdmitsInOrder label)
      (taken : serving.step label = some next) : next.InOrder ∧ next.Settled :=
    ⟨both.1.step both.2.crewed here taken, settled_step both.2 taken⟩
  have behind (serving : Serving) (label : ServingStep) (next : Serving)
      (both : serving.InOrder ∧ serving.Closing) (taken : serving.step label = some next) :
      next.InOrder ∧ next.Closing :=
    ⟨both.1.closing both.2 taken, (closing_step serving label next both.2 taken).1⟩
  have left := (invariant_of_run looping ⟨inOrder, settled⟩ allowed reached).1
  exact (invariant_of_steps behind ⟨left, closing⟩ ran).1

end Runs

/-- `serve_over` has returned, with everything that it waited for at its end. -/
structure Ended (serving : Serving) : Prop where
  returned : serving.place = .returned
  cleaned : ∀ worker ∈ serving.jobs, worker.counted = false
  pump : serving.pump = .exited
  writer : serving.writer = .ended

/-- Behind the end of the request loop the teardown takes at most as many steps as the rank, the
spurious wake-ups and the reads of other connections allow, whatever its workers, its appends and
its socket do.  If the read pool is wedged it stays so, and `serve_over` does not return.  If it is
not, and nothing can be taken any more, `serve_over` has returned.  A pool whose reads were admitted
in order is not wedged. -/
theorem teardown_ends {controlDepth bulkDepth reads poolSize : Nat}
    (depths : 1 ≤ controlDepth ∧ 1 ≤ bulkDepth) {earlier labels : List ServingStep}
    {self last : Serving}
    (reached : run step (start controlDepth bulkDepth reads poolSize) earlier = some self)
    (left : self.place ≠ .looping ∧ self.place ≠ .marking)
    (ran : run step self labels = some last) :
    last.rank + total cost labels ≤ self.rank + total gain labels ∧
      (self.Wedged → last.Wedged ∧ last.place ≠ .returned) ∧
      (¬ last.Goes → ¬ last.Wedged → last.Ended) ∧
      (Allowed step AdmitsInOrder (start controlDepth bulkDepth reads poolSize) earlier →
        ¬ last.Wedged) := by
  have first := Settled.start depths reads poolSize
  have settled : self.Settled :=
    invariant_of_steps (fun _ _ _ settled taken => settled_step settled taken) first reached
  have closing : self.Closing := ⟨settled, left.1, left.2⟩
  obtain ⟨⟨crewed, placed⟩, looping, -⟩ := closing_of_run closing ran
  have none (returned : last.place = .returned) : last.workers = 0 :=
    placed.waited (.inr (.inr returned))
  refine ⟨cost_of_run closing_step closing ran, fun wedged => ?_, fun stuck free => ?_,
    fun allowed => ?_⟩
  · have still := wedged_of_run wedged closing ran
    refine ⟨still, fun returned => ?_⟩
    have counted := still.counted crewed
    have cleaned := none returned
    omega
  · have returned : last.place = .returned := by
      by_contra open'
      exact stuck (goes_of_open ⟨crewed, placed⟩ looping open' free)
    have cleaned := none returned
    rw [crewed.counted, List.countP_eq_zero] at cleaned
    exact ⟨returned, fun worker member => eq_false_of_ne_true (cleaned worker member),
      placed.pumped (.inr returned), placed.written returned⟩
  · have inOrder := inOrder_of_run (.start controlDepth bulkDepth reads poolSize) first allowed
      reached closing ran
    exact inOrder.not_wedged crewed

/-- One worker and a budget of one read: the second read waits on the worker for a permit, and the
third one is behind it with the permit.  The teardown is parked for good. -/
theorem one_worker_wedges_teardown :
    ∃ labels last, run step (start 64 1 1 1) labels = some last ∧
      last.place = .parked ∧ last.Wedged := by
  refine ⟨[.loop .spawnRead, .work 0 .pickUp, .loop .spawnRead, .work 0 (.alone (.finish 0)),
    .work 0 (.alone .proceed), .work 0 .release, .loop .spawnRead, .work 0 .cleanup,
    .work 0 .depart, .work 1 .pickUp, .loop .leave, .teardown, .teardown, .teardown], _, rfl, rfl,
    rfl, rfl, rfl, ?_, ?_⟩
  all_goals decide

/-- On a pool of one worker, two reads with one permit, an append, and a read of another
connection, when the request loop ends. -/
def busyConnection : List ServingStep :=
  [.others .queueRead, .loop .spawnRead, .loop .spawnRead, .loop .submit, .loop .leave,
    .others .pickUp, .teardown]

/-- The read of the other connection ends, the first read sends its end, and the second one gets
the worker and the permit. -/
def busyTeardown : List ServingStep :=
  [.teardown, .teardown, .others .complete, .work 0 .pickUp, .work 0 (.alone (.finish 1)),
    .others .reply, .work 0 .send, .work 0 (.alone .proceed), .work 0 .cleanup, .spurious,
    .teardown, .work 0 .release, .work 0 .depart, .work 1 .pickUp, .work 1 .acquire]

theorem teardown_ends_busy :
    ∃ self last, run step (start 64 1 1 1) busyConnection = some self ∧
      run step self busyTeardown = some last ∧ last.workers = 1 ∧
      last.rank + total cost busyTeardown ≤ self.rank + total gain busyTeardown ∧
      (¬ last.Goes → last.Ended) ∧ ¬ last.Wedged := by
  have allowed : Allowed step AdmitsInOrder (start 64 1 1 1) busyConnection := by
    decide +kernel
  have computed : (run step (start 64 1 1 1) busyConnection).any (fun self =>
      decide (self.place = .dropping ∧
        (run step self busyTeardown).any (fun last => decide (last.workers = 1)) = true)) =
          true := by
    decide +kernel
  obtain ⟨self, reached, shown⟩ := (Option.any_eq_true _ _).mp computed
  obtain ⟨dropping, goesOn⟩ := of_decide_eq_true shown
  obtain ⟨last, ran, workers⟩ := (Option.any_eq_true _ _).mp goesOn
  obtain ⟨paid, -, ends, inOrder⟩ :=
    teardown_ends (by decide) reached (by simp [dropping]) ran
  have free := inOrder allowed
  exact ⟨self, last, reached, ran, of_decide_eq_true workers, paid,
    fun stuck => ends stuck free, free⟩

end Serving

end Tephra.Server
