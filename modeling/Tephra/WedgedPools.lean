import Tephra.SettledConnections

/-!
# Wedged read pools

A read pool is wedged when each of its workers waits for a permit for a read of one connection,
and the permits are with reads of that connection in the queue.  No step behind the end of the
request loop resolves that.  It does not come to it when no read takes a permit at its admission
while another one waits for a permit: then the reads with a permit are in front of those without.
-/

namespace Tephra.Server

open Parties

/-- The read waits for a permit, in the queue or on a worker of the pool. -/
def ConnWorker.Unadmitted (self : ConnWorker) : Prop :=
  self.permit = false ∧ (self.place = .queued ∨ self.place = .admitting)

instance (self : ConnWorker) : Decidable self.Unadmitted :=
  inferInstanceAs (Decidable (_ ∧ _))

namespace Serving

/-- Every worker of the pool waits for a permit for a read of the connection, and all permits are
held by reads in the queue. -/
structure Wedged (serving : Serving) : Prop where
  idle : serving.idle = 0
  elsewhere : serving.elsewhere = 0
  permits : serving.readInflight.permits = 0
  waiting : ∀ worker ∈ serving.jobs, worker.onPool = true →
    worker.place = .admitting ∧ worker.cancelled = false
  held : ∀ worker ∈ serving.jobs, worker.permit = true → worker.place = .queued

/-- A read takes a permit at its admission only when none of the connection waits for one. -/
def AdmitsInOrder (self : Serving) (label : ServingStep) : Prop :=
  label = .loop .spawnRead → self.readInflight.tryAcquire ≠ none →
    ∀ worker ∈ self.jobs, ¬ worker.Unadmitted

instance (self : Serving) (label : ServingStep) : Decidable (self.AdmitsInOrder label) :=
  inferInstanceAs (Decidable (_ → _ → _))

/-- The reads in the queue are behind those on the pool, and those with a permit are in front of
those that wait for one. -/
structure InOrder (serving : Serving) : Prop where
  ahead (place : Nat) (worker : ConnWorker) : serving.jobs[place]? = some worker →
    worker.onPool = true → ∀ behind, some behind ∈ serving.queue → place < behind
  waits (place : Nat) (worker : ConnWorker) (behind : Nat) (other : ConnWorker) :
    serving.jobs[place]? = some worker → worker.Unadmitted →
      serving.jobs[behind]? = some other → other.permit = true → other.place = .queued →
        behind < place

theorem mover_or_same {jobs : List ConnWorker} {place other : Nat} {moved worker : ConnWorker}
    (found : (jobs.set place moved)[other]? = some worker) :
    other = place ∧ worker = moved ∨ jobs[other]? = some worker := by
  by_cases same : other = place
  · subst same
    have inside : other < jobs.length := by
      by_contra outside
      simp [outside] at found
    rw [List.getElem?_set_self inside] at found
    exact .inl ⟨rfl, (Option.some.inj found).symm⟩
  · rw [List.getElem?_set_ne (Ne.symm same)] at found
    exact .inr found

theorem joined_or_same {jobs : List ConnWorker} {other : Nat} {joining worker : ConnWorker}
    (found : (jobs ++ [joining])[other]? = some worker) :
    other = jobs.length ∧ worker = joining ∨ other < jobs.length ∧ jobs[other]? = some worker := by
  by_cases old : other < jobs.length
  · rw [List.getElem?_append_left old] at found
    exact .inr ⟨old, found⟩
  · obtain ⟨inside, -⟩ := List.getElem?_eq_some_iff.mp found
    rw [List.length_append, List.length_singleton] at inside
    have here : other = jobs.length := by omega
    subst here
    rw [List.getElem?_concat_length] at found
    exact .inl ⟨rfl, (Option.some.inj found).symm⟩

namespace InOrder

variable {self next : Serving} {place : Nat} {worker : ConnWorker}

theorem start (controlDepth bulkDepth reads poolSize : Nat) :
    (start controlDepth bulkDepth reads poolSize).InOrder where
  ahead _ _ found := by simp [Serving.start] at found
  waits _ _ _ _ found := by simp [Serving.start] at found

theorem not_wedged (inOrder : self.InOrder) (crewed : self.Crewed) : ¬ self.Wedged := by
  intro wedged
  have staffed := crewed.staffed
  have permits := crewed.permits
  have capacity := crewed.capacity
  rw [wedged.idle, wedged.elsewhere] at staffed
  rw [wedged.permits] at permits
  obtain ⟨worker, member, onPool⟩ :=
    List.countP_pos_iff.mp (show 0 < self.jobs.countP ConnWorker.onPool by omega)
  obtain ⟨holder, there, permit⟩ :=
    List.countP_pos_iff.mp (show 0 < self.jobs.countP ConnWorker.permit by omega)
  obtain ⟨place, found⟩ := List.getElem?_of_mem member
  obtain ⟨behind, foundHolder⟩ := List.getElem?_of_mem there
  have queued := wedged.held holder there permit
  have waiting := (wedged.waiting worker member onPool).1
  have without : worker.permit = false := by
    by_contra has
    exact ((crewed.holds worker member).admitted (eq_true_of_ne_false has)).1 waiting
  have behindWorker := inOrder.ahead place worker found onPool behind
    ((crewed.queued behind).mpr ⟨holder, foundHolder, queued⟩)
  have beforeWorker := inOrder.waits place worker behind holder found ⟨without, .inr waiting⟩
    foundHolder permit queued
  omega

theorem put (inOrder : self.InOrder) (found : self.jobs[place]? = some worker)
    (moved : ConnWorker) {permits slots : Semaphore} {count idle bulk : Nat}
    {line : List (Option Nat)} {at' : ServePlace}
    (shorter : ∀ behind, some behind ∈ line → some behind ∈ self.queue)
    (onPool : moved.onPool = true →
      worker.onPool = true ∨ ∀ behind, some behind ∈ line → place < behind)
    (unadmitted : moved.Unadmitted → worker.Unadmitted)
    (queued : moved.place = .queued → worker.place = .queued ∧ moved.permit = worker.permit) :
    InOrder { self with
      jobs := self.jobs.set place moved
      readInflight := permits
      readOverflow := slots
      workers := count
      queue := line
      idle := idle
      bulk := bulk
      place := at' } := by
  constructor
  · intro here there foundThere has behind member
    rcases mover_or_same foundThere with ⟨rfl, rfl⟩ | before
    · rcases onPool has with already | front
      · exact inOrder.ahead _ _ found already behind (shorter behind member)
      · exact front behind member
    · exact inOrder.ahead _ _ before has behind (shorter behind member)
  · intro here there behind other foundThere waits foundOther permit isQueued
    obtain ⟨there', before, waits'⟩ : ∃ there', self.jobs[here]? = some there' ∧
        there'.Unadmitted := by
      rcases mover_or_same foundThere with ⟨rfl, rfl⟩ | before
      · exact ⟨worker, found, unadmitted waits⟩
      · exact ⟨there, before, waits⟩
    rcases mover_or_same foundOther with ⟨rfl, rfl⟩ | beforeOther
    · obtain ⟨was, same⟩ := queued isQueued
      exact inOrder.waits _ _ _ _ before waits' found (same ▸ permit) was
    · exact inOrder.waits _ _ _ _ before waits' beforeOther permit isQueued

theorem join (inOrder : self.InOrder) (joining : ConnWorker)
    {permits slots : Semaphore} {count : Nat} {line : List (Option Nat)}
    (onPool : joining.onPool = false)
    (longer : ∀ behind, some behind ∈ line →
      behind = self.jobs.length ∨ some behind ∈ self.queue)
    (alone : joining.permit = true → ∀ worker ∈ self.jobs, ¬ worker.Unadmitted) :
    InOrder { self with
      jobs := self.jobs ++ [joining]
      readInflight := permits
      readOverflow := slots
      workers := count
      queue := line } := by
  constructor
  · intro here there foundThere has behind member
    rcases joined_or_same foundThere with ⟨-, rfl⟩ | ⟨inside, before⟩
    · exact absurd (onPool.symm.trans has) Bool.false_ne_true
    · rcases longer behind member with rfl | queued
      · exact inside
      · exact inOrder.ahead _ _ before has behind queued
  · intro here there behind other foundThere waits foundOther permit isQueued
    rcases joined_or_same foundOther with ⟨-, rfl⟩ | ⟨insideOther, beforeOther⟩
    · rcases joined_or_same foundThere with ⟨-, rfl⟩ | ⟨-, before⟩
      · exact absurd (waits.1.symm.trans permit) Bool.false_ne_true
      · exact absurd waits (alone permit there (List.mem_of_getElem? before))
    · rcases joined_or_same foundThere with ⟨rfl, -⟩ | ⟨-, before⟩
      · exact insideOther
      · exact inOrder.waits _ _ _ _ before waits beforeOther permit isQueued

theorem loop {what : LoopStep} (inOrder : self.InOrder)
    (allowed : self.AdmitsInOrder (.loop what)) (taken : self.loop what = some next) :
    next.InOrder := by
  cases what with
  | spawnRead =>
      rw [Serving.loop] at taken
      split at taken
      · next permits acquired =>
        cases taken
        have none := allowed rfl (by simp [acquired])
        exact inOrder.join ⟨true, true, false, .queued⟩ rfl
          (fun behind member => by simpa [or_comm] using List.mem_append.mp member) fun _ => none
      · split at taken
        · cases taken
          exact inOrder.join ⟨true, false, false, .queued⟩ rfl
            (fun behind member => by simpa [or_comm] using List.mem_append.mp member) (by simp)
        · cases taken
          exact inOrder
  | spawnSubscribe =>
      cases taken
      exact inOrder.join ⟨false, false, false, .running⟩ rfl (fun _ => .inr) (by simp)
  | submit =>
      cases taken
      exact { inOrder with }
  | cancel place =>
      obtain ⟨worker, found, rfl⟩ := Option.map_eq_some_iff.mp taken
      exact inOrder.put found { worker with cancelled := true } (fun _ => id) .inl id
        fun queued => ⟨queued, rfl⟩
  | sendControl =>
      rw [Serving.loop] at taken
      split at taken <;> cases taken
      exact { inOrder with }
  | leave =>
      cases taken
      exact { inOrder with }

/-- A worker that is on the pool, or on its own thread, moves on. -/
theorem move (inOrder : self.InOrder) (found : self.jobs[place]? = some worker)
    (moved : ConnWorker) {permits slots : Semaphore} {count idle bulk : Nat} {at' : ServePlace}
    (onPool : moved.onPool = true → worker.onPool = true)
    (queued : moved.place ≠ .queued) (admitting : moved.place ≠ .admitting) :
    InOrder { self with
      jobs := self.jobs.set place moved
      readInflight := permits
      readOverflow := slots
      workers := count
      idle := idle
      bulk := bulk
      place := at' } :=
  inOrder.put found moved (fun _ => id) (fun has => .inl (onPool has))
    (fun waits => (waits.2.elim queued admitting).elim) fun same => absurd same queued

theorem pickUp (inOrder : self.InOrder) (crewed : self.Crewed)
    (found : self.jobs[place]? = some worker)
    (taken : self.work place worker .pickUp = some next) : next.InOrder := by
  rw [Serving.work] at taken
  split at taken
  case isFalse => cases taken
  next takes =>
  obtain ⟨queued, first, -⟩ := takes
  cases taken
  have front : self.queue = some place :: self.queue.tail := List.eq_cons_of_mem_head? first
  have line := crewed.line
  rw [front, List.reduceOption_cons_of_some] at line
  refine inOrder.put found _ (fun _ => List.mem_of_mem_tail) (fun _ => .inr fun behind member => ?_)
    (fun waits => ?_) fun same => ?_
  · exact (List.pairwise_cons.mp line).1 behind (List.reduceOption_mem_iff.mpr member)
  · exact ⟨waits.1, .inl queued⟩
  · cases has : worker.permit <;> simp [ConnWorker.goTo, has] at same

theorem work {what : ConnWorkerStep} (inOrder : self.InOrder) (crewed : self.Crewed)
    (found : self.jobs[place]? = some worker)
    (taken : self.work place worker what = some next) : next.InOrder := by
  cases what with
  | alone choice =>
      obtain ⟨moved, alone, rfl⟩ := Option.map_eq_some_iff.mp taken
      obtain ⟨runs, there, rfl, stays⟩ := ConnWorker.runs_of_alone alone
      have goes : (worker.goTo there).place.Runs := stays
      refine inOrder.move found _ (fun has => ?_) (ConnWorker.ne_queued_of_runs goes) ?_
      · rw [ConnWorker.onPool_of_runs goes] at has
        rw [ConnWorker.onPool_of_runs runs]
        exact has
      · intro admitting
        rw [admitting] at goes
        exact goes
  | pickUp => exact inOrder.pickUp crewed found taken
  | acquire =>
      rw [Serving.work] at taken
      split at taken
      case isFalse => cases taken
      next waits =>
      obtain ⟨permits, -, rfl⟩ := Option.map_eq_some_iff.mp taken
      exact inOrder.move found _ (by simp [ConnWorker.onPool, waits.1]) (by simp) (by simp)
  | giveUp =>
      rw [Serving.work] at taken
      split at taken
      case isFalse => cases taken
      next waits =>
      cases taken
      exact inOrder.move found _
        (by simp [ConnWorker.onPool, ConnWorker.goTo, waits.1]) (by simp) (by simp)
  | send =>
      rw [Serving.work] at taken
      split at taken
      · next producing =>
        split at taken
        · cases taken
          exact inOrder.move found _
            (by simp [ConnWorker.onPool, ConnWorker.goTo, producing]) (by simp) (by simp)
        · split at taken <;> cases taken
          exact inOrder.move found _
            (by simp [ConnWorker.onPool, ConnWorker.goTo, producing]) (by simp) (by simp)
      · cases taken
  | cleanup =>
      rw [Serving.work] at taken
      split at taken
      case isFalse => cases taken
      next ending =>
      cases taken
      exact @move self place worker inOrder found (worker.goTo .leaving) _ _ _ _ _ _
        (by simp [ConnWorker.onPool, ConnWorker.goTo, ending]) (by simp) (by simp)
  | release =>
      rw [Serving.work] at taken
      split at taken
      case isFalse => cases taken
      next held =>
      cases taken
      refine inOrder.move found { worker with permit := false } id ?_ ?_ <;>
        rcases held.1 with here | here <;> simp [here]
  | depart =>
      rw [Serving.work] at taken
      split at taken
      case isFalse => cases taken
      next leaves =>
      cases taken
      exact inOrder.move found _
        (by simp [ConnWorker.onPool, ConnWorker.goTo, leaves.1]) (by simp) (by simp)

theorem others {what : OthersStep} (inOrder : self.InOrder)
    (taken : self.othersStep what = some next) : next.InOrder := by
  cases what with
  | queueRead =>
      cases taken
      refine { inOrder with ahead := fun place worker found has behind member => ?_ }
      exact inOrder.ahead place worker found has behind (by simpa using member)
  | pickUp =>
      rw [othersStep] at taken
      split at taken <;> cases taken
      exact { inOrder with
        ahead := fun place worker found has behind member =>
          inOrder.ahead place worker found has behind (List.mem_of_mem_tail member) }
  | complete =>
      rw [othersStep] at taken
      split at taken <;> cases taken
      exact { inOrder with }
  | reply =>
      rw [othersStep] at taken
      split at taken <;> cases taken
      exact { inOrder with }

theorem step {label : ServingStep} (inOrder : self.InOrder) (crewed : self.Crewed)
    (allowed : self.AdmitsInOrder label) (taken : self.step label = some next) :
    next.InOrder := by
  cases label with
  | loop what =>
      rw [Serving.step] at taken
      split at taken
      · exact inOrder.loop allowed taken
      · cases taken
  | teardown =>
      obtain ⟨alive, place, rfl⟩ := frame_of_teardown taken
      exact { inOrder with }
  | spurious =>
      rw [Serving.step] at taken
      split at taken <;> cases taken
      exact { inOrder with }
  | work place what =>
      obtain ⟨worker, found, taken⟩ := Option.bind_eq_some_iff.mp taken
      exact inOrder.work crewed found taken
  | pump what =>
      obtain ⟨control, replies, pump, rfl⟩ := frame_of_pump taken
      exact { inOrder with }
  | writer what =>
      obtain ⟨alive, control, bulk, writer, rfl⟩ := frame_of_writer taken
      exact { inOrder with }
  | others what => exact inOrder.others taken

end InOrder

namespace Wedged

variable {self next : Serving} {place : Nat} {worker : ConnWorker}

theorem counted (wedged : self.Wedged) (crewed : self.Crewed) : 0 < self.workers := by
  have staffed := crewed.staffed
  rw [wedged.idle, wedged.elsewhere] at staffed
  obtain ⟨worker, member, onPool⟩ :=
    List.countP_pos_iff.mp (show 0 < self.jobs.countP ConnWorker.onPool by omega)
  rw [crewed.counted]
  refine List.countP_pos_iff.mpr ⟨worker, member, ?_⟩
  rw [ConnWorker.counted, (wedged.waiting worker member onPool).1]

/-- A worker that has nothing to do with the pool or the permits moves. -/
theorem put (wedged : self.Wedged) (moved : ConnWorker) (onPool : moved.onPool = false)
    (permit : moved.permit = false) {slots : Semaphore} {count bulk : Nat} {at' : ServePlace} :
    Wedged { self with
      jobs := self.jobs.set place moved
      readOverflow := slots
      workers := count
      bulk := bulk
      place := at' } where
  idle := wedged.idle
  elsewhere := wedged.elsewhere
  permits := wedged.permits
  waiting other member has := by
    rcases List.mem_or_eq_of_mem_set member with before | rfl
    · exact wedged.waiting other before has
    · exact absurd (onPool.symm.trans has) Bool.false_ne_true
  held other member has := by
    rcases List.mem_or_eq_of_mem_set member with before | rfl
    · exact wedged.held other before has
    · exact absurd (permit.symm.trans has) Bool.false_ne_true

/-- A worker past its admission is not on the pool and has no permit. -/
theorem apart (wedged : self.Wedged) (member : worker ∈ self.jobs)
    (queued : worker.place ≠ .queued) (admitting : worker.place ≠ .admitting) :
    worker.onPool = false ∧ worker.permit = false := by
  constructor
  · by_contra has
    exact admitting (wedged.waiting worker member (eq_true_of_ne_false has)).1
  · by_contra has
    exact queued (wedged.held worker member (eq_true_of_ne_false has))

/-- A worker that is with its frames stays apart from the pool. -/
theorem goTo (wedged : self.Wedged) (member : worker ∈ self.jobs) (runs : worker.place.Runs)
    (there : WorkerPlace) (stays : there.Runs) {count bulk : Nat} {at' : ServePlace} :
    Wedged { self with
      jobs := self.jobs.set place (worker.goTo there)
      workers := count
      bulk := bulk
      place := at' } := by
  have goes : (worker.goTo there).place.Runs := stays
  obtain ⟨onPool, permit⟩ := wedged.apart member (ConnWorker.ne_queued_of_runs runs) (by
    intro admitting
    rw [admitting] at runs
    exact runs)
  refine wedged.put (worker.goTo there) ?_ permit
  rw [ConnWorker.onPool_of_runs goes]
  rw [ConnWorker.onPool_of_runs runs] at onPool
  exact onPool

theorem work {what : ConnWorkerStep} (wedged : self.Wedged) (crewed : self.Crewed)
    (found : self.jobs[place]? = some worker)
    (taken : self.work place worker what = some next) : next.Wedged := by
  have member := List.mem_of_getElem? found
  cases what with
  | alone choice =>
      obtain ⟨moved, alone, rfl⟩ := Option.map_eq_some_iff.mp taken
      obtain ⟨runs, there, rfl, stays⟩ := ConnWorker.runs_of_alone alone
      exact wedged.goTo member runs there stays
  | pickUp => simp [Serving.work, wedged.idle] at taken
  | acquire => simp [Serving.work, Semaphore.tryAcquire, wedged.permits] at taken
  | giveUp =>
      rw [Serving.work] at taken
      split at taken
      case isFalse => cases taken
      next quits =>
      have pooled := (crewed.holds worker member).pooled (.inr quits.1)
      have stays := (wedged.waiting worker member (by simp [ConnWorker.onPool, quits.1, pooled])).2
      exact absurd (stays.symm.trans quits.2) Bool.false_ne_true
  | send =>
      rw [Serving.work] at taken
      split at taken
      · next frames last producing =>
        have runs : worker.place.Runs := by rw [producing]; trivial
        split at taken
        · cases taken
          exact wedged.goTo member runs .ending trivial
        · split at taken <;> cases taken
          exact wedged.goTo member runs (.producing frames last) trivial
      · cases taken
  | cleanup =>
      rw [Serving.work] at taken
      split at taken
      case isFalse => cases taken
      next ending =>
      cases taken
      obtain ⟨onPool, permit⟩ := wedged.apart member (by simp [ending]) (by simp [ending])
      rw [ConnWorker.onPool, ending] at onPool
      exact @put self place wedged (worker.goTo .leaving) onPool permit _ _ _ _
  | release =>
      rw [Serving.work] at taken
      split at taken
      case isFalse => cases taken
      next held =>
      have queued := wedged.held worker member held.2
      simp [queued] at held
  | depart =>
      rw [Serving.work] at taken
      split at taken
      case isFalse => cases taken
      next leaves =>
      cases taken
      obtain ⟨onPool, permit⟩ := wedged.apart member (by simp [leaves.1]) (by simp [leaves.1])
      rw [ConnWorker.onPool, leaves.1] at onPool
      have pooled : worker.pooled = false := onPool
      rw [pooled]
      exact wedged.put (worker.goTo .gone) rfl permit

theorem others {what : OthersStep} (wedged : self.Wedged)
    (taken : self.othersStep what = some next) : next.Wedged := by
  cases what with
  | queueRead =>
      cases taken
      exact { wedged with }
  | pickUp => simp [othersStep, wedged.idle] at taken
  | complete => simp [othersStep, wedged.elsewhere] at taken
  | reply =>
      rw [othersStep] at taken
      split at taken <;> cases taken
      exact { wedged with }

/-- Behind the end of the request loop, which alone cancels, a wedged pool stays wedged. -/
theorem step {label : ServingStep} (wedged : self.Wedged) (closing : self.Closing)
    (taken : self.step label = some next) : next.Wedged := by
  cases label with
  | loop what =>
      rw [Serving.step, if_neg closing.looping] at taken
      cases taken
  | teardown =>
      obtain ⟨alive, place, rfl⟩ := frame_of_teardown taken
      exact { wedged with }
  | spurious =>
      rw [Serving.step] at taken
      split at taken <;> cases taken
      exact { wedged with }
  | work place what =>
      obtain ⟨worker, found, taken⟩ := Option.bind_eq_some_iff.mp taken
      exact wedged.work closing.settled.crewed found taken
  | pump what =>
      obtain ⟨control, replies, pump, rfl⟩ := frame_of_pump taken
      exact { wedged with }
  | writer what =>
      obtain ⟨alive, control, bulk, writer, rfl⟩ := frame_of_writer taken
      exact { wedged with }
  | others what => exact wedged.others taken

end Wedged

/-- Behind the end of the request loop no read is admitted. -/
theorem InOrder.closing {self next : Serving} {label : ServingStep} (inOrder : self.InOrder)
    (closing : self.Closing) (taken : self.step label = some next) : next.InOrder := by
  refine inOrder.step closing.settled.crewed ?_ taken
  rintro rfl
  rw [Serving.step, if_neg closing.looping] at taken
  cases taken

end Serving

end Tephra.Server
