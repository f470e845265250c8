import Tephra.Histories
import Tephra.Parties
import Tephra.Semaphore

/-!
# Threads at a semaphore

The free permits of a semaphore stand behind a mutex, and threads that find none wait on a
condition variable.  Every access to the shared state is a step of its own, and the steps of
the threads come in any order: a wait may end at any time, a cancellation may arrive at any
time, and the notification of a release comes after its mutex was released.
-/

namespace Tephra.Server

open Histories Parties

/-- The loops that wait: `acquire` and `acquire_guard_or_cancel`. -/
inductive WaitLoop
  | acquire
  | guard
deriving DecidableEq, Repr

/-- Where a thread is.  A loop that was entered by the end of a wait has `waited`. -/
inductive PermitPhase
  /-- Outside of the semaphore. -/
  | running
  /-- Before the mutex, at the start of a call or at the end of a wait. -/
  | locking (loop : WaitLoop) (waited : Bool)
  /-- Under the mutex, before the load of the cancellation. -/
  | loading (waited : Bool)
  /-- Under the mutex, cancelled. -/
  | declining (waited : Bool)
  /-- Under the mutex, before the look at the free permits. -/
  | testing (loop : WaitLoop) (waited : Bool)
  /-- Under the mutex, about to wait on the condition variable. -/
  | parking (loop : WaitLoop)
  | parked (loop : WaitLoop)
  /-- Under the mutex, about to take a permit. -/
  | taking (waited : Bool)
  /-- `try_acquire` before the mutex. -/
  | tryLocking
  | tryTesting
  /-- `release` before the mutex. -/
  | releaseLocking
  /-- Under the mutex, about to give the permit back. -/
  | adding
  /-- The permit is back, and the mutex is held. -/
  | unlocking
  /-- Behind the mutex, before `notify_one`. -/
  | notifying
  /-- Under the mutex, with nothing left to do but to release it. -/
  | returning
deriving DecidableEq, Repr

/-- A thread: the permits that it holds, as guards or not, and its cancellation. -/
structure PermitThread where
  held : Nat
  cancelled : Bool
  phase : PermitPhase
deriving DecidableEq, Repr

namespace PermitThread

def new : PermitThread := ⟨0, false, .running⟩

/-- The guard of the mutex is held. -/
def holdsLock (thread : PermitThread) : Bool :=
  match thread.phase with
  | .loading _ | .declining _ | .testing _ _ | .parking _ | .taking _ | .tryTesting | .adding
  | .unlocking | .returning => true
  | _ => false

/-- The thread waits on the condition variable. -/
def isParked (thread : PermitThread) : Bool :=
  match thread.phase with
  | .parked _ => true
  | _ => false

/-- A notification is to come, or the wait of the thread has ended and it looks again. -/
def carries (thread : PermitThread) : Bool :=
  match thread.phase with
  | .locking _ waited | .loading waited | .declining waited | .testing _ waited
  | .taking waited => waited
  | .unlocking | .notifying => true
  | _ => false

end PermitThread

/-- The semaphore, the place of the thread that holds its mutex, and the threads. -/
structure PermitState where
  semaphore : Semaphore
  lock : Option Nat
  threads : List PermitThread
deriving DecidableEq, Repr

/-- What a thread may call.  A guard is dropped by a release. -/
inductive PermitCall
  | acquire
  | tryAcquire
  | acquireGuardOrCancel (cancelled : Bool)
  | release
deriving DecidableEq, Repr

inductive PermitStep
  /-- A thread joins. -/
  | spawn
  | call (place : Nat) (call : PermitCall)
  /-- The next step of the code of a thread. -/
  | move (place : Nat)
  /-- `notify_one`: it wakes a thread that waits, if there is one. -/
  | notify (place : Nat) (wakee : Option Nat)
  /-- A wait times out, or ends for no reason. -/
  | wake (place : Nat)
  | cancel (place : Nat)
  /-- A thread hands a permit to another one. -/
  | hand (giver taker : Nat)
deriving DecidableEq, Repr

namespace PermitState

def initial (permits : Nat) : PermitState :=
  ⟨Semaphore.new permits, none, []⟩

/-- All permits that are held. -/
def held (state : PermitState) : Nat := total PermitThread.held state.threads

end PermitState

namespace PermitThread

/-- A thread outside of the semaphore begins a call.  It gives back only what it holds. -/
def begin_ (thread : PermitThread) : PermitCall → Option PermitThread
  | .acquire => some { thread with phase := .locking .acquire false }
  | .tryAcquire => some { thread with phase := .tryLocking }
  | .acquireGuardOrCancel cancelled =>
      some { thread with cancelled := cancelled, phase := .locking .guard false }
  | .release => if thread.held = 0 then none else some { thread with phase := .releaseLocking }

/-- The wait of a thread ends, and the mutex is to be locked again. -/
def woken (thread : PermitThread) : Option PermitThread :=
  match thread.phase with
  | .parked loop => some { thread with phase := .locking loop true }
  | _ => none

/-- The mutex is locked if it is free. -/
def lockFor (semaphore : Semaphore) (lock : Option Nat) (place : Nat) (thread : PermitThread)
    (phase : PermitPhase) : Option (Semaphore × Option Nat × PermitThread) :=
  if lock = none then some (semaphore, some place, { thread with phase := phase }) else none

/-- The next step of the code, with the semaphore and the owner of the mutex behind it. -/
def advance (semaphore : Semaphore) (lock : Option Nat) (place : Nat) (thread : PermitThread) :
    Option (Semaphore × Option Nat × PermitThread) :=
  match thread.phase with
  | .running | .parked _ | .notifying => none
  | .locking .acquire waited => thread.lockFor semaphore lock place (.testing .acquire waited)
  | .locking .guard waited => thread.lockFor semaphore lock place (.loading waited)
  | .loading waited =>
      some (semaphore, lock, { thread with
        phase := if thread.cancelled then .declining waited else .testing .guard waited })
  | .declining _ =>
      -- with a free permit a notification comes first
      if semaphore.permits = 0 then some (semaphore, lock, { thread with phase := .returning })
      else none
  | .testing loop waited =>
      some (semaphore, lock, { thread with
        phase := if semaphore.permits = 0 then .parking loop else .taking waited })
  | .parking loop =>
      -- the wait releases the mutex in the same step
      some (semaphore, none, { thread with phase := .parked loop })
  | .taking _ =>
      semaphore.tryAcquire.map fun semaphore =>
        (semaphore, lock, { thread with held := thread.held + 1, phase := .returning })
  | .tryLocking => thread.lockFor semaphore lock place .tryTesting
  | .tryTesting =>
      some (semaphore, lock, { thread with
        phase := if semaphore.permits = 0 then .returning else .taking false })
  | .releaseLocking => thread.lockFor semaphore lock place .adding
  | .adding =>
      some (semaphore.release, lock, { thread with
        held := thread.held - 1, phase := .unlocking })
  | .unlocking => some (semaphore, none, { thread with phase := .notifying })
  | .returning => some (semaphore, none, { thread with phase := .running })

/-- The thread behind its notification: a release is over, and a cancelled loop returns. -/
def notified (semaphore : Semaphore) (thread : PermitThread) : Option PermitThread :=
  match thread.phase with
  | .notifying => some { thread with phase := .running }
  | .declining _ =>
      if semaphore.permits = 0 then none else some { thread with phase := .returning }
  | _ => none

end PermitThread

/-- A notification wakes some thread that waits; it is lost only if none does. -/
def notifyOne (threads : List PermitThread) : Option Nat → Option (List PermitThread)
  | none => if threads.countP PermitThread.isParked = 0 then some threads else none
  | some place => do
      let thread ← threads[place]?
      let woken ← thread.woken
      some (threads.set place woken)

namespace PermitState

def step (state : PermitState) : PermitStep → Option PermitState
  | .spawn => some { state with threads := state.threads ++ [.new] }
  | .call place call => do
      let thread ← state.threads[place]?
      if thread.phase = .running then
        let begun ← thread.begin_ call
        some { state with threads := state.threads.set place begun }
      else none
  | .move place => do
      let thread ← state.threads[place]?
      let (semaphore, lock, moved) ← thread.advance state.semaphore state.lock place
      some ⟨semaphore, lock, state.threads.set place moved⟩
  | .notify place wakee => do
      let thread ← state.threads[place]?
      let moved ← thread.notified state.semaphore
      let threads ← notifyOne (state.threads.set place moved) wakee
      some { state with threads := threads }
  | .wake place => do
      let thread ← state.threads[place]?
      let woken ← thread.woken
      some { state with threads := state.threads.set place woken }
  | .cancel place => do
      let thread ← state.threads[place]?
      some { state with threads := state.threads.set place { thread with cancelled := true } }
  | .hand giver taker => do
      let thread ← state.threads[giver]?
      if thread.phase = .running ∧ thread.held ≠ 0 then
        let threads := state.threads.set giver { thread with held := thread.held - 1 }
        let other ← threads[taker]?
        some { state with threads := threads.set taker { other with held := other.held + 1 } }
      else none

end PermitState

namespace PermitThread

/-- What a thread has found out about the free permits, and what it holds. -/
def Fits (permits : Nat) (thread : PermitThread) : Prop :=
  match thread.phase with
  | .parking _ => permits = 0
  | .taking _ => 0 < permits
  | .releaseLocking | .adding => 0 < thread.held
  | _ => True

/-- Only a thread that holds the mutex knows about the free permits. -/
theorem Fits.of_unlocked {thread : PermitThread} {permits other : Nat}
    (fits : thread.Fits permits) (unlocked : thread.holdsLock = false) : thread.Fits other := by
  obtain ⟨held, cancelled, phase⟩ := thread
  cases phase with
  | parking loop => cases unlocked
  | taking waited => cases unlocked
  | _ => exact fits

theorem Fits.more {thread : PermitThread} {permits : Nat} (fits : thread.Fits permits) :
    ({ thread with held := thread.held + 1 } : PermitThread).Fits permits := by
  obtain ⟨held, cancelled, phase⟩ := thread
  cases phase with
  | releaseLocking => exact Nat.succ_pos _
  | adding => exact Nat.succ_pos _
  | _ => exact fits

/-- How much of its code a thread has before it, a notification on its way included. -/
def weight (thread : PermitThread) : Nat :=
  match thread.phase with
  | .running => 0
  | .returning => 1
  | .notifying => 5
  | .unlocking => 6
  | .adding => 7
  | .releaseLocking => 8
  | .parked _ => 10
  | .parking _ | .taking _ => 11
  | .testing _ _ | .declining _ | .tryTesting => 12
  | .loading _ | .tryLocking => 13
  | .locking _ _ => 14

/-- One thread changes, and the semaphore and the mutex with it. -/
structure Changed (semaphore : Semaphore) (lock : Option Nat) (place : Nat)
    (before : PermitThread) (semaphore' : Semaphore) (lock' : Option Nat)
    (after : PermitThread) : Prop where
  free : after.holdsLock = true → before.holdsLock = true ∨ lock = none
  lock_eq : lock' = if after.holdsLock then some place else if before.holdsLock then none else lock
  kept : before.holdsLock = false → semaphore'.permits = semaphore.permits
  fits : after.Fits semaphore'.permits

/-- No thread parks, or fewer looks are left, without that the permits are all taken. -/
def Covers (permits : Nat) (before : PermitThread) (permits' : Nat) (after : PermitThread) :
    Prop :=
  permits' = 0 ∨ (after.isParked = true → before.isParked = true) ∧
    permits' + before.carries.toNat ≤ permits + after.carries.toNat

/-- What a step of the code does. -/
structure Advanced (semaphore : Semaphore) (lock : Option Nat) (place : Nat)
    (before : PermitThread) (semaphore' : Semaphore) (lock' : Option Nat)
    (after : PermitThread) : Prop where
  changed : Changed semaphore lock place before semaphore' lock' after
  covers : Covers semaphore.permits before semaphore'.permits after
  conserved : semaphore'.permits + after.held = semaphore.permits + before.held
  capacity_eq : semaphore'.capacity = semaphore.capacity
  lighter : after.weight < before.weight

theorem isParked_of_holdsLock {thread : PermitThread} (inside : thread.holdsLock = true) :
    thread.isParked = false := by
  obtain ⟨held, cancelled, phase⟩ := thread
  cases phase with
  | parked loop => cases inside
  | _ => rfl

/-- A call or the end of a wait goes on under the mutex. -/
theorem advanced_of_lockFor {semaphore semaphore' : Semaphore} {lock lock' : Option Nat}
    {place : Nat} {before after : PermitThread} {phase : PermitPhase}
    (taken : before.lockFor semaphore lock place phase = some (semaphore', lock', after))
    (inside : ({ before with phase := phase } : PermitThread).holdsLock = true)
    (fits : ({ before with phase := phase } : PermitThread).Fits semaphore.permits)
    (same : ({ before with phase := phase } : PermitThread).carries = before.carries)
    (lighter : ({ before with phase := phase } : PermitThread).weight < before.weight) :
    Advanced semaphore lock place before semaphore' lock' after := by
  rw [lockFor] at taken
  split at taken
  next isFree =>
    obtain ⟨rfl, rfl, rfl⟩ := taken
    refine ⟨⟨fun _ => .inr isFree, ?_, fun _ => rfl, fits⟩, .inr ⟨?_, ?_⟩, rfl, rfl, lighter⟩
    · rw [inside]
      rfl
    · rw [isParked_of_holdsLock inside]
      intro parked
      cases parked
    · exact Nat.le_of_eq (by rw [same])
  next => cases taken

/-- Under the mutex, a thread goes on without a change of the free permits. -/
theorem advanced_of_inside {semaphore : Semaphore} {lock : Option Nat} {place : Nat}
    {before : PermitThread} {phase : PermitPhase} (owns : lock = some place)
    (held_before : before.holdsLock = true)
    (inside : ({ before with phase := phase } : PermitThread).holdsLock = true)
    (fits : ({ before with phase := phase } : PermitThread).Fits semaphore.permits)
    (covers : semaphore.permits = 0 ∨
      ({ before with phase := phase } : PermitThread).carries = before.carries)
    (lighter : ({ before with phase := phase } : PermitThread).weight < before.weight) :
    Advanced semaphore lock place before semaphore lock { before with phase := phase } := by
  refine ⟨⟨fun _ => .inl held_before, ?_, fun _ => rfl, fits⟩, ?_, rfl, rfl, lighter⟩
  · rw [inside]
    exact owns
  · apply covers.imp_right
    intro same
    constructor
    · rw [isParked_of_holdsLock inside]
      intro parked
      cases parked
    · exact Nat.le_of_eq (by rw [same])

/-- A thread leaves the mutex behind it. -/
theorem advanced_of_outside {semaphore : Semaphore} {lock : Option Nat} {place : Nat}
    {before : PermitThread} {phase : PermitPhase} (held_before : before.holdsLock = true)
    (outside : ({ before with phase := phase } : PermitThread).holdsLock = false)
    (fits : ({ before with phase := phase } : PermitThread).Fits semaphore.permits)
    (covers : semaphore.permits = 0 ∨
      ({ before with phase := phase } : PermitThread).isParked = false ∧
        ({ before with phase := phase } : PermitThread).carries = before.carries)
    (lighter : ({ before with phase := phase } : PermitThread).weight < before.weight) :
    Advanced semaphore lock place before semaphore none { before with phase := phase } := by
  refine ⟨⟨?_, ?_, fun _ => rfl, fits⟩, ?_, rfl, rfl, lighter⟩
  · intro inside
    rw [outside] at inside
    cases inside
  · rw [outside, held_before]
    rfl
  · apply covers.imp_right
    rintro ⟨awake, same⟩
    constructor
    · intro parked
      rw [awake] at parked
      cases parked
    · exact Nat.le_of_eq (by rw [same])

theorem advanced_of_advance {semaphore semaphore' : Semaphore} {lock lock' : Option Nat}
    {place : Nat} {before after : PermitThread} (fits : before.Fits semaphore.permits)
    (owns : before.holdsLock = true → lock = some place)
    (taken : before.advance semaphore lock place = some (semaphore', lock', after)) :
    Advanced semaphore lock place before semaphore' lock' after := by
  obtain ⟨held, cancelled, phase⟩ := before
  cases phase with
  | running => cases taken
  | parked loop => cases taken
  | notifying => cases taken
  | locking loop waited =>
      cases loop with
      | acquire => exact advanced_of_lockFor taken rfl trivial rfl (by simp [weight])
      | guard => exact advanced_of_lockFor taken rfl trivial rfl (by simp [weight])
  | tryLocking => exact advanced_of_lockFor taken rfl trivial rfl (by simp [weight])
  | releaseLocking => exact advanced_of_lockFor taken rfl fits rfl (by simp [weight])
  | loading waited =>
      cases cancelled with
      | true =>
          cases taken
          exact advanced_of_inside (owns rfl) rfl rfl trivial (.inr rfl) (by simp [weight])
      | false =>
          cases taken
          exact advanced_of_inside (owns rfl) rfl rfl trivial (.inr rfl) (by simp [weight])
  | declining waited =>
      by_cases none_free : semaphore.permits = 0
      · simp only [advance, if_pos none_free] at taken
        cases taken
        exact advanced_of_inside (owns rfl) rfl rfl trivial (.inl none_free) (by simp [weight])
      · simp only [advance, if_neg none_free] at taken
        cases taken
  | testing loop waited =>
      by_cases none_free : semaphore.permits = 0
      · simp only [advance, if_pos none_free] at taken
        cases taken
        exact advanced_of_inside (owns rfl) rfl rfl none_free (.inl none_free) (by simp [weight])
      · simp only [advance, if_neg none_free] at taken
        cases taken
        exact advanced_of_inside (owns rfl) rfl rfl (Nat.pos_of_ne_zero none_free) (.inr rfl)
          (by simp [weight])
  | tryTesting =>
      by_cases none_free : semaphore.permits = 0
      · simp only [advance, if_pos none_free] at taken
        cases taken
        exact advanced_of_inside (owns rfl) rfl rfl trivial (.inr rfl) (by simp [weight])
      · simp only [advance, if_neg none_free] at taken
        cases taken
        exact advanced_of_inside (owns rfl) rfl rfl (Nat.pos_of_ne_zero none_free) (.inr rfl)
          (by simp [weight])
  | parking loop =>
      cases taken
      exact advanced_of_outside rfl rfl trivial (.inl fits) (by simp [weight])
  | unlocking =>
      cases taken
      exact advanced_of_outside rfl rfl trivial (.inr ⟨rfl, rfl⟩) (by simp [weight])
  | returning =>
      cases taken
      exact advanced_of_outside rfl rfl trivial (.inr ⟨rfl, rfl⟩) (by simp [weight])
  | taking waited =>
      obtain ⟨_, acquired, same⟩ := Option.map_eq_some_iff.mp taken
      cases same
      obtain ⟨capacity, permits⟩ := Semaphore.tryAcquire_eq_some acquired
      refine ⟨⟨fun _ => .inl rfl, owns rfl, ?_, trivial⟩, .inr ⟨?_, ?_⟩, ?_, capacity,
        by simp [weight]⟩
      · intro outside
        cases outside
      · intro parked
        cases parked
      · have least : waited.toNat ≤ 1 := Bool.toNat_le waited
        change semaphore'.permits + waited.toNat ≤ semaphore.permits + 0
        omega
      · change semaphore'.permits + (held + 1) = semaphore.permits + held
        omega
  | adding =>
      cases taken
      have some_held : 0 < held := fits
      refine ⟨⟨fun _ => .inl rfl, owns rfl, ?_, trivial⟩, .inr ⟨?_, Nat.le_refl _⟩, ?_, rfl,
        by simp [weight]⟩
      · intro outside
        cases outside
      · intro parked
        cases parked
      · change semaphore.permits + 1 + (held - 1) = semaphore.permits + held
        omega

/-- Away from the code, a thread keeps the mutex or its distance from it. -/
theorem changed_of_same {semaphore : Semaphore} {lock : Option Nat} {place : Nat}
    {before after : PermitThread} (owns : before.holdsLock = true → lock = some place)
    (same : after.holdsLock = before.holdsLock) (fits : after.Fits semaphore.permits) :
    Changed semaphore lock place before semaphore lock after := by
  refine ⟨fun inside => .inl (same ▸ inside), ?_, fun _ => rfl, fits⟩
  rw [same]
  cases inside : before.holdsLock with
  | true => exact owns inside
  | false => rfl

theorem woken_spec {before after : PermitThread} (woken : before.woken = some after)
    (permits : Nat) :
    after.holdsLock = before.holdsLock ∧ after.Fits permits ∧ before.isParked = true ∧
      after.isParked = false ∧ before.carries = false ∧ after.carries = true ∧
      after.held = before.held ∧ after.weight = before.weight + 4 := by
  obtain ⟨held, cancelled, phase⟩ := before
  cases phase with
  | parked loop =>
      cases woken
      exact ⟨rfl, trivial, rfl, rfl, rfl, rfl, rfl, rfl⟩
  | _ => cases woken

theorem begin_spec {before after : PermitThread} {call : PermitCall}
    (outside : before.phase = .running) (begun : before.begin_ call = some after)
    (permits : Nat) :
    after.holdsLock = before.holdsLock ∧ after.Fits permits ∧ after.isParked = false ∧
      before.carries = false ∧ after.held = before.held := by
  obtain ⟨held, cancelled, phase⟩ := before
  obtain rfl : phase = .running := outside
  cases call with
  | acquire =>
      cases begun
      exact ⟨rfl, trivial, rfl, rfl, rfl⟩
  | tryAcquire =>
      cases begun
      exact ⟨rfl, trivial, rfl, rfl, rfl⟩
  | acquireGuardOrCancel cancelled =>
      cases begun
      exact ⟨rfl, trivial, rfl, rfl, rfl⟩
  | release =>
      rw [begin_] at begun
      split at begun
      next => cases begun
      next some_held =>
        cases begun
        exact ⟨rfl, Nat.pos_of_ne_zero some_held, rfl, rfl, rfl⟩

theorem notified_spec {semaphore : Semaphore} {before after : PermitThread}
    (notified : before.notified semaphore = some after) :
    after.holdsLock = before.holdsLock ∧ after.Fits semaphore.permits ∧
      before.isParked = false ∧ after.isParked = false ∧ after.carries = false ∧
      after.held = before.held ∧ after.weight + 5 ≤ before.weight := by
  obtain ⟨held, cancelled, phase⟩ := before
  cases phase with
  | notifying =>
      cases notified
      exact ⟨rfl, trivial, rfl, rfl, rfl, rfl, Nat.le_refl _⟩
  | declining waited =>
      by_cases none_free : semaphore.permits = 0
      · simp only [PermitThread.notified, if_pos none_free] at notified
        cases notified
      · simp only [PermitThread.notified, if_neg none_free] at notified
        cases notified
        exact ⟨rfl, trivial, rfl, rfl, rfl, rfl, by simp [weight]⟩
  | _ => cases notified

end PermitThread

namespace PermitState

/-- The thread that holds the mutex is the owner of the mutex, and what it has found out about
the free permits is still so. -/
structure Locked (state : PermitState) : Prop where
  owned : Each (fun place thread => thread.holdsLock = true → state.lock = some place)
    state.threads
  owner : ∀ place, state.lock = some place →
    ∃ thread, state.threads[place]? = some thread ∧ thread.holdsLock = true
  fits : Each (fun _ thread => thread.Fits state.semaphore.permits) state.threads

/-- While a thread waits, each free permit has a notification or a look to come. -/
def Covered (state : PermitState) : Prop :=
  state.threads.countP PermitThread.isParked ≠ 0 →
    state.semaphore.permits ≤ state.threads.countP PermitThread.carries

/-- The free permits and those that are held add up to the capacity, which stays the same. -/
def Conserved (capacity : Nat) (state : PermitState) : Prop :=
  state.semaphore.permits + state.held = capacity ∧ state.semaphore.capacity = capacity

structure Sound (capacity : Nat) (state : PermitState) : Prop where
  locked : state.Locked
  covered : state.Covered
  conserved : state.Conserved capacity

section Replace

variable {semaphore semaphore' : Semaphore} {lock lock' : Option Nat}
  {threads : List PermitThread} {place : Nat} {before after : PermitThread}

theorem Locked.replace (locked : Locked ⟨semaphore, lock, threads⟩)
    (found : threads[place]? = some before)
    (changed : PermitThread.Changed semaphore lock place before semaphore' lock' after) :
    Locked ⟨semaphore', lock', threads.set place after⟩ := by
  have owned : Each (fun other thread => thread.holdsLock = true → lock = some other) threads :=
    locked.owned
  have owns : before.holdsLock = true → lock = some place := owned place before found
  -- Where another thread has the mutex, this one has nothing to do with it.
  have aside {other : Nat} (different : other ≠ place) (elsewhere : lock = some other) :
      before.holdsLock = false ∧ after.holdsLock = false := by
    have outside : before.holdsLock = false := by
      by_contra inside
      rw [Bool.not_eq_false] at inside
      exact different (Option.some.inj (elsewhere.symm.trans (owns inside)))
    refine ⟨outside, ?_⟩
    by_contra inside
    rw [Bool.not_eq_false] at inside
    rcases changed.free inside with here | isFree
    · rw [outside] at here
      cases here
    · rw [isFree] at elsewhere
      cases elsewhere
  have lock_eq := changed.lock_eq
  constructor
  · change Each (fun other thread => thread.holdsLock = true → lock' = some other)
      (threads.set place after)
    refine owned.set ?_ ?_
    · intro inside
      exact lock_eq.trans (if_pos inside)
    · intro other thread different _ elsewhere inside
      obtain ⟨outside, still⟩ := aside different (elsewhere inside)
      rw [lock_eq, still, outside]
      exact elsewhere inside
  · intro other taken
    change lock' = some other at taken
    rw [lock_eq] at taken
    have inBounds := (List.getElem?_eq_some_iff.mp found).1
    by_cases inside : after.holdsLock = true
    · rw [if_pos inside] at taken
      obtain rfl := Option.some.inj taken
      exact ⟨after, List.getElem?_set_self inBounds, inside⟩
    · rw [if_neg inside] at taken
      split at taken
      next => cases taken
      next outside =>
        obtain ⟨thread, here, holds⟩ := locked.owner other taken
        have different : place ≠ other := by
          rintro rfl
          obtain rfl := Option.some.inj (found.symm.trans here)
          exact outside holds
        refine ⟨thread, ?_, holds⟩
        change (threads.set place after)[other]? = some thread
        rw [List.getElem?_set_ne different]
        exact here
  · have fits : Each (fun _ thread => thread.Fits semaphore.permits) threads := locked.fits
    change Each (fun _ thread => thread.Fits semaphore'.permits) (threads.set place after)
    refine fits.set changed.fits ?_
    intro other thread different here fits
    cases inside : thread.holdsLock with
    | true =>
        obtain ⟨outside, -⟩ := aside different (owned other thread here inside)
        rw [changed.kept outside]
        exact fits
    | false => exact fits.of_unlocked inside

theorem Covered.replace (covered : Covered ⟨semaphore, lock, threads⟩)
    (found : threads[place]? = some before)
    (covers : PermitThread.Covers semaphore.permits before semaphore'.permits after) :
    Covered ⟨semaphore', lock', threads.set place after⟩ := by
  intro waits
  rcases covers with taken | ⟨parks, looks⟩
  · exact taken ▸ Nat.zero_le _
  have parked : (threads.set place after).countP PermitThread.isParked + before.isParked.toNat =
      threads.countP PermitThread.isParked + after.isParked.toNat := countP_set_add found
  have carried : (threads.set place after).countP PermitThread.carries + before.carries.toNat =
      threads.countP PermitThread.carries + after.carries.toNat := countP_set_add found
  have fewer : after.isParked.toNat ≤ before.isParked.toNat := by
    cases parking : after.isParked with
    | false => exact Nat.zero_le _
    | true => exact Nat.le_of_eq (congrArg Bool.toNat (parks parking).symm)
  have enough : semaphore.permits ≤ threads.countP PermitThread.carries := by
    apply covered
    change (threads.set place after).countP PermitThread.isParked ≠ 0 at waits
    change threads.countP PermitThread.isParked ≠ 0
    omega
  change semaphore'.permits ≤ (threads.set place after).countP PermitThread.carries
  omega

theorem Conserved.replace {capacity : Nat}
    (conserved : Conserved capacity ⟨semaphore, lock, threads⟩)
    (found : threads[place]? = some before)
    (kept : semaphore'.permits + after.held = semaphore.permits + before.held)
    (capacity_eq : semaphore'.capacity = semaphore.capacity) :
    Conserved capacity ⟨semaphore', lock', threads.set place after⟩ := by
  have held : total PermitThread.held (threads.set place after) + before.held =
      total PermitThread.held threads + after.held := total_set found
  obtain ⟨sum, same⟩ := conserved
  change semaphore.permits + total PermitThread.held threads = capacity at sum
  refine ⟨?_, capacity_eq.trans same⟩
  change semaphore'.permits + total PermitThread.held (threads.set place after) = capacity
  omega

/-- One thread changes, away from the code: the mutex and the free permits stay. -/
theorem Sound.replace {capacity : Nat} (sound : Sound capacity ⟨semaphore, lock, threads⟩)
    (found : threads[place]? = some before) (same : after.holdsLock = before.holdsLock)
    (fits : after.Fits semaphore.permits)
    (parks : after.isParked = true → before.isParked = true)
    (looks : before.carries.toNat ≤ after.carries.toNat) (held : after.held = before.held) :
    Sound capacity ⟨semaphore, lock, threads.set place after⟩ where
  locked := sound.locked.replace found
    (PermitThread.changed_of_same (sound.locked.owned place before found) same fits)
  covered := sound.covered.replace found (.inr ⟨parks, Nat.add_le_add_left looks _⟩)
  conserved := sound.conserved.replace found (by rw [held]) rfl

end Replace

theorem sound_spawn {capacity : Nat} {state : PermitState} (sound : state.Sound capacity) :
    Sound capacity { state with threads := state.threads ++ [.new] } where
  locked := by
    constructor
    · refine sound.locked.owned.snoc ?_ ?_
      · intro inside
        cases inside
      · exact fun _ _ _ owns => owns
    · intro place taken
      obtain ⟨thread, here, holds⟩ := sound.locked.owner place taken
      have inBounds := (List.getElem?_eq_some_iff.mp here).1
      exact ⟨thread, (List.getElem?_append_left inBounds).trans here, holds⟩
    · refine sound.locked.fits.snoc ?_ ?_
      · trivial
      · exact fun _ _ _ fits => fits
  covered := by
    intro waits
    change (state.threads ++ [PermitThread.new]).countP PermitThread.isParked ≠ 0 at waits
    change state.semaphore.permits ≤
      (state.threads ++ [PermitThread.new]).countP PermitThread.carries
    rw [List.countP_append] at waits ⊢
    exact Nat.le_trans (sound.covered waits) (Nat.le_add_right _ _)
  conserved := by
    obtain ⟨sum, same⟩ := sound.conserved
    refine ⟨?_, same⟩
    change state.semaphore.permits + total PermitThread.held (state.threads ++ [.new]) = capacity
    rw [total_snoc]
    exact sum

theorem sound_call {capacity place : Nat} {call : PermitCall} {state next : PermitState}
    (sound : state.Sound capacity) (taken : state.step (.call place call) = some next) :
    next.Sound capacity := by
  obtain ⟨before, found, taken⟩ := Option.bind_eq_some_iff.mp taken
  split at taken
  next outside =>
    obtain ⟨after, begun, taken⟩ := Option.bind_eq_some_iff.mp taken
    cases taken
    obtain ⟨same, fits, unparked, quiet, held⟩ :=
      PermitThread.begin_spec outside begun state.semaphore.permits
    apply Sound.replace sound found same fits
    · rw [unparked]
      intro parked
      cases parked
    · rw [quiet]
      exact Nat.zero_le _
    · exact held
  next => cases taken

theorem sound_move {capacity place : Nat} {state next : PermitState}
    (sound : state.Sound capacity) (taken : state.step (.move place) = some next) :
    next.Sound capacity ∧ total PermitThread.weight next.threads <
      total PermitThread.weight state.threads := by
  obtain ⟨before, found, taken⟩ := Option.bind_eq_some_iff.mp taken
  obtain ⟨⟨semaphore, lock, after⟩, moved, taken⟩ := Option.bind_eq_some_iff.mp taken
  cases taken
  have advanced := PermitThread.advanced_of_advance (sound.locked.fits place before found)
    (sound.locked.owned place before found) moved
  have weight : total PermitThread.weight (state.threads.set place after) + before.weight =
      total PermitThread.weight state.threads + after.weight := total_set found
  have lighter := advanced.lighter
  refine ⟨⟨?_, ?_, ?_⟩, ?_⟩
  · exact sound.locked.replace found advanced.changed
  · exact sound.covered.replace found advanced.covers
  · exact sound.conserved.replace found advanced.conserved advanced.capacity_eq
  · change total PermitThread.weight (state.threads.set place after) < _
    omega

theorem notifyOne_cases {threads next : List PermitThread} {wakee : Option Nat}
    (woke : notifyOne threads wakee = some next) :
    (threads.countP PermitThread.isParked = 0 ∧ next = threads) ∨
      ∃ place sleeper awake, threads[place]? = some sleeper ∧ sleeper.woken = some awake ∧
        next = threads.set place awake := by
  cases wakee with
  | none =>
      rw [notifyOne] at woke
      split at woke
      next none_parked => exact .inl ⟨none_parked, (Option.some.inj woke).symm⟩
      next => cases woke
  | some place =>
      obtain ⟨sleeper, asleep, woke⟩ := Option.bind_eq_some_iff.mp woke
      obtain ⟨awake, woken, woke⟩ := Option.bind_eq_some_iff.mp woke
      exact .inr ⟨place, sleeper, awake, asleep, woken, (Option.some.inj woke).symm⟩

/-- A thread that is woken waits no more, and has a look to come. -/
theorem counts_of_woken {threads : List PermitThread} {place : Nat} {sleeper awake : PermitThread}
    (asleep : threads[place]? = some sleeper) (woken : sleeper.woken = some awake) :
    (threads.set place awake).countP PermitThread.isParked + 1 =
        threads.countP PermitThread.isParked ∧
      (threads.set place awake).countP PermitThread.carries =
        threads.countP PermitThread.carries + 1 ∧
      total PermitThread.weight (threads.set place awake) =
        total PermitThread.weight threads + 4 := by
  obtain ⟨-, -, parked, unparked, quiet, looks, -, heavier⟩ := PermitThread.woken_spec woken 0
  have sleeping : (threads.set place awake).countP PermitThread.isParked +
      sleeper.isParked.toNat = threads.countP PermitThread.isParked + awake.isParked.toNat :=
    countP_set_add asleep
  have looking : (threads.set place awake).countP PermitThread.carries +
      sleeper.carries.toNat = threads.countP PermitThread.carries + awake.carries.toNat :=
    countP_set_add asleep
  have weight : total PermitThread.weight (threads.set place awake) + sleeper.weight =
      total PermitThread.weight threads + awake.weight := total_set asleep
  rw [parked, unparked] at sleeping
  rw [quiet, looks] at looking
  exact ⟨sleeping, looking, by omega⟩

theorem sound_notify {capacity place : Nat} {wakee : Option Nat} {state next : PermitState}
    (sound : state.Sound capacity) (taken : state.step (.notify place wakee) = some next) :
    next.Sound capacity ∧ total PermitThread.weight next.threads <
      total PermitThread.weight state.threads := by
  obtain ⟨before, found, taken⟩ := Option.bind_eq_some_iff.mp taken
  obtain ⟨after, notified, taken⟩ := Option.bind_eq_some_iff.mp taken
  obtain ⟨threads, woke, taken⟩ := Option.bind_eq_some_iff.mp taken
  cases taken
  obtain ⟨same, fits, wasUnparked, unparked, quiet, held, lighter⟩ :=
    PermitThread.notified_spec notified
  have locked := sound.locked.replace found
    (PermitThread.changed_of_same (sound.locked.owned place before found) same fits)
  have conserved : Conserved capacity
      ⟨state.semaphore, state.lock, state.threads.set place after⟩ :=
    sound.conserved.replace found (by rw [held]) rfl
  have weight : total PermitThread.weight (state.threads.set place after) + before.weight =
      total PermitThread.weight state.threads + after.weight := total_set found
  rcases notifyOne_cases woke with
    ⟨none_parked, rfl⟩ | ⟨other, sleeper, awake, asleep, woken, rfl⟩
  · refine ⟨⟨locked, fun waits => absurd none_parked waits, conserved⟩, ?_⟩
    change total PermitThread.weight (state.threads.set place after) < _
    omega
  · obtain ⟨same', fits', -, -, -, -, held', -⟩ :=
      PermitThread.woken_spec woken state.semaphore.permits
    obtain ⟨sleeping, looking, heavier⟩ := counts_of_woken asleep woken
    have parked : (state.threads.set place after).countP PermitThread.isParked +
        before.isParked.toNat =
          state.threads.countP PermitThread.isParked + after.isParked.toNat :=
      countP_set_add found
    have carried : (state.threads.set place after).countP PermitThread.carries +
        before.carries.toNat =
          state.threads.countP PermitThread.carries + after.carries.toNat := countP_set_add found
    rw [wasUnparked, unparked] at parked
    rw [quiet] at carried
    refine ⟨⟨?_, ?_, ?_⟩, ?_⟩
    · exact locked.replace asleep
        (PermitThread.changed_of_same (locked.owned other sleeper asleep) same' fits')
    · -- The look of the woken thread is in the place of the notification.
      intro _
      have enough := sound.covered (by omega)
      have least := Bool.toNat_le before.carries
      change state.semaphore.permits ≤ ((state.threads.set place after).set other awake).countP
        PermitThread.carries
      rw [Bool.toNat_false] at carried
      omega
    · exact conserved.replace asleep (by rw [held']) rfl
    · change total PermitThread.weight ((state.threads.set place after).set other awake) < _
      omega

theorem sound_wake {capacity place : Nat} {state next : PermitState}
    (sound : state.Sound capacity) (taken : state.step (.wake place) = some next) :
    next.Sound capacity := by
  obtain ⟨before, found, taken⟩ := Option.bind_eq_some_iff.mp taken
  obtain ⟨after, woken, taken⟩ := Option.bind_eq_some_iff.mp taken
  cases taken
  obtain ⟨same, fits, parked, -, quiet, -, held, -⟩ :=
    PermitThread.woken_spec woken state.semaphore.permits
  apply Sound.replace sound found same fits
  · exact fun _ => parked
  · rw [quiet]
    exact Nat.zero_le _
  · exact held

theorem sound_cancel {capacity place : Nat} {state next : PermitState}
    (sound : state.Sound capacity) (taken : state.step (.cancel place) = some next) :
    next.Sound capacity := by
  obtain ⟨before, found, taken⟩ := Option.bind_eq_some_iff.mp taken
  cases taken
  exact Sound.replace sound found rfl (sound.locked.fits place before found) id
    (Nat.le_refl _) rfl

theorem sound_hand {capacity giver taker : Nat} {state next : PermitState}
    (sound : state.Sound capacity) (taken : state.step (.hand giver taker) = some next) :
    next.Sound capacity := by
  obtain ⟨before, found, taken⟩ := Option.bind_eq_some_iff.mp taken
  split at taken
  next may =>
    obtain ⟨outside, some_held⟩ := may
    obtain ⟨other, there, taken⟩ := Option.bind_eq_some_iff.mp taken
    cases taken
    have given : ({ before with held := before.held - 1 } : PermitThread).Fits
        state.semaphore.permits := by
      rw [PermitThread.Fits, outside]
      trivial
    have locked : Locked ⟨state.semaphore, state.lock,
        state.threads.set giver { before with held := before.held - 1 }⟩ :=
      sound.locked.replace found
        (PermitThread.changed_of_same (sound.locked.owned giver before found) rfl given)
    have covered : Covered ⟨state.semaphore, state.lock,
        state.threads.set giver { before with held := before.held - 1 }⟩ :=
      sound.covered.replace found (.inr ⟨id, Nat.le_refl _⟩)
    have less : total PermitThread.held
        (state.threads.set giver { before with held := before.held - 1 }) + before.held =
          total PermitThread.held state.threads + (before.held - 1) := total_set found
    have more : total PermitThread.held
        ((state.threads.set giver { before with held := before.held - 1 }).set taker
          { other with held := other.held + 1 }) + other.held =
          total PermitThread.held
            (state.threads.set giver { before with held := before.held - 1 }) +
              (other.held + 1) := total_set there
    obtain ⟨sum, same⟩ := sound.conserved
    refine ⟨?_, ?_, ?_, same⟩
    · exact locked.replace there (PermitThread.changed_of_same
        (locked.owned taker other there) rfl (locked.fits taker other there).more)
    · exact covered.replace there (.inr ⟨id, Nat.le_refl _⟩)
    · change state.semaphore.permits + total PermitThread.held state.threads = capacity at sum
      change state.semaphore.permits + total PermitThread.held (List.set _ taker _) = capacity
      omega
  next => cases taken

theorem sound_step {capacity : Nat} {state next : PermitState} {label : PermitStep}
    (sound : state.Sound capacity) (taken : state.step label = some next) :
    next.Sound capacity := by
  cases label with
  | spawn =>
      cases taken
      exact sound_spawn sound
  | call place call => exact sound_call sound taken
  | move place => exact (sound_move sound taken).1
  | notify place wakee => exact (sound_notify sound taken).1
  | wake place => exact sound_wake sound taken
  | cancel place => exact sound_cancel sound taken
  | hand giver taker => exact sound_hand sound taken

theorem sound_initial (permits : Nat) : (initial permits).Sound (max permits 1) := by
  refine ⟨⟨each_nil _, ?_, each_nil _⟩, ?_, rfl, rfl⟩
  · intro place taken
    cases taken
  · intro waits
    exact absurd rfl waits

theorem sound_run {permits : Nat} {labels : List PermitStep} {last : PermitState}
    (reached : run step (initial permits) labels = some last) : last.Sound (max permits 1) :=
  invariant_of_steps (fun _ _ _ sound taken => sound_step sound taken) (sound_initial permits)
    reached

/-- A permit is free and a thread waits for one in `acquire`, with no notification to come and
no thread to look again. -/
def Stranded (state : PermitState) : Prop :=
  0 < state.semaphore.permits ∧
    (∃ (place : Nat) (thread : PermitThread),
      state.threads[place]? = some thread ∧ thread.phase = .parked .acquire) ∧
    ∀ (place : Nat) (thread : PermitThread), state.threads[place]? = some thread →
      thread.carries = false

/-- Some thread can go on in its code, without a new call or the end of a wait. -/
def GoesOn (state : PermitState) : Prop :=
  ∃ place next, state.step (.move place) = some next ∨
    ∃ wakee, state.step (.notify place wakee) = some next

/-- While a permit is free and a thread waits, some thread has a notification or a look to
come. -/
theorem Sound.exists_carries {capacity : Nat} {state : PermitState}
    (sound : state.Sound capacity) (isFree : 0 < state.semaphore.permits)
    {thread : PermitThread} (member : thread ∈ state.threads) (parked : thread.isParked = true) :
    ∃ (place : Nat) (carrier : PermitThread),
      state.threads[place]? = some carrier ∧ carrier.carries = true := by
  have waits : 0 < state.threads.countP PermitThread.isParked :=
    List.countP_pos_iff.mpr ⟨thread, member, parked⟩
  have enough := sound.covered (Nat.ne_of_gt waits)
  obtain ⟨carrier, member, carries⟩ :=
    List.countP_pos_iff.mp (Nat.lt_of_lt_of_le isFree enough)
  obtain ⟨place, here⟩ := List.getElem?_of_mem member
  exact ⟨place, carrier, here, carries⟩

theorem moves_of_holdsLock {semaphore : Semaphore} {lock : Option Nat} {place : Nat}
    {thread : PermitThread} (inside : thread.holdsLock = true)
    (fits : thread.Fits semaphore.permits) :
    (∃ moved, thread.advance semaphore lock place = some moved) ∨
      ∃ after, thread.notified semaphore = some after := by
  obtain ⟨held, cancelled, phase⟩ := thread
  cases phase with
  | declining waited =>
      by_cases none_free : semaphore.permits = 0
      · exact .inl ⟨_, if_pos none_free⟩
      · exact .inr ⟨_, if_neg none_free⟩
  | taking waited =>
      have some_free : semaphore.permits ≠ 0 := Nat.ne_of_gt fits
      have acquired : semaphore.tryAcquire =
          some { semaphore with permits := semaphore.permits - 1 } := if_neg some_free
      exact .inl ⟨_, congrArg (Option.map _) acquired⟩
  | running => cases inside
  | locking loop waited => cases inside
  | parked loop => cases inside
  | tryLocking => cases inside
  | releaseLocking => cases inside
  | notifying => cases inside
  | _ => exact .inl ⟨_, rfl⟩

/-- A notification finds a thread that waits, or there is none. -/
theorem notify_enabled {state : PermitState} {place : Nat} {before after : PermitThread}
    (found : state.threads[place]? = some before)
    (notified : before.notified state.semaphore = some after) :
    ∃ wakee next, state.step (.notify place wakee) = some next := by
  have enabled {wakee : Option Nat} {threads : List PermitThread}
      (woke : notifyOne (state.threads.set place after) wakee = some threads) :
      state.step (.notify place wakee) = some { state with threads := threads } := by
    simp [step, found, notified, woke]
  by_cases none_parked : (state.threads.set place after).countP PermitThread.isParked = 0
  · exact ⟨none, _, enabled (if_pos none_parked)⟩
  · obtain ⟨sleeper, member, parked⟩ :=
      List.countP_pos_iff.mp (Nat.pos_of_ne_zero none_parked)
    obtain ⟨other, asleep⟩ := List.getElem?_of_mem member
    obtain ⟨awake, woken⟩ : ∃ awake, sleeper.woken = some awake := by
      obtain ⟨held, cancelled, phase⟩ := sleeper
      cases phase with
      | parked loop => exact ⟨_, rfl⟩
      | _ => cases parked
    have woke : notifyOne (state.threads.set place after) (some other) =
        some ((state.threads.set place after).set other awake) := by
      simp [notifyOne, asleep, woken]
    exact ⟨some other, _, enabled woke⟩

theorem goesOn_of_moves {state : PermitState} {place : Nat} {thread : PermitThread}
    (here : state.threads[place]? = some thread)
    (moves : (∃ moved, thread.advance state.semaphore state.lock place = some moved) ∨
      ∃ after, thread.notified state.semaphore = some after) : state.GoesOn := by
  rcases moves with ⟨⟨semaphore, lock, after⟩, moved⟩ | ⟨after, notified⟩
  · refine ⟨place, ⟨semaphore, lock, state.threads.set place after⟩, .inl ?_⟩
    simp [step, here, moved]
  · obtain ⟨wakee, next, enabled⟩ := notify_enabled here notified
    exact ⟨place, next, .inr ⟨wakee, enabled⟩⟩

/-- With a notification or a look to come, some thread can go on: it is the one that holds the
mutex, or the mutex is free. -/
theorem Sound.goesOn {capacity : Nat} {state : PermitState} (sound : state.Sound capacity)
    {place : Nat} {carrier : PermitThread} (here : state.threads[place]? = some carrier)
    (carries : carrier.carries = true) : state.GoesOn := by
  cases locked : state.lock with
  | some owner =>
      obtain ⟨thread, there, inside⟩ := sound.locked.owner owner locked
      exact goesOn_of_moves there
        (moves_of_holdsLock inside (sound.locked.fits owner thread there))
  | none =>
      have outside : carrier.holdsLock = false := by
        by_contra inside
        rw [Bool.not_eq_false] at inside
        have owned := sound.locked.owned place carrier here inside
        rw [locked] at owned
        cases owned
      apply goesOn_of_moves here
      rw [locked]
      obtain ⟨held, cancelled, phase⟩ := carrier
      cases phase with
      | locking loop waited =>
          cases loop with
          | acquire => exact .inl ⟨_, rfl⟩
          | guard => exact .inl ⟨_, rfl⟩
      | notifying => exact .inr ⟨_, rfl⟩
      | loading waited => cases outside
      | declining waited => cases outside
      | testing loop waited => cases outside
      | taking waited => cases outside
      | unlocking => cases outside
      | _ => cases carries

/-- In every order of steps of any number of threads, the free permits and those that are held
add up to the capacity, and no thread is stranded: while a permit is free and a thread waits,
some thread goes on. -/
theorem permits_conserved_none_stranded {permits : Nat} {labels : List PermitStep}
    {last : PermitState} (reached : run step (initial permits) labels = some last) :
    last.semaphore.permits + last.held = last.semaphore.capacity ∧
      last.semaphore.capacity = max permits 1 ∧ ¬ last.Stranded ∧
      (0 < last.semaphore.permits → (∃ thread ∈ last.threads, thread.isParked = true) →
        last.GoesOn) := by
  have sound := sound_run reached
  obtain ⟨sum, same⟩ := sound.conserved
  refine ⟨sum.trans same.symm, same, ?_, ?_⟩
  · rintro ⟨isFree, ⟨place, thread, here, parked⟩, nothing⟩
    have waits : thread.isParked = true := by rw [PermitThread.isParked, parked]
    obtain ⟨other, carrier, there, carries⟩ :=
      sound.exists_carries isFree (List.mem_of_getElem? here) waits
    rw [nothing other carrier there] at carries
    cases carries
  · rintro isFree ⟨thread, member, waits⟩
    obtain ⟨other, carrier, there, carries⟩ := sound.exists_carries isFree member waits
    exact sound.goesOn there carries

/-- A thread waits for the only permit, which is given back without a notification so far. -/
def unnotifiedRelease : List PermitStep :=
  [.spawn, .spawn, .call 0 .tryAcquire, .move 0, .move 0, .move 0, .move 0,
    .call 1 .acquire, .move 1, .move 1, .move 1, .call 0 .release, .move 0, .move 0, .move 0]

theorem permits_conserved_none_stranded_unnotified :
    ∃ last, run step (initial 1) unnotifiedRelease = some last ∧
      last.semaphore.permits = 1 ∧ last.threads.any PermitThread.isParked = true ∧
      ¬ last.Stranded := by
  have computed : (run step (initial 1) unnotifiedRelease).any (fun last =>
      last.semaphore.permits = 1 ∧ last.threads.any PermitThread.isParked = true) = true := by
    decide
  obtain ⟨last, reached, shown⟩ := (Option.any_eq_true _ _).mp computed
  obtain ⟨isFree, waits⟩ := of_decide_eq_true shown
  exact ⟨last, reached, isFree, waits, (permits_conserved_none_stranded reached).2.2.1⟩

end PermitState

end Tephra.Server
