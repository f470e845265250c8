import Tephra.Histories
import Tephra.Parties

/-!
# Waking subscribers

The writer stores the watermark and then wakes the subscribers, but skips the
lock when it loads a subscriber count of zero.  A subscriber registers before
its first look at the watermark, and parks only after it has looked again, the
blocking one under the lock and the async one behind a new listener.  Each
access to the shared state is a step of its own.
-/

namespace Tephra.Read

open Histories Parties

/-- Who holds the mutex of the condition variable. -/
inductive LockOwner
  | writer
  | subscriber (place : Nat)
deriving DecidableEq, Repr

/-- What `ReadCore` shares between the writer and the subscribers. -/
structure ReadCore where
  watermark : Nat
  closed : Bool
  subscribers : Nat
  lock : Option LockOwner
deriving DecidableEq, Repr

/-- The next step of a subscriber. -/
inductive SubscriberPhase
  /-- Outside of any wait. -/
  | running
  /-- `wait_past` takes the lock, at its start or when its park has ended. -/
  | locking
  /-- Under the lock, before the load of `closed`. -/
  | checkClosed
  /-- Under the lock, before the load of the watermark. -/
  | checkMark
  /-- Under the lock, about to wait on the condition variable. -/
  | parking
  | parked
  /-- Under the lock, with the outcome decided. -/
  | returning
  /-- `wait_past_async` before its first load of `closed`. -/
  | asyncClosed
  | asyncMark
  /-- Before `async_event.listen`. -/
  | listening
  /-- Behind its listener, before the second load of `closed`. -/
  | recheckClosed
  | recheckMark
  | awaiting
  | dropped
deriving DecidableEq, Repr

/-- A `Subscription` with the state of its current wait: whether the wait has a
timeout, whether the timeout has fired, whether the listener was notified. -/
structure Subscriber where
  cursor : Nat
  timed : Bool
  fired : Bool
  notified : Bool
  phase : SubscriberPhase
deriving DecidableEq, Repr

namespace Subscriber

/-- `Subscription::new`. -/
def new (after : Nat) : Subscriber :=
  ⟨after, false, false, false, .running⟩

/-- The subscription has not been dropped. -/
def live (sub : Subscriber) : Bool :=
  match sub.phase with
  | .dropped => false
  | _ => true

/-- Only a wake-up, a timeout or a cancellation moves the subscriber on. -/
def Parked (sub : Subscriber) : Prop :=
  sub.phase = .parked ∨ sub.phase = .awaiting ∧ sub.notified = false

/-- The guard is held. -/
def holdsLock (sub : Subscriber) : Bool :=
  match sub.phase with
  | .checkClosed | .checkMark | .parking | .returning => true
  | _ => false

/-- The next step of the code of `wait_past` and `wait_past_async`. -/
def advance (core : ReadCore) (place : Nat) (sub : Subscriber) :
    Option (ReadCore × Subscriber) :=
  match sub.phase with
  | .running | .parked | .dropped => none
  | .locking =>
      match core.lock with
      | none =>
          some ({ core with lock := some (.subscriber place) },
            { sub with phase := .checkClosed })
      | some _ => none
  | .checkClosed =>
      some (core, { sub with phase := if core.closed then .returning else .checkMark })
  | .checkMark =>
      -- past a timeout the watermark is looked at once more before the return
      some (core, { sub with
        phase := if sub.cursor < core.watermark ∨ sub.fired then .returning else .parking })
  | .parking =>
      -- `cv.wait` releases the guard and parks in one step
      some ({ core with lock := none }, { sub with phase := .parked })
  | .returning =>
      some ({ core with lock := none }, { sub with phase := .running })
  | .asyncClosed =>
      some (core, { sub with phase := if core.closed then .running else .asyncMark })
  | .asyncMark =>
      some (core, { sub with
        phase := if sub.cursor < core.watermark then .running else .listening })
  | .listening =>
      some (core, { sub with phase := .recheckClosed, notified := false })
  | .recheckClosed =>
      some (core, { sub with phase := if core.closed then .running else .recheckMark })
  | .recheckMark =>
      some (core, { sub with
        phase := if sub.cursor < core.watermark then .running else .awaiting })
  | .awaiting =>
      if sub.notified then some (core, { sub with phase := .asyncClosed }) else none

/-- The end of a park of the condition variable: the lock is taken again. -/
def unpark (sub : Subscriber) : Subscriber :=
  if sub.phase = .parked then { sub with phase := .locking } else sub

/-- The event wakes the listeners that exist. -/
def notify (sub : Subscriber) : Subscriber :=
  if sub.phase = .recheckClosed ∨ sub.phase = .recheckMark ∨ sub.phase = .awaiting then
    { sub with notified := true }
  else sub

end Subscriber

/-- The next step of the writer thread. -/
inductive WriterPhase
  | idle
  /-- `wake`, before the load of the subscriber count. -/
  | wakeLoad
  | wakeLock
  /-- `wake` under the lock, before `cv.notify_all`. -/
  | wakeNotify
  /-- `wake` under the lock, before `async_event.notify`. -/
  | wakeEvent
  | wakeUnlock
  /-- `close`, with `closed` set, before the lock. -/
  | closeLock
  | closeNotify
  | closeEvent
  | closeUnlock
  | stopped
deriving DecidableEq, Repr

namespace WriterPhase

/-- A wake of the condition variable for the last commit is still to come. -/
def wakePending : WriterPhase → Bool
  | .wakeLoad | .wakeLock | .wakeNotify => true
  | _ => false

/-- A notification of the listeners for the last commit is still to come. -/
def wakeEventPending : WriterPhase → Bool
  | .wakeLoad | .wakeLock | .wakeNotify | .wakeEvent => true
  | _ => false

/-- The call of `wake` has not returned. -/
def waking : WriterPhase → Bool
  | .wakeLoad | .wakeLock | .wakeNotify | .wakeEvent | .wakeUnlock => true
  | _ => false

def closePending : WriterPhase → Bool
  | .closeLock | .closeNotify => true
  | _ => false

def closeEventPending : WriterPhase → Bool
  | .closeLock | .closeNotify | .closeEvent => true
  | _ => false

def holdsLock : WriterPhase → Bool
  | .wakeNotify | .wakeEvent | .wakeUnlock | .closeNotify | .closeEvent | .closeUnlock => true
  | _ => false

end WriterPhase

/-- The writer, the subscribers and what they share.  `woken` is the tip whose
wake has returned last. -/
structure WakeState where
  core : ReadCore
  writer : WriterPhase
  subscriptions : List Subscriber
  woken : Nat
deriving DecidableEq, Repr

namespace WakeState

/-- `ReadCore::new`: the watermark is the tip of the opened log. -/
def start (tip : Nat) : WakeState :=
  ⟨⟨tip, false, 0, none⟩, .idle, [], tip⟩

/-- The next step of `wake` or `close`. -/
def advanceWriter (state : WakeState) : Option WakeState :=
  match state.writer with
  | .idle | .stopped => none
  | .wakeLoad =>
      if state.core.subscribers = 0 then
        some { state with writer := .idle, woken := state.core.watermark }
      else some { state with writer := .wakeLock }
  | .wakeLock =>
      match state.core.lock with
      | none =>
          some { state with core := { state.core with lock := some .writer }
                            writer := .wakeNotify }
      | some _ => none
  | .wakeNotify =>
      some { state with subscriptions := state.subscriptions.map Subscriber.unpark
                        writer := .wakeEvent }
  | .wakeEvent =>
      some { state with subscriptions := state.subscriptions.map Subscriber.notify
                        writer := .wakeUnlock }
  | .wakeUnlock =>
      some { state with core := { state.core with lock := none }
                        writer := .idle, woken := state.core.watermark }
  | .closeLock =>
      match state.core.lock with
      | none =>
          some { state with core := { state.core with lock := some .writer }
                            writer := .closeNotify }
      | some _ => none
  | .closeNotify =>
      some { state with subscriptions := state.subscriptions.map Subscriber.unpark
                        writer := .closeEvent }
  | .closeEvent =>
      some { state with subscriptions := state.subscriptions.map Subscriber.notify
                        writer := .closeUnlock }
  | .closeUnlock =>
      some { state with core := { state.core with lock := none }, writer := .stopped }

/-- The subscriber at a place moves on without touching the shared state. -/
def move (state : WakeState) (place : Nat) (change : Subscriber → Option Subscriber) :
    Option WakeState := do
  let sub ← state.subscriptions[place]?
  let moved ← change sub
  some { state with subscriptions := state.subscriptions.set place moved }

end WakeState

/-- One step of the writer or of one subscriber. -/
inductive WakeStep
  /-- `publish_watermark` after a commit; `wake` follows. -/
  | publish (tip : Nat)
  /-- `close` sets `closed`. -/
  | close
  | writer
  /-- `Subscription::new`. -/
  | subscribe (after : Nat)
  /-- A read between two waits has moved the cursor. -/
  | read (place cursor : Nat)
  /-- `wait` or `wait_timeout` is called. -/
  | wait (place : Nat) (timed : Bool)
  /-- `wait_async` is called. -/
  | waitAsync (place : Nat)
  /-- The next step of the code of a wait. -/
  | subscriber (place : Nat)
  /-- The timeout ends a park. -/
  | expire (place : Nat)
  /-- The condition variable ends a park without a notification. -/
  | spurious (place : Nat)
  /-- The future of `wait_past_async` is dropped at its await. -/
  | cancel (place : Nat)
  /-- `Subscription::drop`. -/
  | drop (place : Nat)
deriving DecidableEq, Repr

namespace WakeState

/-- The step of a label, if it is enabled. -/
def step (state : WakeState) : WakeStep → Option WakeState
  | .publish tip =>
      if state.writer = .idle ∧ state.core.watermark ≤ tip then
        some { state with core := { state.core with watermark := tip }, writer := .wakeLoad }
      else none
  | .close =>
      if state.writer = .idle then
        some { state with core := { state.core with closed := true }, writer := .closeLock }
      else none
  | .writer => state.advanceWriter
  | .subscribe after =>
      some { state with
        core := { state.core with subscribers := state.core.subscribers + 1 }
        subscriptions := state.subscriptions ++ [Subscriber.new after] }
  | .read place cursor =>
      state.move place fun sub =>
        if sub.phase = .running then some { sub with cursor := cursor } else none
  | .wait place timed =>
      state.move place fun sub =>
        if sub.phase = .running then
          some { sub with phase := .locking, timed := timed, fired := false }
        else none
  | .waitAsync place =>
      state.move place fun sub =>
        if sub.phase = .running then some { sub with phase := .asyncClosed } else none
  | .subscriber place => do
      let sub ← state.subscriptions[place]?
      let (core, moved) ← sub.advance state.core place
      some { state with core := core, subscriptions := state.subscriptions.set place moved }
  | .expire place =>
      state.move place fun sub =>
        if sub.phase = .parked ∧ sub.timed then
          some { sub with phase := .locking, fired := true }
        else none
  | .spurious place =>
      state.move place fun sub =>
        if sub.phase = .parked then some { sub with phase := .locking } else none
  | .cancel place =>
      state.move place fun sub =>
        if sub.phase = .awaiting then some { sub with phase := .running } else none
  | .drop place => do
      let sub ← state.subscriptions[place]?
      if sub.phase = .running then
        some { state with
          core := { state.core with subscribers := state.core.subscribers - 1 }
          subscriptions := state.subscriptions.set place { sub with phase := .dropped } }
      else none

end WakeState

/-- What holds of one subscriber: whoever has looked too early to see a commit
or the close has the wake-up still before it. -/
structure Subscriber.Safe (core : ReadCore) (writer : WriterPhase) (woken place : Nat)
    (sub : Subscriber) : Prop where
  lock : sub.holdsLock = true ↔ core.lock = some (.subscriber place)
  closed : sub.phase = .checkMark ∨ sub.phase = .parking ∨ sub.phase = .parked →
    core.closed = true → writer.closePending = true
  mark : sub.phase = .parking ∨ sub.phase = .parked →
    sub.cursor < core.watermark → writer.wakePending = true
  asyncClosed : sub.phase = .recheckMark ∨ sub.phase = .awaiting → sub.notified = false →
    core.closed = true → writer.closeEventPending = true
  asyncMark : sub.phase = .awaiting → sub.notified = false →
    sub.cursor < core.watermark → writer.wakeEventPending = true
  woken : sub.phase = .parking ∨ sub.phase = .parked ∨
      sub.phase = .awaiting ∧ sub.notified = false → woken ≤ sub.cursor

/-- The invariant of the wake-ups. -/
structure WakeState.Safe (state : WakeState) : Prop where
  lock : state.writer.holdsLock = true ↔ state.core.lock = some .writer
  owner : ∀ place, state.core.lock = some (.subscriber place) →
    place < state.subscriptions.length
  count : state.core.subscribers = state.subscriptions.countP Subscriber.live
  woken_le : state.woken ≤ state.core.watermark
  woken_eq : state.writer.waking = false → state.woken = state.core.watermark
  each : Each (Subscriber.Safe state.core state.writer state.woken) state.subscriptions

/-- A subscriber that has not looked at the close or the watermark has only its lock to
keep. -/
theorem Subscriber.safe_of_lock {core : ReadCore} {writer : WriterPhase} {woken place : Nat}
    {sub : Subscriber} (lock : sub.holdsLock = true ↔ core.lock = some (.subscriber place))
    (away : sub.phase ≠ .checkMark ∧ sub.phase ≠ .parking ∧ sub.phase ≠ .parked ∧
      sub.phase ≠ .recheckMark ∧ sub.phase ≠ .awaiting) :
    sub.Safe core writer woken place := by
  obtain ⟨notMark, notParking, notParked, notRecheck, notAwaiting⟩ := away
  constructor
  case lock => exact lock
  all_goals simp [notMark, notParking, notParked, notRecheck, notAwaiting]

namespace Subscriber.Safe

variable {core next : ReadCore} {writer : WriterPhase} {woken place : Nat}
  {sub moved : Subscriber}

theorem checkClosed (safe : sub.Safe core writer woken place) (here : sub.phase = .checkClosed) :
    Safe core writer woken place
      { sub with phase := if core.closed then .returning else .checkMark } := by
  have own : core.lock = some (.subscriber place) := by
    rw [← safe.lock, holdsLock, here]
  cases isClosed : core.closed with
  | true =>
      rw [if_pos rfl]
      exact safe_of_lock (by simp [holdsLock, own]) (by simp)
  | false =>
      rw [if_neg Bool.false_ne_true]
      constructor
      case lock => simp [holdsLock, own]
      case closed => simp [isClosed]
      all_goals simp

/-- Under the lock a subscriber parks only on a watermark that it has read. -/
theorem checkMark (safe : sub.Safe core writer woken place) (here : sub.phase = .checkMark)
    (woken_le : woken ≤ core.watermark) :
    Safe core writer woken place { sub with
      phase := if sub.cursor < core.watermark ∨ sub.fired then .returning else .parking } := by
  have own : core.lock = some (.subscriber place) := by
    rw [← safe.lock, holdsLock, here]
  by_cases leaves : sub.cursor < core.watermark ∨ sub.fired = true
  · rw [if_pos leaves]
    exact safe_of_lock (by simp [holdsLock, own]) (by simp)
  · rw [if_neg leaves]
    have reached : core.watermark ≤ sub.cursor := by omega
    constructor
    case lock => simp [holdsLock, own]
    case closed => intro _; exact safe.closed (.inl here)
    case mark => intro _ newer; exact absurd newer (Nat.not_lt.mpr reached)
    case woken => intro _; exact Nat.le_trans woken_le reached
    all_goals simp

theorem park (safe : sub.Safe core writer woken place) (here : sub.phase = .parking) :
    Safe { core with lock := none } writer woken place { sub with phase := .parked } := by
  constructor
  case lock => simp [holdsLock]
  case closed => intro _; exact safe.closed (.inr (.inl here))
  case mark => intro _; exact safe.mark (.inl here)
  case woken => intro _; exact safe.woken (.inl here)
  all_goals simp

theorem recheckClosed (safe : sub.Safe core writer woken place)
    (here : sub.phase = .recheckClosed) :
    Safe core writer woken place
      { sub with phase := if core.closed then .running else .recheckMark } := by
  have own : core.lock ≠ some (.subscriber place) := by
    rw [Ne, ← safe.lock, holdsLock, here]
    simp
  cases isClosed : core.closed with
  | true =>
      rw [if_pos rfl]
      exact safe_of_lock (by simp [holdsLock, own]) (by simp)
  | false =>
      rw [if_neg Bool.false_ne_true]
      constructor
      case lock => simp [holdsLock, own]
      case asyncClosed => simp [isClosed]
      all_goals simp

/-- Behind its listener a subscriber awaits only past a watermark that it has read. -/
theorem recheckMark (safe : sub.Safe core writer woken place) (here : sub.phase = .recheckMark)
    (woken_le : woken ≤ core.watermark) :
    Safe core writer woken place { sub with
      phase := if sub.cursor < core.watermark then .running else .awaiting } := by
  have own : core.lock ≠ some (.subscriber place) := by
    rw [Ne, ← safe.lock, holdsLock, here]
    simp
  by_cases newer : sub.cursor < core.watermark
  · rw [if_pos newer]
    exact safe_of_lock (by simp [holdsLock, own]) (by simp)
  · rw [if_neg newer]
    have reached : core.watermark ≤ sub.cursor := Nat.not_lt.mp newer
    constructor
    case lock => simp [holdsLock, own]
    case asyncClosed => intro _; exact safe.asyncClosed (.inl here)
    case asyncMark => intro _ _ later; exact absurd later newer
    case woken => intro _; exact Nat.le_trans woken_le reached
    all_goals simp

/-- The five places above are those where the subscriber looks or parks; elsewhere it has only
its lock to keep. -/
theorem advance (safe : sub.Safe core writer woken place) (woken_le : woken ≤ core.watermark)
    (taken : sub.advance core place = some (next, moved)) :
    moved.Safe next writer woken place := by
  have own := safe.lock
  unfold Subscriber.advance at taken
  cases here : sub.phase <;> simp only [here, Option.some.injEq, Prod.mk.injEq] at taken
  case running | parked | dropped => cases taken
  case locking =>
    split at taken
    · cases taken
      exact safe_of_lock (by simp [holdsLock]) (by simp)
    · cases taken
  case checkClosed =>
    obtain ⟨rfl, rfl⟩ := taken
    exact safe.checkClosed here
  case checkMark =>
    obtain ⟨rfl, rfl⟩ := taken
    exact safe.checkMark here woken_le
  case parking =>
    obtain ⟨rfl, rfl⟩ := taken
    exact safe.park here
  case returning =>
    obtain ⟨rfl, rfl⟩ := taken
    exact safe_of_lock (by simp [holdsLock]) (by simp)
  case asyncClosed =>
    obtain ⟨rfl, rfl⟩ := taken
    rw [holdsLock, here] at own
    split <;> exact safe_of_lock own (by simp)
  case asyncMark =>
    obtain ⟨rfl, rfl⟩ := taken
    rw [holdsLock, here] at own
    split <;> exact safe_of_lock own (by simp)
  case listening =>
    obtain ⟨rfl, rfl⟩ := taken
    rw [holdsLock, here] at own
    exact safe_of_lock own (by simp)
  case recheckClosed =>
    obtain ⟨rfl, rfl⟩ := taken
    exact safe.recheckClosed here
  case recheckMark =>
    obtain ⟨rfl, rfl⟩ := taken
    exact safe.recheckMark here woken_le
  case awaiting =>
    split at taken
    · cases taken
      rw [holdsLock, here] at own
      exact safe_of_lock own (by simp)
    · cases taken

end Subscriber.Safe

/-- What the step of a wait leaves alone, and which way the lock can go. -/
structure Subscriber.AdvanceFrame (core next : ReadCore) (place : Nat)
    (sub moved : Subscriber) : Prop where
  watermark : next.watermark = core.watermark
  closed : next.closed = core.closed
  subscribers : next.subscribers = core.subscribers
  live : moved.live = sub.live
  lock : next.lock = core.lock ∨
    core.lock = none ∧ next.lock = some (.subscriber place) ∨
    sub.holdsLock = true ∧ next.lock = none

theorem Subscriber.advanceFrame {core next : ReadCore} {place : Nat} {sub moved : Subscriber}
    (taken : sub.advance core place = some (next, moved)) :
    sub.AdvanceFrame core next place moved := by
  obtain ⟨cursor, timed, fired, notified, phase⟩ := sub
  cases phase <;> simp only [Subscriber.advance] at taken
  case running | parked | dropped => simp at taken
  case locking =>
    cases held : core.lock <;> simp only [held] at taken
    · simp only [Option.some.injEq, Prod.mk.injEq] at taken
      obtain ⟨rfl, rfl⟩ := taken
      constructor <;> simp [Subscriber.live, held]
    · simp at taken
  case awaiting =>
    cases woke : notified <;> simp only [woke] at taken
    · simp at taken
    · simp only [if_true, Option.some.injEq, Prod.mk.injEq] at taken
      obtain ⟨rfl, rfl⟩ := taken
      constructor <;> simp [Subscriber.live]
  all_goals
    simp only [Option.some.injEq, Prod.mk.injEq] at taken
    obtain ⟨rfl, rfl⟩ := taken
    constructor <;> simp [Subscriber.live, Subscriber.holdsLock]
  all_goals split <;> rename_i here <;> split at here <;> simp_all

/-- What another subscriber does to the lock is nothing to this one. -/
theorem Subscriber.Safe.of_advance {core next : ReadCore} {writer : WriterPhase}
    {woken place mover : Nat} {sub former moved : Subscriber}
    (safe : sub.Safe core writer woken place) (other : place ≠ mover)
    (holder : former.holdsLock = true ↔ core.lock = some (.subscriber mover))
    (frame : former.AdvanceFrame core next mover moved) :
    sub.Safe next writer woken place := by
  have sameLock : core.lock = some (.subscriber place) ↔
      next.lock = some (.subscriber place) := by
    rcases frame.lock with same | ⟨free, taken⟩ | ⟨held, released⟩
    · rw [same]
    · simp [free, taken, Ne.symm other]
    · simp [holder.mp held, released, Ne.symm other]
  obtain ⟨own, closed, mark, asyncClosed, asyncMark, below⟩ := safe
  constructor
  case lock => exact own.trans sameLock
  case closed => rw [frame.closed]; exact closed
  case mark => rw [frame.watermark]; exact mark
  case asyncClosed => rw [frame.closed]; exact asyncClosed
  case asyncMark => rw [frame.watermark]; exact asyncMark
  case woken => exact below

theorem Subscriber.Safe.free {core : ReadCore} {writer later : WriterPhase}
    {woken tip place : Nat} {sub moved : Subscriber} (safe : sub.Safe core writer woken place)
    (outside : sub.holdsLock = false)
    (phase : moved.phase = .running ∨ moved.phase = .locking ∨
      moved.phase = .asyncClosed ∨ moved.phase = .dropped) :
    moved.Safe core later tip place := by
  have notOwner : ¬ core.lock = some (.subscriber place) := by
    rw [← safe.lock]
    simp [outside]
  rcases phase with here | here | here | here <;>
    constructor <;> simp [here, notOwner, Subscriber.holdsLock]

namespace WakeState

theorem safe_start (tip : Nat) : (start tip).Safe := by
  constructor
  case each => exact each_nil _
  all_goals simp [start, WriterPhase.holdsLock]

theorem Safe.subscriber {state next : WakeState} {place : Nat} (safe : state.Safe)
    (taken : state.step (.subscriber place) = some next) : next.Safe := by
  simp only [step, Option.bind_eq_bind, Option.bind_eq_some_iff] at taken
  obtain ⟨sub, found, ⟨core, moved⟩, advanced, taken⟩ := taken
  obtain rfl := Option.some.inj taken
  have own := safe.each place sub found
  have frame := Subscriber.advanceFrame advanced
  constructor
  case lock =>
    apply safe.lock.trans
    rcases frame.lock with same | ⟨free, taken⟩ | ⟨held, released⟩
    · rw [same]
    · simp [free, taken]
    · simp [own.lock.mp held, released]
  case owner =>
    intro holder held
    simp only [List.length_set]
    rcases frame.lock with same | ⟨_, taken⟩ | ⟨_, released⟩
    · exact safe.owner holder (same.symm.trans held)
    · obtain rfl : holder = place := by simpa [taken, eq_comm] using held
      exact (List.getElem?_eq_some_iff.mp found).1
    · simp [released] at held
  case count =>
    calc
      core.subscribers = state.core.subscribers := frame.subscribers
      _ = state.subscriptions.countP Subscriber.live := safe.count
      _ = (state.subscriptions.set place moved).countP Subscriber.live :=
        (countP_set_eq found frame.live).symm
  case woken_le => rw [frame.watermark]; exact safe.woken_le
  case woken_eq => rw [frame.watermark]; exact safe.woken_eq
  case each =>
    refine safe.each.set ?_ ?_
    · exact own.advance safe.woken_le advanced
    · intro other sub' apart _ there
      exact there.of_advance apart own.lock frame

theorem Safe.move {state next : WakeState} {place : Nat}
    {change : Subscriber → Option Subscriber} (safe : state.Safe)
    (live : ∀ sub moved, change sub = some moved → moved.live = sub.live)
    (keeps : ∀ sub moved, change sub = some moved →
      sub.Safe state.core state.writer state.woken place →
      moved.Safe state.core state.writer state.woken place)
    (taken : state.move place change = some next) : next.Safe := by
  simp only [WakeState.move, Option.bind_eq_bind, Option.bind_eq_some_iff] at taken
  obtain ⟨sub, found, moved, changed, taken⟩ := taken
  obtain rfl := Option.some.inj taken
  constructor
  case lock => exact safe.lock
  case owner => simpa only [List.length_set] using safe.owner
  case count =>
    exact safe.count.trans (countP_set_eq found (live sub moved changed)).symm
  case woken_le => exact safe.woken_le
  case woken_eq => exact safe.woken_eq
  case each =>
    refine safe.each.set ?_ ?_
    · exact keeps sub moved changed (safe.each place sub found)
    · intro _ _ _ _ there
      exact there

end WakeState

/-- A change of the writer's phase alone, or with the lock it takes or releases. -/
theorem Subscriber.Safe.writer {core next : ReadCore} {writer later : WriterPhase}
    {woken place : Nat} {sub : Subscriber} (safe : sub.Safe core writer woken place)
    (lock : core.lock = some (.subscriber place) ↔ next.lock = some (.subscriber place))
    (watermark : next.watermark = core.watermark) (closed : next.closed = core.closed)
    (wake : writer.wakePending = true → later.wakePending = true)
    (wakeEvent : writer.wakeEventPending = true → later.wakeEventPending = true)
    (close : writer.closePending = true → later.closePending = true)
    (closeEvent : writer.closeEventPending = true → later.closeEventPending = true) :
    sub.Safe next later woken place := by
  constructor
  case lock => exact safe.lock.trans lock
  case closed => rw [closed]; intro phase isClosed; exact close (safe.closed phase isClosed)
  case mark => rw [watermark]; intro phase newer; exact wake (safe.mark phase newer)
  case asyncClosed =>
    rw [closed]
    intro phase deaf isClosed
    exact closeEvent (safe.asyncClosed phase deaf isClosed)
  case asyncMark =>
    rw [watermark]
    intro phase deaf newer
    exact wakeEvent (safe.asyncMark phase deaf newer)
  case woken => exact safe.woken

namespace WakeState

theorem alone {state : WakeState} {place : Nat} {sub : Subscriber}
    (owned : state.core.lock = some .writer)
    (own : sub.Safe state.core state.writer state.woken place) : sub.holdsLock = false := by
  cases held : sub.holdsLock with
  | false => rfl
  | true =>
      have := own.lock.mp held
      rw [owned] at this
      simp at this

end WakeState

namespace WakeState

/-- A park ended by the writer leaves nobody behind a commit or a close. -/
theorem Safe.notifyAll {state : WakeState} (safe : state.Safe) {later : WriterPhase}
    (owned : state.core.lock = some .writer) (holds : later.holdsLock = true)
    (waking : later.waking = state.writer.waking)
    (wakeEvent : state.writer.wakeEventPending = true → later.wakeEventPending = true)
    (closeEvent : state.writer.closeEventPending = true → later.closeEventPending = true) :
    Safe { state with subscriptions := state.subscriptions.map Subscriber.unpark
                      writer := later } := by
  constructor
  case lock => simp [holds, owned]
  case owner => simpa only [List.length_map] using safe.owner
  case count =>
    have sameLive : Subscriber.live ∘ Subscriber.unpark = Subscriber.live := by
      funext sub
      simp only [Function.comp_apply, Subscriber.unpark]
      split
      · rename_i here
        simp [Subscriber.live, here]
      · rfl
    simp only [List.countP_map, sameLive]
    exact safe.count
  case woken_le => exact safe.woken_le
  case woken_eq => simpa only [waking] using safe.woken_eq
  case each =>
    refine safe.each.map ?_
    intro place sub own
    have outside := alone owned own
    by_cases here : sub.phase = .parked
    · simp only [Subscriber.unpark, here, if_true]
      apply own.free outside
      right
      left
      rfl
    · simp only [Subscriber.unpark, here, if_false]
      have notGate : sub.phase ≠ .checkMark ∧ sub.phase ≠ .parking := by
        constructor <;> intro phase <;> simp [Subscriber.holdsLock, phase] at outside
      constructor
      case lock => exact own.lock
      case closed => simp [here, notGate]
      case mark => simp [here, notGate]
      case asyncClosed =>
        intro phase deaf isClosed
        exact closeEvent (own.asyncClosed phase deaf isClosed)
      case asyncMark =>
        intro phase deaf newer
        exact wakeEvent (own.asyncMark phase deaf newer)
      case woken => exact own.woken

/-- A notification of the event leaves no listener behind a commit or a close. -/
theorem Safe.notifyEvent {state : WakeState} (safe : state.Safe) {later : WriterPhase}
    (owned : state.core.lock = some .writer) (holds : later.holdsLock = true)
    (waking : later.waking = state.writer.waking)
    (wake : state.writer.wakePending = false) (close : state.writer.closePending = false) :
    Safe { state with subscriptions := state.subscriptions.map Subscriber.notify
                      writer := later } := by
  constructor
  case lock => simp [holds, owned]
  case owner => simpa only [List.length_map] using safe.owner
  case count =>
    have sameLive : Subscriber.live ∘ Subscriber.notify = Subscriber.live := by
      funext sub
      simp only [Function.comp_apply, Subscriber.notify]
      split <;> rfl
    simp only [List.countP_map, sameLive]
    exact safe.count
  case woken_le => exact safe.woken_le
  case woken_eq => simpa only [waking] using safe.woken_eq
  case each =>
    refine safe.each.map ?_
    intro place sub own
    have gate := own.closed
    have mark := own.mark
    simp only [wake, close, Bool.false_eq_true, imp_false] at gate mark
    by_cases listens : sub.phase = .recheckClosed ∨ sub.phase = .recheckMark ∨
        sub.phase = .awaiting
    · simp only [Subscriber.notify, listens, if_true]
      constructor
      case lock => exact own.lock
      case closed => rcases listens with here | here | here <;> simp [here]
      case mark => rcases listens with here | here | here <;> simp [here]
      case woken => rcases listens with here | here | here <;> simp [here]
      all_goals simp
    · simp only [Subscriber.notify, listens, if_false]
      simp only [not_or] at listens
      constructor
      case lock => exact own.lock
      case closed => intro phase isClosed; exact absurd isClosed (gate phase)
      case mark => intro phase newer; exact absurd newer (mark phase)
      case asyncClosed => simp [listens]
      case asyncMark => simp [listens]
      case woken => exact own.woken

theorem Safe.writerMoves {state : WakeState} (safe : state.Safe) {later : WriterPhase}
    {lock : Option LockOwner}
    (owns : later.holdsLock = true ↔ lock = some .writer)
    (others : ∀ place, state.core.lock = some (.subscriber place) ↔
      lock = some (.subscriber place))
    (waking : later.waking = state.writer.waking)
    (wake : state.writer.wakePending = true → later.wakePending = true)
    (wakeEvent : state.writer.wakeEventPending = true → later.wakeEventPending = true)
    (close : state.writer.closePending = true → later.closePending = true)
    (closeEvent : state.writer.closeEventPending = true → later.closeEventPending = true) :
    Safe { state with core := { state.core with lock := lock }, writer := later } := by
  constructor
  case lock => exact owns
  case owner => intro holder held; exact safe.owner holder ((others holder).mpr held)
  case count => exact safe.count
  case woken_le => exact safe.woken_le
  case woken_eq => simpa only [waking] using safe.woken_eq
  case each =>
    refine safe.each.imp ?_
    intro place sub _ own
    exact own.writer (others place) rfl rfl wake wakeEvent close closeEvent

end WakeState

namespace WakeState

theorem Safe.owned {state : WakeState} (safe : state.Safe)
    (holds : state.writer.holdsLock = true) : state.core.lock = some .writer :=
  safe.lock.mp holds

theorem Safe.wakeReturns {state : WakeState} (safe : state.Safe)
    (at_unlock : state.writer = .wakeUnlock) :
    Safe { state with core := { state.core with lock := none }
                      writer := .idle, woken := state.core.watermark } := by
  have owned := safe.owned (by rw [at_unlock]; rfl)
  constructor
  case lock => simp [WriterPhase.holdsLock]
  case owner => simp
  case count => exact safe.count
  case woken_le => exact Nat.le_refl _
  case woken_eq => simp
  case each =>
    refine safe.each.imp ?_
    intro place sub _ own
    have outside := alone owned own
    obtain ⟨_, closed, mark, asyncClosed, asyncMark, _⟩ := own
    simp only [at_unlock, WriterPhase.wakePending, WriterPhase.wakeEventPending,
      WriterPhase.closePending, WriterPhase.closeEventPending, Bool.false_eq_true,
      imp_false, Nat.not_lt] at closed mark asyncClosed asyncMark
    constructor
    case lock => simp [outside]
    case closed => intro phase isClosed; exact absurd isClosed (closed phase)
    case mark =>
      intro phase newer
      exact absurd newer (Nat.not_lt.mpr (mark phase))
    case asyncClosed =>
      intro phase deaf isClosed
      exact absurd isClosed (asyncClosed phase deaf)
    case asyncMark =>
      intro phase deaf newer
      exact absurd newer (Nat.not_lt.mpr (asyncMark phase deaf))
    case woken =>
      rintro (here | here | ⟨here, deaf⟩)
      · exact mark (Or.inl here)
      · exact mark (Or.inr here)
      · exact asyncMark here deaf

theorem Safe.wakeSkips {state : WakeState} (safe : state.Safe)
    (at_load : state.writer = .wakeLoad) (nobody : state.core.subscribers = 0) :
    Safe { state with writer := .idle, woken := state.core.watermark } := by
  have gone : ∀ sub ∈ state.subscriptions, sub.phase = .dropped := by
    intro sub member
    have none := List.countP_eq_zero.mp (safe.count.symm.trans nobody) sub member
    cases phase : sub.phase <;> simp [Subscriber.live, phase] at none
    rfl
  constructor
  case lock =>
    rw [← safe.lock, at_load]
    rfl
  case owner => exact safe.owner
  case count => exact safe.count
  case woken_le => exact Nat.le_refl _
  case woken_eq => simp
  case each =>
    refine safe.each.imp ?_
    intro place sub found own
    have dropped := gone sub (List.mem_of_getElem? found)
    constructor
    case lock => exact own.lock
    all_goals simp [dropped]

theorem Safe.advanceWriter {state next : WakeState} (safe : state.Safe)
    (taken : state.advanceWriter = some next) : next.Safe := by
  cases at_phase : state.writer with
  | idle => simp [WakeState.advanceWriter, at_phase] at taken
  | stopped => simp [WakeState.advanceWriter, at_phase] at taken
  | wakeLoad =>
      by_cases nobody : state.core.subscribers = 0
      · simp only [WakeState.advanceWriter, at_phase, nobody, if_true, Option.some.injEq] at taken
        subst taken
        exact safe.wakeSkips at_phase nobody
      · simp only [WakeState.advanceWriter, at_phase, nobody, if_false, Option.some.injEq] at taken
        subst taken
        apply safe.writerMoves <;>
          simp [at_phase, WriterPhase.holdsLock, WriterPhase.waking, WriterPhase.wakePending,
            WriterPhase.wakeEventPending, WriterPhase.closePending,
            WriterPhase.closeEventPending]
        rw [← safe.lock, at_phase]
        simp [WriterPhase.holdsLock]
  | wakeLock =>
      cases free : state.core.lock with
      | some owner => simp [WakeState.advanceWriter, at_phase, free] at taken
      | none =>
          simp only [WakeState.advanceWriter, at_phase, free, Option.some.injEq] at taken
          subst taken
          apply safe.writerMoves <;>
            simp [at_phase, free, WriterPhase.holdsLock, WriterPhase.waking,
              WriterPhase.wakePending, WriterPhase.wakeEventPending, WriterPhase.closePending,
              WriterPhase.closeEventPending]
  | wakeNotify =>
      have owned := safe.owned (by rw [at_phase]; rfl)
      simp only [WakeState.advanceWriter, at_phase, Option.some.injEq] at taken
      subst taken
      apply safe.notifyAll owned <;>
        simp [at_phase, WriterPhase.holdsLock, WriterPhase.waking,
          WriterPhase.wakeEventPending, WriterPhase.closeEventPending]
  | wakeEvent =>
      have owned := safe.owned (by rw [at_phase]; rfl)
      simp only [WakeState.advanceWriter, at_phase, Option.some.injEq] at taken
      subst taken
      apply safe.notifyEvent owned <;>
        simp [at_phase, WriterPhase.holdsLock, WriterPhase.waking, WriterPhase.wakePending,
          WriterPhase.closePending]
  | wakeUnlock =>
      simp only [WakeState.advanceWriter, at_phase, Option.some.injEq] at taken
      subst taken
      exact safe.wakeReturns at_phase
  | closeLock =>
      cases free : state.core.lock with
      | some owner => simp [WakeState.advanceWriter, at_phase, free] at taken
      | none =>
          simp only [WakeState.advanceWriter, at_phase, free, Option.some.injEq] at taken
          subst taken
          apply safe.writerMoves <;>
            simp [at_phase, free, WriterPhase.holdsLock, WriterPhase.waking,
              WriterPhase.wakePending, WriterPhase.wakeEventPending, WriterPhase.closePending,
              WriterPhase.closeEventPending]
  | closeNotify =>
      have owned := safe.owned (by rw [at_phase]; rfl)
      simp only [WakeState.advanceWriter, at_phase, Option.some.injEq] at taken
      subst taken
      apply safe.notifyAll owned <;>
        simp [at_phase, WriterPhase.holdsLock, WriterPhase.waking,
          WriterPhase.wakeEventPending, WriterPhase.closeEventPending]
  | closeEvent =>
      have owned := safe.owned (by rw [at_phase]; rfl)
      simp only [WakeState.advanceWriter, at_phase, Option.some.injEq] at taken
      subst taken
      apply safe.notifyEvent owned <;>
        simp [at_phase, WriterPhase.holdsLock, WriterPhase.waking, WriterPhase.wakePending,
          WriterPhase.closePending]
  | closeUnlock =>
      have owned := safe.owned (by rw [at_phase]; rfl)
      simp only [WakeState.advanceWriter, at_phase, Option.some.injEq] at taken
      subst taken
      apply safe.writerMoves <;>
        simp [at_phase, owned, WriterPhase.holdsLock, WriterPhase.waking,
          WriterPhase.wakePending, WriterPhase.wakeEventPending, WriterPhase.closePending,
          WriterPhase.closeEventPending]

end WakeState

namespace WakeState

theorem Safe.publish {state : WakeState} (safe : state.Safe) {tip : Nat}
    (idle : state.writer = .idle) (ascends : state.core.watermark ≤ tip) :
    Safe { state with core := { state.core with watermark := tip }, writer := .wakeLoad } := by
  constructor
  case lock =>
    rw [← safe.lock, idle]
    rfl
  case owner => exact safe.owner
  case count => exact safe.count
  case woken_le => exact Nat.le_trans safe.woken_le ascends
  case woken_eq => simp [WriterPhase.waking]
  case each =>
    refine safe.each.imp ?_
    intro place sub _ own
    obtain ⟨lock, closed, _, asyncClosed, _, woken⟩ := own
    simp only [idle, WriterPhase.closePending, WriterPhase.closeEventPending,
      Bool.false_eq_true, imp_false] at closed asyncClosed
    constructor
    case lock => exact lock
    case closed => intro phase isClosed; exact absurd isClosed (closed phase)
    case mark => simp [WriterPhase.wakePending]
    case asyncClosed => intro phase deaf isClosed; exact absurd isClosed (asyncClosed phase deaf)
    case asyncMark => simp [WriterPhase.wakeEventPending]
    case woken => exact woken

theorem Safe.close {state : WakeState} (safe : state.Safe) (idle : state.writer = .idle) :
    Safe { state with core := { state.core with closed := true }, writer := .closeLock } := by
  constructor
  case lock =>
    rw [← safe.lock, idle]
    rfl
  case owner => exact safe.owner
  case count => exact safe.count
  case woken_le => exact safe.woken_le
  case woken_eq =>
    intro _
    apply safe.woken_eq
    rw [idle]
    rfl
  case each =>
    refine safe.each.imp ?_
    intro place sub _ own
    obtain ⟨lock, _, mark, _, asyncMark, woken⟩ := own
    simp only [idle, WriterPhase.wakePending, WriterPhase.wakeEventPending,
      Bool.false_eq_true, imp_false] at mark asyncMark
    constructor
    case lock => exact lock
    case closed => simp [WriterPhase.closePending]
    case mark => intro phase newer; exact absurd newer (mark phase)
    case asyncClosed => simp [WriterPhase.closeEventPending]
    case asyncMark => intro phase deaf newer; exact absurd newer (asyncMark phase deaf)
    case woken => exact woken

theorem Safe.subscribe {state : WakeState} (safe : state.Safe) (after : Nat) :
    Safe { state with
      core := { state.core with subscribers := state.core.subscribers + 1 }
      subscriptions := state.subscriptions ++ [Subscriber.new after] } := by
  have lockless : ¬ state.core.lock = some (.subscriber state.subscriptions.length) := by
    intro held
    exact Nat.lt_irrefl _ (safe.owner _ held)
  constructor
  case lock => exact safe.lock
  case owner =>
    intro holder held
    have := safe.owner holder held
    simp only [List.length_append, List.length_singleton]
    omega
  case count => simp [List.countP_append, Subscriber.live, Subscriber.new, safe.count]
  case woken_le => exact safe.woken_le
  case woken_eq => exact safe.woken_eq
  case each =>
    refine safe.each.snoc ?_ ?_
    · constructor <;> simp [Subscriber.new, Subscriber.holdsLock, lockless]
    · intro place sub _ own
      exact own.writer Iff.rfl rfl rfl id id id id

end WakeState

namespace WakeState

theorem Safe.drop {state next : WakeState} {place : Nat} (safe : state.Safe)
    (taken : state.step (.drop place) = some next) : next.Safe := by
  simp only [step, Option.bind_eq_bind, Option.bind_eq_some_iff] at taken
  obtain ⟨sub, found, taken⟩ := taken
  split at taken
  · rename_i running
    obtain rfl := Option.some.inj taken
    constructor
    case lock => exact safe.lock
    case owner => simpa only [List.length_set] using safe.owner
    case count =>
      have counted : sub.live = true := by simp [Subscriber.live, running]
      simp only [safe.count]
      exact (countP_set_pred found counted rfl).symm
    case woken_le => exact safe.woken_le
    case woken_eq => exact safe.woken_eq
    case each =>
      refine safe.each.set ?_ ?_
      · have own : sub.Safe { state.core with subscribers := state.core.subscribers - 1 }
            state.writer state.woken place :=
          (safe.each place sub found).writer Iff.rfl rfl rfl id id id id
        apply own.free
        · simp [Subscriber.holdsLock, running]
        · simp
      · intro other sub' _ _ own
        exact own.writer Iff.rfl rfl rfl id id id id
  · simp at taken

theorem Safe.step {state next : WakeState} {label : WakeStep} (safe : state.Safe)
    (taken : state.step label = some next) : next.Safe := by
  cases label with
  | publish tip =>
      simp only [WakeState.step, Option.ite_none_right_eq_some, Option.some.injEq] at taken
      obtain ⟨⟨idle, ascends⟩, rfl⟩ := taken
      exact safe.publish idle ascends
  | close =>
      simp only [WakeState.step, Option.ite_none_right_eq_some, Option.some.injEq] at taken
      obtain ⟨idle, rfl⟩ := taken
      exact safe.close idle
  | writer => exact safe.advanceWriter taken
  | subscribe after =>
      obtain rfl := Option.some.inj taken
      exact safe.subscribe after
  | subscriber place => exact safe.subscriber taken
  | drop place => exact safe.drop taken
  | read place cursor =>
      refine safe.move ?_ ?_ taken <;> intro sub moved changed <;>
        simp only [Option.ite_none_right_eq_some, Option.some.injEq] at changed <;>
        obtain ⟨running, rfl⟩ := changed
      · rfl
      · intro own
        apply own.free
        · simp [Subscriber.holdsLock, running]
        · simp [running]
  | wait place timed =>
      refine safe.move ?_ ?_ taken <;> intro sub moved changed <;>
        simp only [Option.ite_none_right_eq_some, Option.some.injEq] at changed <;>
        obtain ⟨running, rfl⟩ := changed
      · simp [Subscriber.live, running]
      · intro own
        apply own.free
        · simp [Subscriber.holdsLock, running]
        · simp
  | waitAsync place =>
      refine safe.move ?_ ?_ taken <;> intro sub moved changed <;>
        simp only [Option.ite_none_right_eq_some, Option.some.injEq] at changed <;>
        obtain ⟨running, rfl⟩ := changed
      · simp [Subscriber.live, running]
      · intro own
        apply own.free
        · simp [Subscriber.holdsLock, running]
        · simp
  | expire place =>
      refine safe.move ?_ ?_ taken <;> intro sub moved changed <;>
        simp only [Option.ite_none_right_eq_some, Option.some.injEq] at changed <;>
        obtain ⟨⟨parked, _⟩, rfl⟩ := changed
      · simp [Subscriber.live, parked]
      · intro own
        apply own.free
        · simp [Subscriber.holdsLock, parked]
        · simp
  | spurious place =>
      refine safe.move ?_ ?_ taken <;> intro sub moved changed <;>
        simp only [Option.ite_none_right_eq_some, Option.some.injEq] at changed <;>
        obtain ⟨parked, rfl⟩ := changed
      · simp [Subscriber.live, parked]
      · intro own
        apply own.free
        · simp [Subscriber.holdsLock, parked]
        · simp
  | cancel place =>
      refine safe.move ?_ ?_ taken <;> intro sub moved changed <;>
        simp only [Option.ite_none_right_eq_some, Option.some.injEq] at changed <;>
        obtain ⟨awaits, rfl⟩ := changed
      · simp [Subscriber.live, awaits]
      · intro own
        apply own.free
        · simp [Subscriber.holdsLock, awaits]
        · simp

end WakeState

namespace WakeState

/-- Parked although the wake for a later tip, or the close, has returned. -/
def Lost (state : WakeState) (sub : Subscriber) : Prop :=
  sub.Parked ∧ (sub.cursor < state.woken ∨ state.core.closed = true ∧ state.writer = .stopped)

/-- No wake-up is lost: in no reachable state is a subscriber parked below the tip
of a wake that has returned, or parked when the close has returned. -/
theorem no_wake_lost (tip : Nat) (labels : List WakeStep) (state : WakeState)
    (reached : run WakeState.step (start tip) labels = some state) :
    ∀ sub ∈ state.subscriptions, ¬ state.Lost sub := by
  have safe : state.Safe :=
    invariant_of_steps (fun _ _ _ before taken => before.step taken) (safe_start tip) reached
  intro sub member lost
  obtain ⟨place, found⟩ := List.mem_iff_getElem?.mp member
  have own := safe.each place sub found
  obtain ⟨parked | ⟨awaits, deaf⟩, missed | ⟨isClosed, stopped⟩⟩ := lost
  · have := own.woken (Or.inr (Or.inl parked))
    omega
  · have := own.closed (Or.inr (Or.inr parked)) isClosed
    simp [stopped, WriterPhase.closePending] at this
  · have := own.woken (Or.inr (Or.inr ⟨awaits, deaf⟩))
    omega
  · have := own.asyncClosed (Or.inr awaits) deaf isClosed
    simp [stopped, WriterPhase.closeEventPending] at this

/-- A subscriber parked below a new tip, with the wake on its way. -/
theorem no_wake_lost_parked :
    let state : WakeState :=
      ⟨⟨7, false, 1, none⟩, .wakeLock, [⟨5, false, false, false, .parked⟩], 5⟩
    run WakeState.step (start 5)
        [.subscribe 5, .wait 0 false, .subscriber 0, .subscriber 0, .subscriber 0,
          .subscriber 0, .publish 7, .writer] = some state ∧
      ∀ sub ∈ state.subscriptions, ¬ state.Lost sub :=
  have taken : run WakeState.step (start 5)
      [.subscribe 5, .wait 0 false, .subscriber 0, .subscriber 0, .subscriber 0,
        .subscriber 0, .publish 7, .writer] =
      some ⟨⟨7, false, 1, none⟩, .wakeLock, [⟨5, false, false, false, .parked⟩], 5⟩ := rfl
  ⟨taken, no_wake_lost 5 _ _ taken⟩

end WakeState

end Tephra.Read
