import Tephra.Histories
import Tephra.Semaphore

/-!
# The append budget of a connection

The reader takes a permit for each append, the coordinator replies, and the pump
forwards the reply and gives the permit back.  The coordinator is taken to answer
every submission it accepted.  The pump stops at the first send that finds the writer
gone.  The reader looks at the connection's liveness at every poll that does not
complete a frame, and the length prefix of a frame that is not empty is such a poll.
-/

namespace Tephra.Server

open Histories

/-- A frame of the client: without a body, with an append, or with another request. -/
inductive Frame
  | empty
  | append
  | other
deriving DecidableEq, Repr

/-- The next step of the reader thread. -/
inductive ReaderPhase
  /-- At a frame boundary. -/
  | boundary
  /-- Inside a frame, with the connection found alive since its boundary. -/
  | inside
  /-- In `append_inflight.acquire`. -/
  | acquiring
  /-- With a permit, before `append_submit`. -/
  | submitting
  /-- Out of the request loop, in the teardown. -/
  | done
deriving DecidableEq, Repr

/-- The next step of the pump thread. -/
inductive PumpPhase
  | receiving
  /-- With a reply, in the send on the control lane. -/
  | sending
  /-- After the send, before the release. -/
  | releasing (sent : Bool)
  /-- After a failed send and its release. -/
  | leaving
  | exited
deriving DecidableEq, Repr

/-- The permits the pump is to give back. -/
def PumpPhase.held : PumpPhase → Nat
  | .sending | .releasing _ => 1
  | _ => 0

/-- The permit the reader is to hand to the coordinator with its append. -/
def ReaderPhase.held : ReaderPhase → Nat
  | .submitting => 1
  | _ => 0

/-- The next step of the writer thread. -/
inductive ConnWriterPhase
  | running
  /-- `drive_writer` has returned. -/
  | stopped
  /-- The connection is marked dead. -/
  | marked
  /-- The socket is shut down. -/
  | shut
  /-- The receivers of the lanes are dropped. -/
  | ended
deriving DecidableEq, Repr

/-- A connection as far as its append budget goes. -/
structure AppendState where
  appendInflight : Semaphore
  alive : Bool
  input : List Frame
  reader : ReaderPhase
  /-- The appends with the coordinator. -/
  submitted : Nat
  /-- The replies in the reply channel. -/
  replies : Nat
  pump : PumpPhase
  writer : ConnWriterPhase
deriving DecidableEq, Repr

inductive AppendStep
  /-- A frame of the client arrives. -/
  | arrive (frame : Frame)
  /-- A poll that reads a part of the next frame. -/
  | progress
  /-- A poll that finds nothing to read. -/
  | wouldBlock
  /-- A poll that completes a frame; an append may fail its conversion. -/
  | frame (valid : Bool)
  /-- The end of the input, an error, a timeout or the server's shutdown. -/
  | stop
  | acquire
  /-- `append_submit`, which fails when the coordinator is gone. -/
  | submit (accepted : Bool)
  /-- The coordinator replies to an append. -/
  | reply
  | receive
  /-- The reply channel is empty and all its senders are dropped. -/
  | close
  | send
  | release
  | leave
  | writer
deriving DecidableEq, Repr

namespace AppendState

def start (budget : Nat) : AppendState :=
  ⟨Semaphore.new budget, true, [], .boundary, 0, 0, .receiving, .running⟩

/-- The liveness check of the request loop. -/
def checkAlive (state : AppendState) (stays : ReaderPhase) : AppendState :=
  { state with reader := if state.alive then stays else .done }

/-- The dispatch of a complete frame. -/
def dispatch (state : AppendState) (frame : Frame) (valid : Bool) : AppendState :=
  match frame, valid with
  | .append, true => { state with reader := .acquiring }
  | _, _ => { state with reader := .boundary }

/-- The step of a label, if it is enabled. -/
def step (state : AppendState) : AppendStep → Option AppendState
  | .arrive frame =>
      if state.writer = .running ∨ state.writer = .stopped ∨ state.writer = .marked then
        some { state with input := state.input ++ [frame] }
      else none
  | .progress =>
      match state.reader, state.input with
      | .boundary, frame :: _ =>
          -- the prefix of an empty frame completes it
          if frame = .empty then none else some (state.checkAlive .inside)
      | .inside, _ => some (state.checkAlive .inside)
      | _, _ => none
  | .wouldBlock =>
      match state.reader with
      | .boundary => some (state.checkAlive .boundary)
      | .inside => some (state.checkAlive .inside)
      | _ => none
  | .frame valid =>
      match state.reader, state.input with
      | .boundary, .empty :: rest => some ({ state with input := rest }.dispatch .empty valid)
      | .inside, frame :: rest => some ({ state with input := rest }.dispatch frame valid)
      | _, _ => none
  | .stop =>
      if state.reader = .boundary ∨ state.reader = .inside then
        some { state with reader := .done }
      else none
  | .acquire =>
      if state.reader = .acquiring then
        state.appendInflight.tryAcquire.map fun permit =>
          { state with appendInflight := permit, reader := .submitting }
      else none
  | .submit accepted =>
      if state.reader = .submitting then
        if accepted then
          some { state with submitted := state.submitted + 1, reader := .boundary }
        else
          some { state with appendInflight := state.appendInflight.release
                            reader := .boundary }
      else none
  | .reply =>
      if state.submitted = 0 then none
      else
        -- the coordinator ignores a reply channel whose receiver is gone
        some { state with submitted := state.submitted - 1
                          replies := if state.pump = .exited then state.replies
                            else state.replies + 1 }
  | .receive =>
      if state.pump = .receiving ∧ state.replies ≠ 0 then
        some { state with replies := state.replies - 1, pump := .sending }
      else none
  | .close =>
      if state.pump = .receiving ∧ state.replies = 0 ∧ state.submitted = 0 ∧
          state.reader = .done then
        some { state with pump := .exited }
      else none
  | .send =>
      if state.pump = .sending then
        some { state with pump := .releasing (state.writer != .ended) }
      else none
  | .release =>
      match state.pump with
      | .releasing sent =>
          some { state with appendInflight := state.appendInflight.release
                            pump := if sent then .receiving else .leaving }
      | _ => none
  | .leave =>
      if state.pump = .leaving then some { state with pump := .exited } else none
  | .writer =>
      match state.writer with
      | .running => some { state with writer := .stopped }
      | .stopped => some { state with alive := false, writer := .marked }
      | .marked => some { state with writer := .shut }
      | .shut => some { state with writer := .ended }
      | .ended => none

theorem step_progress {state next : AppendState} (taken : state.step .progress = some next) :
    (state.reader = .boundary ∨ state.reader = .inside) ∧ next = state.checkAlive .inside := by
  simp only [step] at taken
  split at taken
  · rename_i boundary _
    split at taken
    · simp at taken
    · exact ⟨Or.inl boundary, (Option.some.inj taken).symm⟩
  · rename_i inside
    exact ⟨Or.inr inside, (Option.some.inj taken).symm⟩
  · simp at taken

theorem step_wouldBlock {state next : AppendState}
    (taken : state.step .wouldBlock = some next) :
    (state.reader = .boundary ∨ state.reader = .inside) ∧
      next = state.checkAlive state.reader := by
  simp only [step] at taken
  split at taken
  · rename_i boundary
    rw [boundary]
    exact ⟨Or.inl rfl, (Option.some.inj taken).symm⟩
  · rename_i inside
    rw [inside]
    exact ⟨Or.inr rfl, (Option.some.inj taken).symm⟩
  · simp at taken

/-- The frame that is complete is the one the reader is in, or an empty one. -/
theorem step_frame {state next : AppendState} {valid : Bool}
    (taken : state.step (.frame valid) = some next) :
    ∃ frame rest, state.input = frame :: rest ∧
      (state.reader = .inside ∨ state.reader = .boundary ∧ frame = .empty) ∧
      next = { state with input := rest }.dispatch frame valid := by
  simp only [step] at taken
  split at taken
  · rename_i rest boundary input
    exact ⟨.empty, rest, input, Or.inr ⟨boundary, rfl⟩, (Option.some.inj taken).symm⟩
  · rename_i frame rest inside input
    exact ⟨frame, rest, input, Or.inl inside, (Option.some.inj taken).symm⟩
  · simp at taken

/-- The reader waits for a permit that is not there. -/
def Blocked (state : AppendState) : Prop :=
  state.reader = .acquiring ∧ state.appendInflight.permits = 0

/-- The invariant of the budget: while the pump goes on every permit is free or on
its way to the pump, and the pump stops only on a dead connection, on which the
reader takes at most the permit of the frame it is in. -/
structure Sound (state : AppendState) : Prop where
  capacity : 1 ≤ state.appendInflight.capacity
  permits : state.pump ≠ .leaving → state.pump ≠ .exited →
    state.appendInflight.permits + state.submitted + state.replies + state.pump.held +
      state.reader.held = state.appendInflight.capacity
  dead : state.writer = .marked ∨ state.writer = .shut ∨ state.writer = .ended →
    state.alive = false
  failed : state.pump = .releasing false ∨ state.pump = .leaving → state.writer = .ended
  stopped : state.pump = .leaving ∨ state.pump = .exited → state.reader ≠ .done →
    state.alive = false ∧
      (state.reader = .inside ∨ state.reader = .acquiring → 1 ≤ state.appendInflight.permits)

theorem sound_start (budget : Nat) : (start budget).Sound := by
  constructor
  case capacity => exact Semaphore.one_le_capacity_new budget
  case permits => intro _ _; rfl
  all_goals simp [start]

theorem Sound.writer {state next : AppendState} (sound : state.Sound)
    (taken : state.step .writer = some next) : next.Sound := by
  obtain ⟨capacity, permits, dead, failed, stopped⟩ := sound
  cases phase : state.writer <;> simp only [step, phase] at taken
  case ended => simp at taken
  all_goals
    obtain rfl := Option.some.inj taken
    simp only [phase] at dead failed
    constructor
    case capacity => exact capacity
    case permits => exact permits
    case dead => simp_all
    case failed => simp_all
    case stopped => simp_all

/-- The reader moves on without a permit in its hands: into a frame only on a live
connection, and into an acquire only from inside a frame. -/
theorem Sound.setReader {state : AppendState} (sound : state.Sound) {phase : ReaderPhase}
    (free : state.reader.held = 0) (stillFree : phase.held = 0)
    (notDone : state.reader ≠ .done)
    (takes : phase = .inside ∨ phase = .acquiring →
      state.alive = true ∨ state.reader = .inside) :
    Sound { state with reader := phase } := by
  constructor
  case capacity => exact sound.capacity
  case permits =>
    intro on going
    have before := sound.permits on going
    rw [free] at before
    simpa only [stillFree] using before
  case dead => exact sound.dead
  case failed => exact sound.failed
  case stopped =>
    intro off _
    obtain ⟨dead, enough⟩ := sound.stopped off notDone
    constructor
    · exact dead
    · intro next
      rcases takes next with live | inside
      · simp [dead] at live
      · exact enough (Or.inl inside)

theorem Sound.checkAlive {state : AppendState} (sound : state.Sound) {stays : ReaderPhase}
    (polls : state.reader = .boundary ∨ state.reader = .inside)
    (stay : stays = .boundary ∨ stays = .inside) : (state.checkAlive stays).Sound := by
  apply sound.setReader
  · rcases polls with here | here <;> rw [here] <;> rfl
  · rcases stay with here | here <;> rw [here] <;> split <;> rfl
  · rcases polls with here | here <;> simp [here]
  · cases live : state.alive <;> simp

theorem Sound.dispatch {state : AppendState} (sound : state.Sound) {frame : Frame}
    {valid : Bool}
    (reader : state.reader = .inside ∨ state.reader = .boundary ∧ frame ≠ .append) :
    (state.dispatch frame valid).Sound := by
  have free : state.reader.held = 0 := by
    rcases reader with here | ⟨here, _⟩ <;> rw [here] <;> rfl
  have notDone : state.reader ≠ .done := by
    rcases reader with here | ⟨here, _⟩ <;> simp [here]
  unfold AppendState.dispatch
  split
  · apply sound.setReader free rfl notDone
    intro _
    right
    simpa using reader
  · apply sound.setReader free rfl notDone
    simp

theorem Sound.acquire {state next : AppendState} (sound : state.Sound)
    (taken : state.step .acquire = some next) : next.Sound := by
  obtain ⟨capacity, permits, dead, failed, stopped⟩ := sound
  simp only [step, Option.ite_none_right_eq_some, Option.map_eq_some_iff] at taken
  obtain ⟨acquiring, permit, acquired, rfl⟩ := taken
  obtain ⟨sameCapacity, fewer⟩ := Semaphore.tryAcquire_eq_some acquired
  constructor
  case capacity => simpa [sameCapacity] using capacity
  case permits =>
    intro on going
    have before := permits on going
    simp only [acquiring, ReaderPhase.held] at before
    simp only [sameCapacity, ReaderPhase.held]
    omega
  case dead => exact dead
  case failed => exact failed
  case stopped =>
    intro off _
    exact ⟨(stopped off (by simp [acquiring])).1, by simp⟩

theorem Sound.submit {state next : AppendState} {accepted : Bool} (sound : state.Sound)
    (taken : state.step (.submit accepted) = some next) : next.Sound := by
  obtain ⟨capacity, permits, dead, failed, stopped⟩ := sound
  simp only [step, Option.ite_none_right_eq_some] at taken
  obtain ⟨submitting, taken⟩ := taken
  simp only [submitting, ReaderPhase.held] at permits
  have dies := fun off => (stopped off (by simp [submitting])).1
  cases accepted <;> simp only [if_true, Bool.false_eq_true, if_false] at taken <;>
    obtain rfl := Option.some.inj taken <;> constructor
  case false.permits =>
    intro on going
    have before := permits on going
    simp only [Semaphore.permits_release, Semaphore.capacity_release, ReaderPhase.held]
    omega
  case true.permits =>
    intro on going
    have before := permits on going
    simp only [ReaderPhase.held]
    omega
  case false.stopped => intro off _; exact ⟨dies off, by simp⟩
  case true.stopped => intro off _; exact ⟨dies off, by simp⟩
  all_goals assumption

theorem Sound.reply {state next : AppendState} (sound : state.Sound)
    (taken : state.step .reply = some next) : next.Sound := by
  obtain ⟨capacity, permits, dead, failed, stopped⟩ := sound
  simp only [step] at taken
  split at taken
  · simp at taken
  · obtain rfl := Option.some.inj taken
    constructor
    case permits =>
      intro on going
      have before := permits on going
      simp only at going
      simp only [going, if_false]
      omega
    all_goals assumption

/-- The pump takes a reply, sends it, releases its permit, and stops. -/
theorem Sound.pump {state next : AppendState} {label : AppendStep} (sound : state.Sound)
    (moves : label = .receive ∨ label = .close ∨ label = .send ∨ label = .release ∨
      label = .leave)
    (taken : state.step label = some next) : next.Sound := by
  obtain ⟨capacity, permits, dead, failed, stopped⟩ := sound
  rcases moves with rfl | rfl | rfl | rfl | rfl <;> simp only [step] at taken
  · simp only [Option.ite_none_right_eq_some, Option.some.injEq] at taken
    obtain ⟨⟨receiving, some⟩, rfl⟩ := taken
    constructor
    case permits =>
      intro _ _
      have before := permits (by simp [receiving]) (by simp [receiving])
      simp only [receiving, PumpPhase.held] at before
      simp only [PumpPhase.held]
      omega
    all_goals simp_all
  · simp only [Option.ite_none_right_eq_some, Option.some.injEq] at taken
    obtain ⟨⟨receiving, none, all, done⟩, rfl⟩ := taken
    constructor <;> simp_all
  · simp only [Option.ite_none_right_eq_some, Option.some.injEq] at taken
    obtain ⟨sending, rfl⟩ := taken
    constructor
    case permits =>
      intro _ _
      simpa [sending, PumpPhase.held] using permits (by simp [sending]) (by simp [sending])
    all_goals simp_all
  · split at taken
    · rename_i sent phase
      obtain rfl := Option.some.inj taken
      have before := permits (by simp [phase]) (by simp [phase])
      simp only [phase, PumpPhase.held] at before
      cases sent with
      | true =>
          constructor
          case permits =>
            intro _ _
            simp only [if_true, PumpPhase.held, Semaphore.permits_release,
              Semaphore.capacity_release]
            omega
          all_goals simp_all
      | false =>
          have ended : state.writer = .ended := failed (Or.inl phase)
          constructor <;> simp_all
    · simp at taken
  · simp only [Option.ite_none_right_eq_some, Option.some.injEq] at taken
    obtain ⟨leaving, rfl⟩ := taken
    constructor <;> simp_all

theorem Sound.step {state next : AppendState} {label : AppendStep} (sound : state.Sound)
    (taken : state.step label = some next) : next.Sound := by
  cases label with
  | arrive frame =>
      simp only [AppendState.step, Option.ite_none_right_eq_some, Option.some.injEq] at taken
      obtain ⟨_, rfl⟩ := taken
      exact ⟨sound.capacity, sound.permits, sound.dead, sound.failed, sound.stopped⟩
  | progress =>
      obtain ⟨polls, rfl⟩ := step_progress taken
      exact sound.checkAlive polls (Or.inr rfl)
  | wouldBlock =>
      obtain ⟨polls, rfl⟩ := step_wouldBlock taken
      exact sound.checkAlive polls polls
  | frame valid =>
      obtain ⟨frame, rest, _, reads, rfl⟩ := step_frame taken
      have shorter : Sound { state with input := rest } :=
        ⟨sound.capacity, sound.permits, sound.dead, sound.failed, sound.stopped⟩
      apply shorter.dispatch
      apply reads.imp_right
      rintro ⟨boundary, rfl⟩
      exact ⟨boundary, by simp⟩
  | stop =>
      simp only [AppendState.step, Option.ite_none_right_eq_some, Option.some.injEq] at taken
      obtain ⟨polls, rfl⟩ := taken
      apply sound.setReader
      · rcases polls with here | here <;> rw [here] <;> rfl
      · rfl
      · rcases polls with here | here <;> simp [here]
      · simp
  | acquire => exact sound.acquire taken
  | submit accepted => exact sound.submit taken
  | reply => exact sound.reply taken
  | receive => exact sound.pump (by simp) taken
  | close => exact sound.pump (by simp) taken
  | send => exact sound.pump (by simp) taken
  | release => exact sound.pump (by simp) taken
  | leave => exact sound.pump (by simp) taken
  | writer => exact sound.writer taken

/-- A blocked reader has a pump that goes on, and an append on its way to it. -/
theorem Sound.blocked {state : AppendState} (sound : state.Sound) (blocked : state.Blocked) :
    state.pump ≠ .leaving ∧ state.pump ≠ .exited ∧
      1 ≤ state.submitted + state.replies + state.pump.held := by
  obtain ⟨acquiring, none⟩ := blocked
  have onGoing : state.pump ≠ .leaving ∧ state.pump ≠ .exited := by
    by_contra off
    have stopped : state.pump = .leaving ∨ state.pump = .exited := by
      by_contra on
      push Not at on
      exact off on
    have := (sound.stopped stopped (by simp [acquiring])).2 (Or.inr acquiring)
    omega
  have accounted := sound.permits onGoing.1 onGoing.2
  have capacity := sound.capacity
  simp only [acquiring, ReaderPhase.held, none] at accounted
  refine ⟨onGoing.1, onGoing.2, ?_⟩
  omega

/-- A bound on the steps of a connection whose writer has ended. -/
def remaining (state : AppendState) : Nat :=
  8 * state.input.length + 4 * state.submitted + 3 * state.replies +
    (match state.reader with
      | .done => 0
      | .boundary => 1
      | .submitting => 6
      | .acquiring => 7
      | .inside => 8) +
    (match state.pump with
      | .exited => 0
      | .receiving | .leaving => 1
      | .releasing _ => 2
      | .sending => 3)

/-- The connection reaches its teardown whatever steps are taken: there are only so
many, and they do not run out before the reader has left its loop. -/
def ReachesTeardown (state : AppendState) : Prop :=
  ∃ bound, ∀ labels later, run step state labels = some later →
    labels.length ≤ bound ∧
      (later.reader ≠ .done → ∃ label next, later.step label = some next)

theorem Sound.step_lt {state next : AppendState} {label : AppendStep} (sound : state.Sound)
    (ended : state.writer = .ended) (taken : state.step label = some next) :
    next.writer = .ended ∧ next.remaining < state.remaining := by
  have dead : state.alive = false := sound.dead (by simp [ended])
  cases label with
  | arrive frame => simp [AppendState.step, ended] at taken
  | writer => simp [AppendState.step, ended] at taken
  | progress =>
      obtain ⟨here | here, rfl⟩ := step_progress taken <;>
        simp [remaining, AppendState.checkAlive, dead, here, ended]
  | wouldBlock =>
      obtain ⟨here | here, rfl⟩ := step_wouldBlock taken <;>
        simp [remaining, AppendState.checkAlive, dead, here, ended]
  | frame valid =>
      obtain ⟨frame, rest, input, inside | ⟨boundary, rfl⟩, rfl⟩ := step_frame taken
      · cases frame <;> cases valid <;>
          simp [remaining, AppendState.dispatch, inside, input, ended] <;> omega
      · simp [remaining, AppendState.dispatch, boundary, input, ended]
  | stop =>
      simp only [AppendState.step, Option.ite_none_right_eq_some, Option.some.injEq] at taken
      obtain ⟨polls, rfl⟩ := taken
      rcases polls with here | here <;> simp [remaining, here, ended]
  | acquire =>
      simp only [AppendState.step, Option.ite_none_right_eq_some,
        Option.map_eq_some_iff] at taken
      obtain ⟨acquiring, permit, _, rfl⟩ := taken
      simp [remaining, acquiring, ended]
  | submit accepted =>
      simp only [AppendState.step, Option.ite_none_right_eq_some] at taken
      obtain ⟨submitting, taken⟩ := taken
      cases accepted <;> simp only [if_true, Bool.false_eq_true, if_false] at taken <;>
        obtain rfl := Option.some.inj taken <;> simp [remaining, submitting, ended]
      omega
  | reply =>
      simp only [AppendState.step] at taken
      split at taken
      · simp at taken
      · obtain rfl := Option.some.inj taken
        simp only [remaining, ended, true_and]
        split <;> omega
  | receive =>
      simp only [AppendState.step, Option.ite_none_right_eq_some, Option.some.injEq] at taken
      obtain ⟨⟨receiving, some⟩, rfl⟩ := taken
      simp only [remaining, receiving, ended, true_and]
      omega
  | close =>
      simp only [AppendState.step, Option.ite_none_right_eq_some, Option.some.injEq] at taken
      obtain ⟨⟨receiving, _⟩, rfl⟩ := taken
      simp [remaining, receiving, ended]
  | send =>
      simp only [AppendState.step, Option.ite_none_right_eq_some, Option.some.injEq] at taken
      obtain ⟨sending, rfl⟩ := taken
      simp [remaining, sending, ended]
  | release =>
      simp only [AppendState.step] at taken
      split at taken
      · rename_i sent phase
        obtain rfl := Option.some.inj taken
        cases sent <;> simp [remaining, phase, ended]
      · simp at taken
  | leave =>
      simp only [AppendState.step, Option.ite_none_right_eq_some, Option.some.injEq] at taken
      obtain ⟨leaving, rfl⟩ := taken
      simp [remaining, leaving, ended]

theorem Sound.goes_on {state : AppendState} (sound : state.Sound)
    (notDone : state.reader ≠ .done) : ∃ label next, state.step label = some next := by
  cases reader : state.reader with
  | done => exact absurd reader notDone
  | boundary => exact ⟨.wouldBlock, _, by simp only [AppendState.step, reader]; rfl⟩
  | inside => exact ⟨.wouldBlock, _, by simp only [AppendState.step, reader]; rfl⟩
  | submitting =>
      exact ⟨.submit true, _, by simp only [AppendState.step, reader, if_true]; rfl⟩
  | acquiring =>
      by_cases none : state.appendInflight.permits = 0
      · obtain ⟨going, on, someWhere⟩ := sound.blocked ⟨reader, none⟩
        cases pump : state.pump with
        | exited => exact absurd pump on
        | leaving => exact absurd pump going
        | sending => exact ⟨.send, _, by simp only [AppendState.step, pump, if_true]; rfl⟩
        | releasing sent => exact ⟨.release, _, by simp only [AppendState.step, pump]; rfl⟩
        | receiving =>
            by_cases replied : state.replies = 0
            · have withCoordinator : state.submitted ≠ 0 := by
                simp only [pump, PumpPhase.held] at someWhere
                omega
              exact ⟨.reply, _, by simp only [AppendState.step, withCoordinator, if_false]; rfl⟩
            · exact ⟨.receive, _, by simp only [AppendState.step]; exact if_pos ⟨pump, replied⟩⟩
      · refine ⟨.acquire,
          { state with
            appendInflight :=
              { state.appendInflight with permits := state.appendInflight.permits - 1 }
            reader := .submitting }, ?_⟩
        simp only [AppendState.step, reader, if_true, Semaphore.tryAcquire, none, if_false]
        rfl

theorem Sound.reachesTeardown {state : AppendState} (sound : state.Sound)
    (ended : state.writer = .ended) : state.ReachesTeardown := by
  refine ⟨state.remaining, ?_⟩
  intro labels
  induction labels generalizing state with
  | nil =>
      intro later reached
      obtain rfl : state = later := by simpa [run] using reached
      exact ⟨Nat.zero_le _, sound.goes_on⟩
  | cons label labels ih =>
      intro later reached
      cases taken : state.step label with
      | none => simp [run, taken] at reached
      | some next =>
          simp only [run, taken] at reached
          obtain ⟨stillEnded, less⟩ := sound.step_lt ended taken
          obtain ⟨bounded, goesOn⟩ := ih (sound.step taken) stillEnded later reached
          constructor
          · simp only [List.length_cons]
            omega
          · exact goesOn

/-- The append budget cannot deadlock the reader: while the reader waits for a permit
the pump goes on and an append is on its way to it, and a connection whose writer
has ended reaches its teardown. -/
theorem reader_never_stranded (budget : Nat) (labels : List AppendStep) (state : AppendState)
    (reached : run step (start budget) labels = some state) :
    (state.Blocked → state.pump ≠ .leaving ∧ state.pump ≠ .exited ∧
      1 ≤ state.submitted + state.replies + state.pump.held) ∧
    (state.writer = .ended → state.ReachesTeardown) := by
  have sound : state.Sound :=
    invariant_of_steps (fun _ _ _ before taken => before.step taken) (sound_start budget) reached
  constructor
  · exact sound.blocked
  · exact sound.reachesTeardown

/-- A budget of one: the reader waits with its second append while the writer has
ended and the pump has the first reply in its hands. -/
theorem reader_never_stranded_waiting :
    let state : AppendState :=
      ⟨⟨0, 1⟩, false, [.append], .acquiring, 0, 0, .sending, .ended⟩
    state.pump ≠ .exited ∧ state.ReachesTeardown := by
  have both := reader_never_stranded 1
    [.arrive .append, .arrive .append, .arrive .append, .progress, .frame true, .acquire,
      .submit true, .progress, .frame true, .reply, .receive, .writer, .writer, .writer,
      .writer] ⟨⟨0, 1⟩, false, [.append], .acquiring, 0, 0, .sending, .ended⟩ rfl
  exact ⟨(both.1 ⟨rfl, rfl⟩).2.1, both.2 rfl⟩

end AppendState

end Tephra.Server
