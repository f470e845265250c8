import Tephra.Histories

/-!
# The egress lanes of a connection

Producers send response frames on a control lane and on a bulk lane.  The writer
takes them in passes, control first, and asks in between whether the lanes are
disconnected: a lane is from the drop of its last sender on, whether or not
frames are still queued.
-/

namespace Tephra.Server

open Histories

/-- `MAX_CONTROL_RUN`. -/
def maxControlRun : Nat := 64

inductive LaneName
  | control
  | bulk
deriving DecidableEq, Repr

/-- A bounded channel of frames.  `sent` are all frames sent on it. -/
structure Lane where
  capacity : Nat
  queue : List Nat
  senders : Nat
  sent : List Nat
deriving DecidableEq, Repr

namespace Lane

def new (capacity : Nat) : Lane :=
  ⟨capacity, [], 1, []⟩

/-- Sends a frame when there is room and a sender is left. -/
def send (lane : Lane) (frame : Nat) : Option Lane :=
  if lane.senders ≠ 0 ∧ lane.queue.length < lane.capacity then
    some { lane with queue := lane.queue ++ [frame], sent := lane.sent ++ [frame] }
  else none

/-- `is_disconnected`: the last sender is dropped. -/
def isDisconnected (lane : Lane) : Bool :=
  lane.senders == 0

end Lane

/-- The next step of `drive_writer`. -/
inductive DrivePhase
  /-- The control run, with the frames written in it, before the check of its cap. -/
  | control (written : Nat) (wrote : Bool)
  /-- The control run, before `try_recv`. -/
  | receiveControl (written : Nat) (wrote : Bool)
  /-- The one bulk frame of the pass. -/
  | receiveBulk (wrote : Bool)
  /-- Both lanes were found empty; before the question to the control lane. -/
  | askControl
  /-- Before the question to the bulk lane. -/
  | askBulk (controlLive : Bool)
  /-- Blocked on the lanes found live. -/
  | waiting (controlLive bulkLive : Bool)
  /-- `drive_writer` has returned `Ok`. -/
  | returned
deriving DecidableEq, Repr

/-- The lanes, the writer, and what it has written. -/
structure Egress where
  control : Lane
  bulk : Lane
  writer : DrivePhase
  written : List (LaneName × Nat)
deriving DecidableEq, Repr

inductive EgressStep
  | send (name : LaneName) (frame : Nat)
  /-- A sender of a lane is cloned or dropped. -/
  | clone (name : LaneName)
  | drop (name : LaneName)
  /-- The next step of the writer, which waits on one lane or selects one. -/
  | writer (selected : LaneName)
deriving DecidableEq, Repr

namespace Egress

def start (controlDepth frameQueueDepth : Nat) : Egress :=
  ⟨Lane.new controlDepth, Lane.new frameQueueDepth, .control 0 false, []⟩

def lane (state : Egress) : LaneName → Lane
  | .control => state.control
  | .bulk => state.bulk

def setLane (state : Egress) (name : LaneName) (lane : Lane) : Egress :=
  match name with
  | .control => { state with control := lane }
  | .bulk => { state with bulk := lane }

/-- A frame of a lane is taken and written. -/
def write (state : Egress) (name : LaneName) (frame : Nat) (rest : List Nat)
    (phase : DrivePhase) : Egress :=
  { state.setLane name { state.lane name with queue := rest } with
    writer := phase, written := state.written ++ [(name, frame)] }

/-- The end of a wait on a lane: a frame, or the lane's disconnection. -/
def receive (state : Egress) (name : LaneName) : Option Egress :=
  match (state.lane name).queue with
  | frame :: rest => some (state.write name frame rest (.control 0 false))
  | [] =>
      if (state.lane name).isDisconnected then some { state with writer := .control 0 false }
      else none

/-- The next step of `drive_writer`. -/
def drive (state : Egress) (selected : LaneName) : Option Egress :=
  match state.writer with
  | .control written wrote =>
      some { state with writer :=
        if maxControlRun ≤ written ∧ state.bulk.queue ≠ [] then .receiveBulk wrote
        else .receiveControl written wrote }
  | .receiveControl written wrote =>
      match state.control.queue with
      | frame :: rest => some (state.write .control frame rest (.control (written + 1) true))
      | [] => some { state with writer := .receiveBulk wrote }
  | .receiveBulk wrote =>
      match state.bulk.queue with
      | frame :: rest => some (state.write .bulk frame rest (.control 0 false))
      | [] => some { state with writer := if wrote then .control 0 false else .askControl }
  | .askControl => some { state with writer := .askBulk (!state.control.isDisconnected) }
  | .askBulk controlLive =>
      if controlLive = false ∧ state.bulk.isDisconnected = true then
        some { state with writer := .returned }
      else some { state with writer := .waiting controlLive (!state.bulk.isDisconnected) }
  | .waiting controlLive bulkLive =>
      match selected with
      | .control => if controlLive then state.receive .control else none
      | .bulk => if bulkLive then state.receive .bulk else none
  | .returned => none

/-- The step of a label, if it is enabled. -/
def step (state : Egress) : EgressStep → Option Egress
  | .send name frame => ((state.lane name).send frame).map (state.setLane name)
  | .clone name =>
      if (state.lane name).senders = 0 then none
      else some (state.setLane name
        { state.lane name with senders := (state.lane name).senders + 1 })
  | .drop name =>
      if (state.lane name).senders = 0 then none
      else some (state.setLane name
        { state.lane name with senders := (state.lane name).senders - 1 })
  | .writer selected => state.drive selected

/-- The frames of a lane that were written, in the order of the writes. -/
def writtenOn (state : Egress) (name : LaneName) : List Nat :=
  (state.written.filter fun entry => entry.1 = name).map Prod.snd

/-- When the writer finds that both lanes are disconnected, nothing was sent on them
behind its last look at their queues. -/
def AsksDrained (state : Egress) : EgressStep → Prop
  | .writer _ =>
      state.writer = .askBulk false → state.bulk.isDisconnected = true →
        state.control.queue = [] ∧ state.bulk.queue = []
  | _ => True

/-- Each lane's frames are written in order up to its queue, and a writer that has
returned has left nothing on lanes nobody sends on any more. -/
structure InOrder (state : Egress) : Prop where
  lanes : ∀ name, state.writtenOn name ++ (state.lane name).queue = (state.lane name).sent
  asked : state.writer = .askBulk false → state.control.senders = 0
  drained : state.writer = .returned → ∀ name,
    (state.lane name).senders = 0 ∧ (state.lane name).queue = []

theorem inOrder_start (controlDepth frameQueueDepth : Nat) :
    (start controlDepth frameQueueDepth).InOrder := by
  constructor
  case lanes => intro name; cases name <;> rfl
  all_goals simp [start]

@[simp]
theorem lane_setLane_self (state : Egress) (name : LaneName) (lane : Lane) :
    (state.setLane name lane).lane name = lane := by
  cases name <;> rfl

theorem lane_setLane_of_ne (state : Egress) {name other : LaneName} (lane : Lane)
    (ne : other ≠ name) : (state.setLane name lane).lane other = state.lane other := by
  cases name <;> cases other <;> simp_all [setLane, Egress.lane]

@[simp]
theorem writer_setLane (state : Egress) (name : LaneName) (lane : Lane) :
    (state.setLane name lane).writer = state.writer := by
  cases name <;> rfl

@[simp]
theorem written_setLane (state : Egress) (name : LaneName) (lane : Lane) :
    (state.setLane name lane).written = state.written := by
  cases name <;> rfl

/-- A wait ends with the next frame of its lane, or with the lane's disconnection. -/
theorem receive_cases {state next : Egress} {name : LaneName}
    (taken : state.receive name = some next) :
    (∃ frame rest, (state.lane name).queue = frame :: rest ∧
        next = state.write name frame rest (.control 0 false)) ∨
      next = { state with writer := .control 0 false } := by
  rw [receive] at taken
  split at taken
  · rename_i frame rest queue
    exact Or.inl ⟨frame, rest, queue, (Option.some.inj taken).symm⟩
  · rw [Option.ite_none_right_eq_some] at taken
    exact Or.inr (Option.some.inj taken.2).symm

/-- A writer that waits receives from the lane it has selected. -/
theorem receive_of_drive {state next : Egress} {selected : LaneName}
    {controlLive bulkLive : Bool} (taken : state.drive selected = some next)
    (waits : state.writer = .waiting controlLive bulkLive) :
    state.receive selected = some next := by
  simp only [drive, waits] at taken
  cases selected with
  | control => exact (Option.ite_none_right_eq_some.mp taken).2
  | bulk => exact (Option.ite_none_right_eq_some.mp taken).2

theorem InOrder.setWriter {state : Egress} (inOrder : state.InOrder) {phase : DrivePhase}
    (asked : phase = .askBulk false → state.control.senders = 0)
    (drained : phase = .returned → ∀ name,
      (state.lane name).senders = 0 ∧ (state.lane name).queue = []) :
    InOrder { state with writer := phase } := by
  constructor
  case lanes => exact inOrder.lanes
  case asked => exact asked
  case drained => exact drained

/-- A frame taken from the front of a lane is the next one of its order. -/
theorem InOrder.write {state : Egress} (inOrder : state.InOrder) {name : LaneName}
    {frame : Nat} {rest : List Nat} {phase : DrivePhase}
    (queue : (state.lane name).queue = frame :: rest)
    (inPass : phase ≠ .askBulk false ∧ phase ≠ .returned) :
    (state.write name frame rest phase).InOrder := by
  constructor
  case lanes =>
    intro other
    have before := inOrder.lanes other
    by_cases same : other = name
    · subst same
      have lane : (state.write other frame rest phase).lane other =
          { state.lane other with queue := rest } := lane_setLane_self _ _ _
      have written : (state.write other frame rest phase).writtenOn other =
          state.writtenOn other ++ [frame] := by
        simp [writtenOn, Egress.write]
      rw [lane, written, ← before, queue, List.append_assoc]
      rfl
    · have lane : (state.write name frame rest phase).lane other = state.lane other :=
        lane_setLane_of_ne _ _ same
      have written : (state.write name frame rest phase).writtenOn other =
          state.writtenOn other := by
        simp [writtenOn, Egress.write, Ne.symm same]
      rw [lane, written, before]
  case asked => intro here; exact absurd here inPass.1
  case drained => intro here; exact absurd here inPass.2

theorem InOrder.receive {state next : Egress} {name : LaneName} (inOrder : state.InOrder)
    (taken : state.receive name = some next) : next.InOrder := by
  obtain ⟨frame, rest, queue, rfl⟩ | rfl := receive_cases taken
  · exact inOrder.write queue (by simp)
  · exact inOrder.setWriter (by simp) (by simp)

theorem InOrder.drive {state next : Egress} {selected : LaneName} (inOrder : state.InOrder)
    (allowed : state.AsksDrained (.writer selected))
    (taken : state.drive selected = some next) : next.InOrder := by
  have receives := fun controlLive bulkLive => @receive_of_drive state next selected
    controlLive bulkLive taken
  simp only [Egress.drive] at taken
  split at taken
  · rename_i written wrote control
    obtain rfl := Option.some.inj taken
    apply inOrder.setWriter <;> split <;> simp
  · split at taken
    · rename_i frame rest queue
      obtain rfl := Option.some.inj taken
      exact @InOrder.write state inOrder .control _ _ _ queue (by simp)
    · obtain rfl := Option.some.inj taken
      exact inOrder.setWriter (by simp) (by simp)
  · rename_i wrote _
    split at taken
    · rename_i frame rest queue
      obtain rfl := Option.some.inj taken
      exact @InOrder.write state inOrder .bulk _ _ _ queue (by simp)
    · obtain rfl := Option.some.inj taken
      apply inOrder.setWriter <;> split <;> simp
  · obtain rfl := Option.some.inj taken
    apply inOrder.setWriter
    · simp [Lane.isDisconnected]
    · simp
  · rename_i controlLive asks
    split at taken
    · rename_i both
      obtain ⟨rfl, bulkGone⟩ := both
      obtain rfl := Option.some.inj taken
      obtain ⟨controlEmpty, bulkEmpty⟩ := allowed asks bulkGone
      apply inOrder.setWriter
      · simp
      · intro _ name
        cases name with
        | control => exact ⟨inOrder.asked asks, controlEmpty⟩
        | bulk =>
            have gone : state.bulk.senders = 0 := by simpa [Lane.isDisconnected] using bulkGone
            exact ⟨gone, bulkEmpty⟩
    · obtain rfl := Option.some.inj taken
      exact inOrder.setWriter (by simp) (by simp)
  · rename_i controlLive bulkLive waits
    exact inOrder.receive (receives controlLive bulkLive waits)
  · simp at taken

/-- A producer that sends a frame, or changes the number of senders of a lane that
still has one. -/
theorem InOrder.produce {state : Egress} {name : LaneName} {lane : Lane}
    (inOrder : state.InOrder) (live : (state.lane name).senders ≠ 0)
    (order : state.writtenOn name ++ lane.queue = lane.sent) :
    (state.setLane name lane).InOrder := by
  constructor
  case lanes =>
    intro other
    have written : (state.setLane name lane).writtenOn other = state.writtenOn other := by
      simp [writtenOn]
    rw [written]
    by_cases same : other = name
    · subst same
      rw [lane_setLane_self]
      exact order
    · rw [lane_setLane_of_ne _ _ same]
      exact inOrder.lanes other
  case asked =>
    intro asks
    rw [writer_setLane] at asks
    have gone := inOrder.asked asks
    cases name with
    | control => exact absurd gone live
    | bulk => exact gone
  case drained =>
    intro returned
    rw [writer_setLane] at returned
    exact absurd (inOrder.drained returned name).1 live

theorem InOrder.step {state next : Egress} {label : EgressStep} (inOrder : state.InOrder)
    (allowed : state.AsksDrained label) (taken : state.step label = some next) :
    next.InOrder := by
  cases label with
  | send name frame =>
      simp only [Egress.step, Option.map_eq_some_iff, Lane.send,
        Option.ite_none_right_eq_some, Option.some.injEq] at taken
      obtain ⟨lane, ⟨⟨live, _⟩, rfl⟩, rfl⟩ := taken
      apply inOrder.produce live
      rw [← List.append_assoc, inOrder.lanes name]
  | clone name =>
      simp only [Egress.step] at taken
      split at taken
      · simp at taken
      · rename_i live
        obtain rfl := Option.some.inj taken
        exact inOrder.produce live (inOrder.lanes name)
  | drop name =>
      simp only [Egress.step] at taken
      split at taken
      · simp at taken
      · rename_i live
        obtain rfl := Option.some.inj taken
        exact inOrder.produce live (inOrder.lanes name)
  | writer selected => exact inOrder.drive allowed taken

end Egress

/-- The lanes, and how many frames had been sent on each when the writer last found it empty. -/
structure Watched where
  egress : Egress
  control : Nat
  bulk : Nat

namespace Watched

def start (controlDepth frameQueueDepth : Nat) : Watched :=
  ⟨Egress.start controlDepth frameQueueDepth, 0, 0⟩

/-- What the writer finds out about a lane with its next step. -/
def look (self : Watched) : Watched :=
  match self.egress.writer with
  | .receiveControl _ _ =>
      if self.egress.control.queue = [] then
        { self with control := self.egress.control.sent.length }
      else self
  | .receiveBulk _ =>
      if self.egress.bulk.queue = [] then { self with bulk := self.egress.bulk.sent.length }
      else self
  | _ => self

def step (self : Watched) (label : EgressStep) : Option Watched :=
  (self.egress.step label).map fun next =>
    match label with
    | .writer _ => { self.look with egress := next }
    | .send _ _ | .clone _ | .drop _ => { self with egress := next }

/-- The frames in a lane were sent behind the look at it. -/
def Behind (lane : Lane) (look : Nat) : Prop :=
  look ≤ lane.sent.length ∧ lane.queue = lane.sent.drop look

theorem Behind.of_empty {lane : Lane} (empty : lane.queue = []) :
    Behind lane lane.sent.length :=
  ⟨Nat.le_refl _, by rw [empty, List.drop_length]⟩

theorem Behind.empty_iff {lane : Lane} {look : Nat} (behind : Behind lane look) :
    lane.queue = [] ↔ lane.sent.length = look := by
  obtain ⟨short, queue⟩ := behind
  rw [queue, List.drop_eq_nil_iff]
  omega

theorem Behind.send {lane : Lane} {look : Nat} (behind : Behind lane look) (frame : Nat) :
    Behind { lane with queue := lane.queue ++ [frame], sent := lane.sent ++ [frame] } look := by
  obtain ⟨short, queue⟩ := behind
  constructor
  · rw [List.length_append]
    omega
  · rw [queue, List.drop_append_of_le_length short]

/-- A pass that has written nothing knows of the lanes that it has looked at. -/
structure Knows (watched : Watched) : Prop where
  unwritten : ∀ written, watched.egress.writer = .control written false ∨
    watched.egress.writer = .receiveControl written false → written = 0
  control : watched.egress.writer = .receiveBulk false ∨ watched.egress.writer = .askControl ∨
    (∃ live, watched.egress.writer = .askBulk live) →
      Behind watched.egress.control watched.control
  bulk : watched.egress.writer = .askControl ∨ (∃ live, watched.egress.writer = .askBulk live) →
    Behind watched.egress.bulk watched.bulk

theorem knows_start (controlDepth frameQueueDepth : Nat) :
    (start controlDepth frameQueueDepth).Knows := by
  constructor <;> simp [start, Egress.start]

theorem Knows.of_fresh {self : Watched} (fresh : self.egress.writer = .control 0 false ∨
    (∃ written, self.egress.writer = .control written true) ∨
    (∃ written, self.egress.writer = .receiveControl written true) ∨
    self.egress.writer = .receiveBulk true ∨ self.egress.writer = .returned ∨
    ∃ controlLive bulkLive, self.egress.writer = .waiting controlLive bulkLive) : self.Knows := by
  obtain here | ⟨_, here⟩ | ⟨_, here⟩ | here | here | ⟨_, _, here⟩ := fresh
  all_goals constructor <;> simp [here]

theorem Knows.produce {self : Watched} {name : LaneName} {lane : Lane} (knows : self.Knows)
    (kept : ∀ look, Behind (self.egress.lane name) look → Behind lane look) :
    Knows { self with egress := self.egress.setLane name lane } := by
  obtain ⟨unwritten, control, bulk⟩ := knows
  cases name with
  | control => exact ⟨unwritten, fun here => kept _ (control here), bulk⟩
  | bulk => exact ⟨unwritten, control, fun here => kept _ (bulk here)⟩

theorem Knows.drive {self : Watched} {selected : LaneName} {next : Egress} (knows : self.Knows)
    (taken : self.egress.drive selected = some next) :
    Knows { self.look with egress := next } := by
  have receives := fun controlLive bulkLive => @Egress.receive_of_drive self.egress next selected
    controlLive bulkLive taken
  obtain ⟨unwritten, control, bulk⟩ := knows
  rw [Egress.drive] at taken
  split at taken
  · next written wrote here =>
    cases taken
    cases wrote with
    | true =>
        apply Knows.of_fresh
        dsimp only
        split <;> simp
    | false =>
        obtain rfl := unwritten written (.inl here)
        constructor <;> simp [maxControlRun]
  · next written wrote here =>
    split at taken
    · next frame rest queue =>
      cases taken
      exact .of_fresh (.inr (.inl ⟨_, rfl⟩))
    · next queue =>
      cases taken
      have look : self.look = { self with control := self.egress.control.sent.length } := by
        rw [Watched.look, here]
        exact if_pos queue
      rw [look]
      constructor
      · simp
      · exact fun _ => .of_empty queue
      · simp
  · next wrote here =>
    split at taken
    · cases taken
      exact .of_fresh (.inl rfl)
    · next queue =>
      cases taken
      have look : self.look = { self with bulk := self.egress.bulk.sent.length } := by
        rw [Watched.look, here]
        exact if_pos queue
      rw [look]
      cases wrote with
      | true => exact .of_fresh (.inl rfl)
      | false =>
          constructor
          · simp
          · exact fun _ => control (.inl here)
          · exact fun _ => .of_empty queue
  · next here =>
    cases taken
    rw [Watched.look, here]
    exact ⟨by simp, fun _ => control (.inr (.inl here)), fun _ => bulk (.inl here)⟩
  · next controlLive here =>
    split at taken <;> cases taken
    · exact .of_fresh (by simp)
    · exact .of_fresh (by simp)
  · next controlLive bulkLive here =>
    obtain ⟨frame, rest, -, rfl⟩ | rfl :=
      Egress.receive_cases (receives controlLive bulkLive here)
    · exact .of_fresh (.inl rfl)
    · exact .of_fresh (.inl rfl)
  · cases taken

theorem knows_step (self : Watched) (label : EgressStep) (next : Watched) (knows : self.Knows)
    (taken : self.step label = some next) : next.Knows := by
  obtain ⟨egress, stepped, rfl⟩ := Option.map_eq_some_iff.mp taken
  cases label with
  | send name frame =>
      simp only [Egress.step, Option.map_eq_some_iff, Lane.send,
        Option.ite_none_right_eq_some, Option.some.injEq] at stepped
      obtain ⟨lane, ⟨-, rfl⟩, rfl⟩ := stepped
      exact knows.produce fun look behind => behind.send frame
  | clone name =>
      rw [Egress.step] at stepped
      split at stepped <;> cases stepped
      exact knows.produce fun _ => id
  | drop name =>
      rw [Egress.step] at stepped
      split at stepped <;> cases stepped
      exact knows.produce fun _ => id
  | writer selected => exact knows.drive stepped

/-- The writer asks drained lanes exactly if nothing was sent on a lane behind its look at it. -/
theorem asksDrained_iff {controlDepth frameQueueDepth : Nat} {labels : List EgressStep}
    {watched : Watched}
    (reached : run step (start controlDepth frameQueueDepth) labels = some watched)
    (selected : LaneName) :
    watched.egress.AsksDrained (.writer selected) ↔
      (watched.egress.writer = .askBulk false → watched.egress.bulk.isDisconnected = true →
        watched.egress.control.sent.length = watched.control ∧
          watched.egress.bulk.sent.length = watched.bulk) := by
  have knows := invariant_of_steps knows_step (knows_start controlDepth frameQueueDepth) reached
  rw [Egress.AsksDrained]
  refine forall_congr' fun asks => forall_congr' fun _ => and_congr ?_ ?_
  · exact (knows.control (.inr (.inr ⟨_, asks⟩))).empty_iff
  · exact (knows.bulk (.inr ⟨_, asks⟩)).empty_iff

end Watched

namespace Egress

/-- No frame is lost or reordered by a writer that asks drained lanes only: in every
state the frames written on a lane are the first ones sent on it, in order, and when
`drive_writer` has returned they are all of them. -/
theorem every_frame_written (controlDepth frameQueueDepth : Nat) (labels : List EgressStep)
    (state : Egress)
    (meets : Allowed step AsksDrained (start controlDepth frameQueueDepth) labels)
    (reached : run step (start controlDepth frameQueueDepth) labels = some state)
    (name : LaneName) :
    state.writtenOn name ++ (state.lane name).queue = (state.lane name).sent ∧
      (state.writer = .returned → state.writtenOn name = (state.lane name).sent) := by
  have inOrder : state.InOrder :=
    invariant_of_run (fun _ _ _ before allowed taken => before.step allowed taken)
      (inOrder_start controlDepth frameQueueDepth) meets reached
  refine ⟨inOrder.lanes name, ?_⟩
  intro returned
  simpa [(inOrder.drained returned name).2] using inOrder.lanes name

/-- One frame on each lane, and both lanes dropped behind them. -/
theorem every_frame_written_both :
    writtenOn ⟨⟨4, [], 0, [1]⟩, ⟨4, [], 0, [2]⟩, .returned, [(.control, 1), (.bulk, 2)]⟩ .bulk =
      [2] := by
  refine (every_frame_written 4 4 [.send .control 1, .send .bulk 2, .drop .control, .drop .bulk,
    .writer .control, .writer .control, .writer .control, .writer .control, .writer .control,
    .writer .control, .writer .control, .writer .control, .writer .control, .writer .control]
    _ ?_ rfl .bulk).2 rfl
  have before {state : Egress} (other : state.writer ≠ .askBulk false) :
      state.AsksDrained (.writer .control) := fun asks => absurd asks other
  exact Allowed.cons trivial rfl (Allowed.cons trivial rfl (Allowed.cons trivial rfl
    (Allowed.cons trivial rfl (Allowed.cons (before (by decide)) rfl
      (Allowed.cons (before (by decide)) rfl (Allowed.cons (before (by decide)) rfl
        (Allowed.cons (before (by decide)) rfl (Allowed.cons (before (by decide)) rfl
          (Allowed.cons (before (by decide)) rfl (Allowed.cons (before (by decide)) rfl
            (Allowed.cons (before (by decide)) rfl (Allowed.cons (before (by decide)) rfl
              (Allowed.cons (fun _ _ => ⟨rfl, rfl⟩) rfl trivial)))))))))))))

/-- A frame sent behind the writer's look at the control lane, and the last senders
dropped before its questions. -/
theorem last_frame_lost :
    ∃ labels state, run step (start 4 4) labels = some state ∧ state.writer = .returned ∧
      state.writtenOn .control ≠ (state.lane .control).sent := by
  refine ⟨[.writer .control, .writer .control, .send .control 7, .drop .control, .drop .bulk,
    .writer .control, .writer .control, .writer .control],
    ⟨⟨4, [7], 0, [7]⟩, ⟨4, [], 0, []⟩, .returned, []⟩, rfl, rfl, by decide⟩

end Egress

end Tephra.Server
