import Tephra.EgressLanes

/-!
# Control frames in front of a bulk frame

The writer writes a bounded number of control frames while a bulk frame is queued.  What may
still be written is a function of its phase: the run counts its own frames, and a frame that
ends a blocking wait comes on top of the run behind it.
-/

namespace Tephra.Server

open Histories

/-- The number of control frames that may be written from a phase in front of a queued bulk frame,
with the number of those that may end a wait. -/
def DrivePhase.allowance (waited : Nat) : DrivePhase → Nat
  | .control written _ => maxControlRun - written
  | .receiveControl written _ => max (maxControlRun - written) 1
  | .receiveBulk _ => 0
  | .askControl => maxControlRun + waited
  | .askBulk _ => maxControlRun + waited
  | .waiting _ _ => maxControlRun + waited
  | .returned => 0

namespace Egress

/-- The number of frames of a lane that were written. -/
def countOn (state : Egress) (name : LaneName) : Nat :=
  (state.writtenOn name).length

/-- A wait does not end with a control frame while a bulk frame is queued. -/
def TakesBulk (state : Egress) : EgressStep → Prop
  | .writer .control => ∀ controlLive bulkLive, state.writer = .waiting controlLive bulkLive →
      state.bulk.queue ≠ [] → state.control.queue = []
  | _ => True

@[simp]
theorem countOn_setLane (state : Egress) (name other : LaneName) (lane : Lane) :
    (state.setLane name lane).countOn other = state.countOn other := by
  simp [countOn, writtenOn]

theorem countOn_write_self (state : Egress) (name : LaneName) (frame : Nat) (rest : List Nat)
    (phase : DrivePhase) :
    (state.write name frame rest phase).countOn name = state.countOn name + 1 := by
  simp [countOn, writtenOn, Egress.write]

theorem countOn_write_of_ne (state : Egress) {name other : LaneName} (ne : name ≠ other)
    (frame : Nat) (rest : List Nat) (phase : DrivePhase) :
    (state.write name frame rest phase).countOn other = state.countOn other := by
  simp [countOn, writtenOn, Egress.write, ne]

/-- What a step does to a queued bulk frame that it does not write: it stays, and each control
frame is taken from the allowance. -/
structure Spends (waited : Nat) (state next : Egress) : Prop where
  pending : next.bulk.queue ≠ []
  spent : next.countOn .control + next.writer.allowance waited ≤
    state.countOn .control + state.writer.allowance waited

theorem countOn_le_write (state : Egress) (name other : LaneName) (frame : Nat)
    (rest : List Nat) (phase : DrivePhase) :
    state.countOn other ≤ (state.write name frame rest phase).countOn other := by
  by_cases same : name = other
  · subst same
    rw [countOn_write_self]
    exact Nat.le_succ _
  · exact Nat.le_of_eq (countOn_write_of_ne state same frame rest phase).symm

theorem receive_countOn_le {state next : Egress} {name other : LaneName}
    (taken : state.receive name = some next) : state.countOn other ≤ next.countOn other := by
  obtain ⟨frame, rest, _, rfl⟩ | rfl := receive_cases taken
  · exact countOn_le_write _ _ _ _ _ _
  · exact Nat.le_refl _

theorem drive_countOn_le {state next : Egress} {selected : LaneName}
    (taken : state.drive selected = some next) (name : LaneName) :
    state.countOn name ≤ next.countOn name := by
  have receives := fun controlLive bulkLive => @receive_of_drive state next selected
    controlLive bulkLive taken
  rw [drive] at taken
  split at taken
  · cases taken
    exact Nat.le_refl _
  · split at taken
    · cases taken
      exact countOn_le_write _ _ _ _ _ _
    · cases taken
      exact Nat.le_refl _
  · split at taken
    · cases taken
      exact countOn_le_write _ _ _ _ _ _
    · cases taken
      exact Nat.le_refl _
  · cases taken
    exact Nat.le_refl _
  · split at taken
    · cases taken
      exact Nat.le_refl _
    · cases taken
      exact Nat.le_refl _
  · rename_i controlLive bulkLive waits
    exact receive_countOn_le (receives controlLive bulkLive waits)
  · cases taken

theorem spends_phase {waited : Nat} {state : Egress} {phase : DrivePhase}
    (pending : state.bulk.queue ≠ [])
    (less : phase.allowance waited ≤ state.writer.allowance waited) :
    Spends waited state { state with writer := phase } :=
  ⟨pending, Nat.add_le_add_left less _⟩

theorem spends_write {waited : Nat} {state : Egress} {frame : Nat} {rest : List Nat}
    {written : Nat} {wrote : Bool} (pending : state.bulk.queue ≠ [])
    (less : maxControlRun - written + 1 ≤ state.writer.allowance waited) :
    Spends waited state (state.write .control frame rest (.control written wrote)) := by
  refine ⟨pending, ?_⟩
  rw [countOn_write_self]
  have after : (state.write .control frame rest (.control written wrote)).writer.allowance
      waited = maxControlRun - written := rfl
  rw [after]
  omega

theorem unwritten_bulk {state : Egress} {frame : Nat} {rest : List Nat} {phase : DrivePhase}
    (unwritten : (state.write .bulk frame rest phase).countOn .bulk = state.countOn .bulk) :
    False := by
  rw [countOn_write_self] at unwritten
  omega

theorem drive_spends {waited : Nat} {state next : Egress} {selected : LaneName}
    (pending : state.bulk.queue ≠ []) (taken : state.drive selected = some next)
    (unwritten : next.countOn .bulk = state.countOn .bulk)
    (allowed : waited = 1 ∨ state.TakesBulk (.writer selected)) : Spends waited state next := by
  have cap : maxControlRun = 64 := rfl
  have receives := fun controlLive bulkLive => @receive_of_drive state next selected
    controlLive bulkLive taken
  rw [drive] at taken
  split at taken
  case h_1 written wrote phase =>
    cases taken
    by_cases full : maxControlRun ≤ written
    · rw [if_pos ⟨full, pending⟩]
      apply spends_phase pending
      exact Nat.zero_le _
    · rw [if_neg fun both => full both.1]
      apply spends_phase pending
      rw [phase, DrivePhase.allowance, DrivePhase.allowance]
      omega
  case h_2 written wrote phase =>
    split at taken
    · cases taken
      apply spends_write pending
      rw [phase, DrivePhase.allowance]
      omega
    · cases taken
      apply spends_phase pending
      exact Nat.zero_le _
  case h_3 wrote phase =>
    split at taken
    · cases taken
      exact (unwritten_bulk unwritten).elim
    · rename_i empty
      exact absurd empty pending
  case h_4 phase =>
    cases taken
    apply spends_phase pending
    rw [phase]
    exact Nat.le_refl _
  case h_5 controlLive phase =>
    split at taken
    · cases taken
      apply spends_phase pending
      exact Nat.zero_le _
    · cases taken
      apply spends_phase pending
      rw [phase]
      exact Nat.le_refl _
  case h_6 controlLive bulkLive phase =>
    have allowance_eq : state.writer.allowance waited = maxControlRun + waited := by
      rw [phase, DrivePhase.allowance]
    obtain ⟨frame, rest, queue, rfl⟩ | rfl := receive_cases (receives _ _ phase)
    · cases selected with
      | control =>
          rcases allowed with rfl | takesBulk
          · apply spends_write pending
            rw [allowance_eq]
            exact Nat.le_refl _
          · have empty := takesBulk controlLive bulkLive phase pending
            cases empty.symm.trans queue
      | bulk => exact (unwritten_bulk unwritten).elim
    · apply spends_phase pending
      rw [allowance_eq]
      exact Nat.le_add_right _ _
  case h_7 => cases taken

theorem spends_setLane {waited : Nat} {state : Egress} {name : LaneName} {lane : Lane}
    (pending : (state.setLane name lane).bulk.queue ≠ []) :
    Spends waited state (state.setLane name lane) := by
  refine ⟨pending, Nat.le_of_eq ?_⟩
  rw [countOn_setLane, writer_setLane]

theorem step_spends {waited : Nat} {state next : Egress} {label : EgressStep}
    (pending : state.bulk.queue ≠ []) (taken : state.step label = some next)
    (unwritten : next.countOn .bulk = state.countOn .bulk)
    (allowed : waited = 1 ∨ state.TakesBulk label) : Spends waited state next := by
  cases label with
  | send name frame =>
      simp only [Egress.step, Option.map_eq_some_iff, Lane.send,
        Option.ite_none_right_eq_some, Option.some.injEq] at taken
      obtain ⟨lane, ⟨_, rfl⟩, rfl⟩ := taken
      apply spends_setLane
      cases name with
      | control => exact pending
      | bulk =>
          intro empty
          exact absurd empty (List.append_ne_nil_of_right_ne_nil _ (List.cons_ne_nil frame []))
  | clone name =>
      rw [step] at taken
      split at taken
      · cases taken
      · cases taken
        apply spends_setLane
        cases name <;> exact pending
  | drop name =>
      rw [step] at taken
      split at taken
      · cases taken
      · cases taken
        apply spends_setLane
        cases name <;> exact pending
  | writer selected => exact drive_spends pending taken unwritten allowed

theorem step_countOn_le {state next : Egress} {label : EgressStep}
    (taken : state.step label = some next) (name : LaneName) :
    state.countOn name ≤ next.countOn name := by
  cases label with
  | send other frame =>
      simp only [Egress.step, Option.map_eq_some_iff] at taken
      obtain ⟨lane, _, rfl⟩ := taken
      exact Nat.le_of_eq (countOn_setLane state other name lane).symm
  | clone other =>
      rw [step] at taken
      split at taken
      · cases taken
      · cases taken
        exact Nat.le_of_eq (countOn_setLane state other name _).symm
  | drop other =>
      rw [step] at taken
      split at taken
      · cases taken
      · cases taken
        exact Nat.le_of_eq (countOn_setLane state other name _).symm
  | writer selected => exact drive_countOn_le taken name

theorem run_countOn_le {first last : Egress} {labels : List EgressStep}
    (reached : run step first labels = some last) (name : LaneName) :
    first.countOn name ≤ last.countOn name := by
  have kept : ∀ state label next, first.countOn name ≤ state.countOn name →
      step state label = some next → first.countOn name ≤ next.countOn name := by
    intro state label next less taken
    exact Nat.le_trans less (step_countOn_le taken name)
  exact invariant_of_steps kept (Nat.le_refl _) reached

/-- A run without a bulk frame spends the allowance of its first state. -/
theorem run_spends {waited : Nat} {first last : Egress} {labels : List EgressStep}
    (pending : first.bulk.queue ≠ []) (reached : run step first labels = some last)
    (unwritten : last.countOn .bulk = first.countOn .bulk)
    (allowed : waited = 1 ∨ Allowed step TakesBulk first labels) :
    Spends waited first last := by
  induction labels generalizing first with
  | nil =>
      cases reached
      exact ⟨pending, Nat.le_refl _⟩
  | cons label labels ih =>
      simp only [run] at reached
      split at reached
      · cases reached
      rename_i next taken
      have first_le := step_countOn_le taken .bulk
      have next_le := run_countOn_le reached .bulk
      have here : next.countOn .bulk = first.countOn .bulk := by omega
      have one : Spends waited first next :=
        step_spends pending taken here (allowed.imp_right fun meets => meets.1)
      have rest : Spends waited next last :=
        ih one.pending reached (unwritten.trans here.symm)
          (allowed.imp_right fun meets => meets.2 next taken)
      exact ⟨rest.pending, Nat.le_trans rest.spent one.spent⟩

theorem allowance_le (waited : Nat) (phase : DrivePhase) :
    phase.allowance waited ≤ maxControlRun + waited := by
  cases phase with
  | control written wrote => exact Nat.le_add_right_of_le (Nat.sub_le _ _)
  | receiveControl written wrote =>
      have cap : maxControlRun = 64 := rfl
      rw [DrivePhase.allowance]
      omega
  | receiveBulk wrote => exact Nat.zero_le _
  | returned => exact Nat.zero_le _
  | _ => exact Nat.le_refl _

/-- While a bulk frame is queued and none is written, one control frame more than a full run is
written at most, and a full run where no wait ends with a control frame. -/
theorem control_run_bounded {queued last : Egress} {later : List EgressStep}
    (pending : queued.bulk.queue ≠ []) (continues : run step queued later = some last)
    (unwritten : last.writtenOn .bulk = queued.writtenOn .bulk) :
    (last.writtenOn .control).length ≤ (queued.writtenOn .control).length + maxControlRun + 1 ∧
      (Allowed step TakesBulk queued later →
        (last.writtenOn .control).length ≤
          (queued.writtenOn .control).length + maxControlRun) := by
  have same : last.countOn .bulk = queued.countOn .bulk := congrArg List.length unwritten
  constructor
  · have spends : Spends 1 queued last := run_spends pending continues same (.inl rfl)
    have spent := spends.spent
    have most := allowance_le 1 queued.writer
    simp only [countOn] at spent
    omega
  · intro meets
    have spends : Spends 0 queued last := run_spends pending continues same (.inr meets)
    have spent := spends.spent
    have most := allowance_le 0 queued.writer
    simp only [countOn] at spent
    omega

/-- A bulk frame behind a control frame, and the control frame written. -/
theorem control_run_bounded_one :
    (writtenOn ⟨⟨4, [], 1, [1]⟩, ⟨4, [2], 1, [2]⟩, .control 1 true, [(.control, 1)]⟩
      .control).length ≤ 0 + maxControlRun := by
  refine (@control_run_bounded ⟨⟨4, [1], 1, [1]⟩, ⟨4, [2], 1, [2]⟩, .control 0 false, []⟩ _
    [.writer .control, .writer .control] (List.cons_ne_nil 2 []) rfl rfl).2 ?_
  refine Allowed.cons ?_ rfl (Allowed.cons ?_ rfl trivial)
  · intro _ _ differs
    cases differs
  · intro _ _ differs
    cases differs

/-- The writer finds both lanes empty, and then a bulk frame and control frames are queued. -/
def idleThenBusy : List EgressStep :=
  List.replicate 3 (.writer .control) ++ [.send .bulk 1]

/-- Control frames for the wait and for the run behind it. -/
def controlStream : List EgressStep :=
  List.replicate (maxControlRun + 1) (.send .control 0) ++
    List.replicate (3 + 2 * maxControlRun) (.writer .control)

/-- The frame that ends the wait does not count towards the run. -/
theorem not_control_run_bounded :
    ¬ ∀ (controlDepth frameQueueDepth : Nat) (earlier later : List EgressStep)
      (queued last : Egress),
      run step (start controlDepth frameQueueDepth) earlier = some queued →
        queued.bulk.queue ≠ [] → run step queued later = some last →
        last.writtenOn .bulk = queued.writtenOn .bulk →
        (last.writtenOn .control).length ≤
          (queued.writtenOn .control).length + maxControlRun := by
  intro all
  have written : (run step ⟨Lane.new 128, ⟨1, [1], 1, [1]⟩, .askControl, []⟩ controlStream).map
      (fun last => ((last.writtenOn .control).length, last.writtenOn .bulk)) =
        some (maxControlRun + 1, []) := by
    decide +kernel
  obtain ⟨last, reached, same⟩ := Option.map_eq_some_iff.1 written
  obtain ⟨control, bulk⟩ := Prod.mk.inj same
  have few := all 128 1 idleThenBusy controlStream _ last rfl (List.cons_ne_nil 1 []) reached bulk
  rw [control] at few
  exact absurd few (by decide)

end Egress

end Tephra.Server
