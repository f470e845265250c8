import Mathlib.Tactic.Common

/-!
# Histories of a system

A system takes labelled steps, some of which are not enabled in some states.
An invariant that every allowed step keeps holds after every history of allowed
steps.
-/

namespace Histories

variable {State Step : Type}

/-- The state after a history of steps, if every step was enabled. -/
def run (step : State → Step → Option State) : State → List Step → Option State
  | state, [] => some state
  | state, label :: labels =>
      match step state label with
      | none => none
      | some next => run step next labels

/-- Every step of a history is allowed in the state it is taken from. -/
def Allowed (step : State → Step → Option State) (allowed : State → Step → Prop) :
    State → List Step → Prop
  | _, [] => True
  | state, label :: labels =>
      allowed state label ∧
        ∀ next, step state label = some next → Allowed step allowed next labels

theorem Allowed.cons {step : State → Step → Option State} {allowed : State → Step → Prop}
    {state next : State} {label : Step} {labels : List Step} (here : allowed state label)
    (taken : step state label = some next) (later : Allowed step allowed next labels) :
    Allowed step allowed state (label :: labels) := by
  constructor
  · exact here
  · intro other otherTaken
    obtain rfl : next = other := by simpa [taken] using otherTaken
    exact later

instance decidableAllowed (step : State → Step → Option State) (allowed : State → Step → Prop)
    [decideStep : ∀ state label, Decidable (allowed state label)] :
    (state : State) → (labels : List Step) → Decidable (Allowed step allowed state labels)
  | _, [] => inferInstanceAs (Decidable True)
  | state, label :: labels =>
      match decideStep state label, taken : step state label with
      | isFalse refused, _ => isFalse fun meets => refused meets.1
      | isTrue here, none => isTrue ⟨here, fun next other => by simp [taken] at other⟩
      | isTrue here, some next =>
          match decidableAllowed step allowed next labels with
          | isTrue later => isTrue (Allowed.cons here taken later)
          | isFalse refused => isFalse fun meets => refused (meets.2 next taken)

theorem Allowed.imp {step : State → Step → Option State} {allowed also : State → Step → Prop}
    {first : State} {labels : List Step}
    (weaker : ∀ state label, allowed state label → also state label)
    (meets : Allowed step allowed first labels) : Allowed step also first labels := by
  induction labels generalizing first with
  | nil => trivial
  | cons label labels ih =>
      obtain ⟨here, later⟩ := meets
      exact ⟨weaker first label here, fun next taken => ih (later next taken)⟩

theorem run_cons {step : State → Step → Option State} {state next last : State} {label : Step}
    {labels : List Step} (taken : step state label = some next)
    (reached : run step next labels = some last) :
    run step state (label :: labels) = some last := by
  rw [run, taken]
  exact reached

theorem run_append {step : State → Step → Option State} {first last : State}
    {earlier later : List Step} (reached : run step first (earlier ++ later) = some last) :
    ∃ middle, run step first earlier = some middle ∧ run step middle later = some last := by
  induction earlier generalizing first with
  | nil => exact ⟨first, rfl, reached⟩
  | cons label earlier ih =>
      cases taken : step first label with
      | none => simp [run, taken] at reached
      | some next =>
          simp only [List.cons_append, run, taken] at reached ⊢
          exact ih reached

theorem run_append_eq {step : State → Step → Option State} {first middle : State}
    {earlier later : List Step} (reached : run step first earlier = some middle) :
    run step first (earlier ++ later) = run step middle later := by
  induction earlier generalizing first with
  | nil =>
      obtain rfl : first = middle := by simpa [run] using reached
      rfl
  | cons label earlier ih =>
      cases taken : step first label with
      | none => simp [run, taken] at reached
      | some next =>
          simp only [run, taken] at reached
          rw [List.cons_append, run, taken]
          exact ih reached

theorem Allowed.of_append {step : State → Step → Option State}
    {allowed : State → Step → Prop} {first middle : State} {earlier later : List Step}
    (meets : Allowed step allowed first (earlier ++ later))
    (reached : run step first earlier = some middle) :
    Allowed step allowed first earlier ∧ Allowed step allowed middle later := by
  induction earlier generalizing first with
  | nil =>
      obtain rfl : first = middle := by simpa [run] using reached
      exact ⟨trivial, meets⟩
  | cons label earlier ih =>
      obtain ⟨here, rest⟩ := meets
      cases taken : step first label with
      | none => simp [run, taken] at reached
      | some next =>
          simp only [run, taken] at reached
          obtain ⟨front, back⟩ := ih (rest next taken) reached
          exact ⟨Allowed.cons here taken front, back⟩

theorem Allowed.append {step : State → Step → Option State} {allowed : State → Step → Prop}
    {first middle : State} {earlier later : List Step} (front : Allowed step allowed first earlier)
    (reached : run step first earlier = some middle) (back : Allowed step allowed middle later) :
    Allowed step allowed first (earlier ++ later) := by
  induction earlier generalizing first with
  | nil =>
      obtain rfl : first = middle := by simpa [run] using reached
      exact back
  | cons label earlier ih =>
      obtain ⟨here, rest⟩ := front
      cases taken : step first label with
      | none => simp [run, taken] at reached
      | some next =>
          simp only [run, taken] at reached
          exact Allowed.cons here taken (ih (rest next taken) reached)

theorem Allowed.both {step : State → Step → Option State} {allowed also : State → Step → Prop}
    {first : State} {labels : List Step} (left : Allowed step allowed first labels)
    (right : Allowed step also first labels) :
    Allowed step (fun state label => allowed state label ∧ also state label) first labels := by
  induction labels generalizing first with
  | nil => trivial
  | cons label labels ih =>
      exact ⟨⟨left.1, right.1⟩, fun next taken => ih (left.2 next taken) (right.2 next taken)⟩

theorem allowed_of_forall {step : State → Step → Option State} {allowed : State → Step → Prop}
    {labels : List Step} (always : ∀ label ∈ labels, ∀ state, allowed state label)
    (first : State) : Allowed step allowed first labels := by
  induction labels generalizing first with
  | nil => trivial
  | cons label labels ih =>
      constructor
      · exact always label (by simp) first
      · intro next _
        exact ih (fun later mem => always later (by simp [mem])) next

/-- A history is allowed if all that is asked of it is asked of a part of the system, and the
part's history is allowed. -/
theorem allowed_of_part {Part PartStep : Type} {step : State → Step → Option State}
    {allowed : State → Step → Prop} {partStep : Part → PartStep → Option Part}
    {partAllowed : Part → PartStep → Prop} (part : State → Part)
    (partLabel : Step → Option PartStep)
    (idle : ∀ state label next, step state label = some next → partLabel label = none →
      part next = part state)
    (moves : ∀ state label next here, step state label = some next →
      partLabel label = some here → partStep (part state) here = some (part next))
    (asked : ∀ state label, (∀ here, partLabel label = some here →
      partAllowed (part state) here) → allowed state label)
    {labels : List Step} {first : State}
    (meets : Allowed partStep partAllowed (part first) (labels.filterMap partLabel)) :
    Allowed step allowed first labels := by
  induction labels generalizing first with
  | nil => trivial
  | cons label labels ih =>
      cases same : partLabel label with
      | none =>
          rw [List.filterMap_cons_none same] at meets
          refine ⟨asked first label (by simp [same]), fun next taken => ih ?_⟩
          rwa [idle first label next taken same]
      | some here =>
          rw [List.filterMap_cons_some same] at meets
          refine ⟨asked first label ?_, fun next taken => ih ?_⟩
          · intro other given
            obtain rfl := Option.some.inj (same.symm.trans given)
            exact meets.1
          · exact meets.2 _ (moves first label next here taken same)

/-- What every allowed step keeps holds at the end of an allowed history. -/
theorem invariant_of_run {step : State → Step → Option State}
    {allowed : State → Step → Prop} {invariant : State → Prop}
    (kept : ∀ state label next, invariant state → allowed state label →
      step state label = some next → invariant next)
    {labels : List Step} {first last : State} (start : invariant first)
    (meets : Allowed step allowed first labels) (reached : run step first labels = some last) :
    invariant last := by
  induction labels generalizing first with
  | nil =>
      obtain rfl : first = last := by simpa [run] using reached
      exact start
  | cons label labels ih =>
      obtain ⟨here, later⟩ := meets
      cases taken : step first label with
      | none => simp [run, taken] at reached
      | some next =>
          simp only [run, taken] at reached
          exact ih (kept first label next start here taken) (later next taken) reached

/-- What every step keeps holds at the end of every history. -/
theorem invariant_of_steps {step : State → Step → Option State} {invariant : State → Prop}
    (kept : ∀ state label next, invariant state → step state label = some next →
      invariant next)
    {labels : List Step} {first last : State} (start : invariant first)
    (reached : run step first labels = some last) : invariant last := by
  induction labels generalizing first with
  | nil =>
      obtain rfl : first = last := by simpa [run] using reached
      exact start
  | cons label labels ih =>
      cases taken : step first label with
      | none => simp [run, taken] at reached
      | some next =>
          simp only [run, taken] at reached
          exact ih (kept first label next start taken) reached

end Histories
