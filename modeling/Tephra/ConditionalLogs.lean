import Mathlib.Tactic.Common

/-!
# Conditional logs

A log grows by attempts, one after another.  An attempt may carry a condition on the log
that it is put behind.  It is committed to the next places as a whole, or it is refused and
changes nothing.

What such a log promises follows from its answers: it consists of what was committed, and
every condition was met by what is in front of its attempt.
-/

namespace ConditionalLogs

/-- Items that are put behind a log together, on a condition. -/
structure Attempt (Item Condition : Type) where
  items : List Item
  condition : Option Condition

/-- Where a log begins, which logs meet a condition, and when an attempt may be refused. -/
structure Rules (Item Condition Refusal : Type) where
  base : Nat
  met : Condition → List Item → Prop
  refuses : Option Condition → List Item → Refusal → Prop

/-- An attempt with its answer: the first and the last place, or why it was refused. -/
abbrev Answered (Item Condition Refusal : Type) :=
  Attempt Item Condition × Except Refusal (Nat × Nat)

variable {Item Condition Refusal : Type}

/-- The items of the attempts that were committed. -/
def committed (answers : List (Answered Item Condition Refusal)) : List Item :=
  answers.flatMap fun answer =>
    match answer.2 with
    | .ok _ => answer.1.items
    | .error _ => []

namespace Rules

variable {rules : Rules Item Condition Refusal} {first last : List Item}
  {answers : List (Answered Item Condition Refusal)}

/-- The log meets the condition of an attempt, if it has one. -/
def Admits (rules : Rules Item Condition Refusal) (log : List Item)
    (attempt : Attempt Item Condition) : Prop :=
  ∀ condition, attempt.condition = some condition → rules.met condition log

/-- The first and the last place of items behind a log. -/
def places (rules : Rules Item Condition Refusal) (log items : List Item) : Nat × Nat :=
  (rules.base + log.length, rules.base + log.length + items.length - 1)

/-- The answer to an attempt, and the log behind it. -/
inductive Answers (rules : Rules Item Condition Refusal) (log : List Item) :
    Answered Item Condition Refusal → List Item → Prop
  | committed {attempt : Attempt Item Condition} (admitted : rules.Admits log attempt) :
      Answers rules log (attempt, .ok (rules.places log attempt.items)) (log ++ attempt.items)
  | refused {attempt : Attempt Item Condition} {refusal : Refusal}
      (given : rules.refuses attempt.condition log refusal) :
      Answers rules log (attempt, .error refusal) log

/-- Attempts that are answered one after another. -/
inductive Replays (rules : Rules Item Condition Refusal) :
    List Item → List (Answered Item Condition Refusal) → List Item → Prop
  | nil (log : List Item) : Replays rules log [] log
  | cons {log middle last : List Item} {answer : Answered Item Condition Refusal}
      {answers : List (Answered Item Condition Refusal)}
      (here : rules.Answers log answer middle) (later : Replays rules middle answers last) :
      Replays rules log (answer :: answers) last

namespace Replays

theorem append {middle : List Item} {more : List (Answered Item Condition Refusal)}
    (earlier : rules.Replays first answers middle) (later : rules.Replays middle more last) :
    rules.Replays first (answers ++ more) last := by
  induction earlier with
  | nil => exact later
  | cons here _ ih => exact .cons here (ih later)

theorem snoc {middle : List Item} {answer : Answered Item Condition Refusal}
    (earlier : rules.Replays first answers middle) (here : rules.Answers middle answer last) :
    rules.Replays first (answers ++ [answer]) last :=
  earlier.append (.cons here (.nil last))

theorem of_refused (given : ∀ answer ∈ answers, rules.Answers first answer first) :
    rules.Replays first answers first := by
  induction answers with
  | nil => exact .nil first
  | cons answer answers ih =>
      rw [List.forall_mem_cons] at given
      exact .cons given.1 (ih given.2)

theorem split {earlier later : List (Answered Item Condition Refusal)}
    (replays : rules.Replays first (earlier ++ later) last) :
    ∃ middle, rules.Replays first earlier middle ∧ rules.Replays middle later last := by
  induction earlier generalizing first with
  | nil => exact ⟨first, .nil first, replays⟩
  | cons answer earlier ih =>
      cases replays with
      | cons here later =>
          obtain ⟨middle, front, back⟩ := ih later
          exact ⟨middle, .cons here front, back⟩

theorem last_eq (replays : rules.Replays first answers last) :
    last = first ++ committed answers := by
  induction replays with
  | nil log => exact (List.append_nil log).symm
  | cons here _ ih =>
      cases here with
      | committed _ => rw [ih, List.append_assoc]; rfl
      | refused _ => exact ih

theorem isPrefix (replays : rules.Replays first answers last) : first <+: last :=
  ⟨committed answers, replays.last_eq.symm⟩

/-- What holds of a log and survives every attempt that was committed holds in the end. -/
theorem invariant {holds : List Item → Prop} (replays : rules.Replays first answers last)
    (start : holds first)
    (kept : ∀ log attempt range, (attempt, .ok range) ∈ answers → log ++ attempt.items <+: last →
      rules.Admits log attempt → holds log → holds (log ++ attempt.items)) : holds last := by
  induction replays with
  | nil => exact start
  | cons here later ih =>
      apply ih
      · cases here with
        | committed admitted =>
            exact kept _ _ _ List.mem_cons_self later.isPrefix admitted start
        | refused _ => exact start
      · intro log attempt range member
        exact kept log attempt range (List.mem_cons_of_mem _ member)

theorem answer_at {earlier later : List (Answered Item Condition Refusal)}
    {answer : Answered Item Condition Refusal}
    (replays : rules.Replays first (earlier ++ answer :: later) last) :
    ∃ middle, rules.Answers (first ++ committed earlier) answer middle ∧ middle <+: last := by
  obtain ⟨before, front, back⟩ := replays.split
  obtain rfl := front.last_eq
  cases back with
  | cons here behind => exact ⟨_, here, behind.isPrefix⟩

/-- An attempt that was committed has the places behind what is in front of it, which met its
condition, and its items are there. -/
theorem committed_at {earlier later : List (Answered Item Condition Refusal)}
    {attempt : Attempt Item Condition} {range : Nat × Nat}
    (replays : rules.Replays first (earlier ++ (attempt, .ok range) :: later) last) :
    rules.Admits (first ++ committed earlier) attempt ∧
      range = rules.places (first ++ committed earlier) attempt.items ∧
        first ++ committed earlier ++ attempt.items <+: last := by
  obtain ⟨middle, here, front⟩ := replays.answer_at
  cases here with
  | committed admitted => exact ⟨admitted, rfl, front⟩

end Replays

/-- A log that meets the condition reaches a place, and no item behind that passes a test. -/
def Guards (rules : Rules Item Condition Refusal) (test : Item → Bool) (condition : Condition)
    (seen : Nat) : Prop :=
  ∀ log, rules.met condition log →
    seen ≤ log.length ∧ ∀ item ∈ log.drop seen, test item = false

theorem Guards.filter_eq {test : Item → Bool} {condition : Condition} {seen : Nat}
    (guards : rules.Guards test condition seen) {log : List Item}
    (met : rules.met condition log) : log.filter test = (log.take seen).filter test := by
  obtain ⟨-, unseen⟩ := guards log met
  have nothing : (log.drop seen).filter test = [] := by
    rw [List.filter_eq_nil_iff]
    intro item member
    rw [unseen item member]
    exact Bool.false_ne_true
  conv_lhs => rw [← List.take_append_drop seen log, List.filter_append, nothing, List.append_nil]

/-- Every attempt with items of a kind was decided on the items of this kind up to some place,
and guards against further ones. -/
def Decided (rules : Rules Item Condition Refusal) (test : Item → Bool)
    (holds : List Item → Prop) (log : List Item) (attempt : Attempt Item Condition) : Prop :=
  attempt.items.filter test = [] ∨
    ∃ condition seen, attempt.condition = some condition ∧ rules.Guards test condition seen ∧
      (holds ((log.take seen).filter test) →
        holds ((log.take seen).filter test ++ attempt.items.filter test))

/-- What every decision keeps holds of the items of its kind, whatever else was committed in
between. -/
theorem Replays.decided {test : Item → Bool} {holds : List Item → Prop}
    (replays : rules.Replays first answers last) (start : holds (first.filter test))
    (decided : ∀ attempt range, (attempt, .ok range) ∈ answers →
      rules.Decided test holds last attempt) : holds (last.filter test) := by
  refine @Replays.invariant _ _ _ rules first last answers (fun log => holds (log.filter test))
    replays start ?_
  intro log attempt range member front admitted held
  rw [List.filter_append]
  rcases decided attempt range member with nothing | ⟨condition, seen, given, guards, keeps⟩
  · rwa [nothing, List.append_nil]
  · have met := admitted condition given
    obtain ⟨rest, rfl⟩ := front
    have view : (log ++ attempt.items ++ rest).take seen = log.take seen := by
      rw [List.append_assoc, List.take_append_of_le_length (guards log met).1]
    rw [view, ← guards.filter_eq met] at keeps
    exact keeps held

/-- If every attempt with items of a kind asks for a log without them, all of these come from
one attempt. -/
theorem Replays.single {test : Item → Bool} (replays : rules.Replays first answers last)
    (start : first.filter test = [])
    (guarded : ∀ attempt range, (attempt, .ok range) ∈ answers →
      attempt.items.filter test = [] ∨
        ∃ condition, attempt.condition = some condition ∧ rules.Guards test condition 0) :
    last.filter test = [] ∨ ∃ attempt range, (attempt, .ok range) ∈ answers ∧
      last.filter test = attempt.items.filter test := by
  refine @Replays.invariant _ _ _ rules first last answers (fun log => log.filter test = [] ∨
    ∃ attempt range, (attempt, .ok range) ∈ answers ∧
      log.filter test = attempt.items.filter test) replays (.inl start) ?_
  intro log attempt range member _ admitted held
  rw [List.filter_append]
  rcases guarded attempt range member with nothing | ⟨condition, given, guards⟩
  · rwa [nothing, List.append_nil]
  · right
    refine ⟨attempt, range, member, ?_⟩
    have alone := guards.filter_eq (admitted condition given)
    rw [alone, List.take_zero]
    rfl

end Rules

end ConditionalLogs
