import Tephra.ClientRequests

/-!
# The request budget of an async client

A permit is taken before a request is registered, and the registered entry holds it
from then on.  A caller may drop its future wherever it awaits.
-/

namespace Tephra.Client

open Histories Parties

/-- The caller has a permit that is in no entry yet. -/
def Request.holding (request : Request) : Bool :=
  decide (request.phase = .permitted)

/-- The call has not come to its end, and its future has not been dropped. -/
def Request.running (request : Request) : Bool :=
  match request.phase with
  | .queued => true
  | .permitted => true
  | .sending => true
  | .waiting => !request.stream
  | .returned => false
  | .abandoned => false

/-- A connection with the ids of the requests that have been queued to the writer. -/
structure Budget where
  conn : Conn
  queued : List Nat
deriving DecidableEq, Repr

inductive BudgetStep
  | conn (label : ConnStep)
  /-- A future inside `out_tx.send` is dropped, whether or not the send could go on. -/
  | dropSend (id : Nat)
deriving DecidableEq, Repr

namespace Budget

def spawn (requestQueueDepth maxInflightRequests : Nat) : Budget :=
  ⟨Conn.spawn requestQueueDepth maxInflightRequests, []⟩

/-- A message is queued by a send that finds the writer task there. -/
def noteQueued (budget : Budget) : ConnStep → List Nat
  | .send id => if budget.conn.writer = .ended then budget.queued else id :: budget.queued
  | _ => budget.queued

def step (budget : Budget) : BudgetStep → Option Budget
  | .conn label => (budget.conn.step label).map fun conn => ⟨conn, budget.noteQueued label⟩
  | .dropSend id => do
      let request ← budget.conn.requests[id]?
      if request.phase = .sending then
        some { budget with conn := budget.conn.put id { request with phase := .abandoned } }
      else none

/-- The permits add up, and every registered request has been queued or belongs to a
call that is still running. -/
structure Conserved (capacity : Nat) (budget : Budget) : Prop where
  permits : budget.conn.inflight + budget.conn.requests.countP Request.holding +
    budget.conn.requests.countP Request.registered = capacity
  owned : ∀ id request, budget.conn.requests[id]? = some request → request.registered = true →
    id ∈ budget.queued ∨ request.running = true

/-- No future is dropped inside its send while its request is registered. -/
def FinishesSends (budget : Budget) : BudgetStep → Prop
  | .conn (.abandon id _) =>
      ∀ request, budget.conn.requests[id]? = some request → request.phase = .sending →
        request.registered = false
  | .dropSend id =>
      ∀ request, budget.conn.requests[id]? = some request → request.registered = false
  | _ => True

instance (budget : Budget) (label : BudgetStep) : Decidable (budget.FinishesSends label) :=
  match label with
  | .conn (.abandon id _) =>
      inferInstanceAs (Decidable (∀ request ∈ budget.conn.requests[id]?,
        request.phase = .sending → request.registered = false))
  | .dropSend id =>
      inferInstanceAs (Decidable (∀ request ∈ budget.conn.requests[id]?,
        request.registered = false))
  | .conn (.call _) | .conn (.acquire _) | .conn (.register _) | .conn (.send _)
  | .conn (.write _) | .conn (.flush _) | .conn (.respond _ _) | .conn .readerStops
  | .conn .failAll => inferInstanceAs (Decidable True)

end Budget

namespace Conn

/-- The free permits and those that are held. -/
def permits (conn : Conn) : Nat :=
  conn.inflight + conn.requests.countP Request.holding +
    conn.requests.countP Request.registered

/-- A request before its registration has no entry. -/
def Early (conn : Conn) : Prop :=
  Each (fun _ request => request.phase = .queued ∨ request.phase = .permitted →
    request.registered = false) conn.requests

theorem permits_move {conn next : Conn} {id : Nat} {former moved : Request}
    (found : conn.requests[id]? = some former)
    (requests : next.requests = conn.requests.set id moved)
    (balance : next.inflight + moved.holding.toNat + moved.registered.toNat =
      conn.inflight + former.holding.toNat + former.registered.toNat) :
    next.permits = conn.permits := by
  have holding := @countP_set_add Request Request.holding conn.requests id former moved found
  have registered :=
    @countP_set_add Request Request.registered conn.requests id former moved found
  rw [permits, permits, requests]
  omega

theorem early_move {conn next : Conn} {id : Nat} {moved : Request} (early : conn.Early)
    (requests : next.requests = conn.requests.set id moved)
    (own : moved.phase = .queued ∨ moved.phase = .permitted → moved.registered = false) :
    next.Early := by
  rw [Early, requests]
  exact early.set own fun _ _ _ _ there => there

/-- Draining the registry frees the permits of its entries. -/
theorem permits_failAll (conn : Conn) : conn.failAll.permits = conn.permits := by
  have holding : (conn.failAll.requests).countP Request.holding =
      conn.requests.countP Request.holding := by
    rw [failAll, List.countP_map]
    apply List.countP_congr
    intro request _
    simp only [Function.comp_apply]
    split <;> rfl
  have registered : (conn.failAll.requests).countP Request.registered = 0 := by
    rw [failAll, List.countP_map, List.countP_eq_zero]
    intro request _
    simp only [Function.comp_apply]
    split
    · simp [Request.finish]
    · assumption
  rw [permits, permits, holding, registered]
  simp only [failAll]
  omega

theorem send_permits {conn next : Conn} {id : Nat} (early : conn.Early)
    (taken : conn.step (.send id) = some next) :
    next.Early ∧ next.permits = conn.permits := by
  obtain ⟨request, found, sending, ⟨_, rfl⟩ | ⟨_, rfl⟩⟩ := step_send taken
  · constructor
    · exact early_move early rfl (by simp)
    · apply permits_move found rfl
      simp [Request.holding, Request.finish, sending]
  · constructor
    · exact early_move early rfl (by simp)
    · apply permits_move found rfl
      simp [Request.holding, sending, put]

theorem abandon_permits {conn next : Conn} {id : Nat} {unfinished : Bool}
    (early : conn.Early) (taken : conn.step (.abandon id unfinished) = some next) :
    next.Early ∧ next.permits = conn.permits := by
  obtain ⟨request, found, ⟨leaves, rfl⟩ | ⟨waiting, _, _, rfl⟩⟩ := step_abandon taken
  · have unpermitted : request.phase ≠ .permitted := by
      rcases leaves with queued | ⟨sending, _⟩ | ⟨waiting, _⟩
      · simp [queued]
      · simp [sending]
      · simp [waiting]
    constructor
    · exact early_move early rfl (by simp)
    · apply permits_move found rfl
      simp [Request.holding, unpermitted, put]
  · constructor
    · exact early_move early rfl (by simp)
    · apply permits_move found rfl
      simp [Request.holding, waiting]

theorem respond_permits {conn next : Conn} {id : Nat} {continues : Bool} (early : conn.Early)
    (taken : conn.step (.respond id continues) = some next) :
    next.Early ∧ next.permits = conn.permits := by
  obtain ⟨_, rfl | ⟨request, found, registered, rfl⟩⟩ := step_respond taken
  · exact ⟨early, rfl⟩
  · constructor
    · apply early_move early rfl
      intro _
      rfl
    · apply permits_move found rfl
      have holds : request.finish.holding = request.holding := rfl
      have gone : request.finish.registered = false := rfl
      rw [holds, gone, registered, Bool.toNat_true, Bool.toNat_false]
      simp only
      omega

theorem step_permits {conn next : Conn} {label : ConnStep} (early : conn.Early)
    (taken : conn.step label = some next) : next.Early ∧ next.permits = conn.permits := by
  cases label with
  | call stream =>
      obtain rfl := Option.some.inj taken
      constructor
      · refine early.snoc ?_ ?_
        · intro _
          rfl
        · intro _ _ _ there
          exact there
      · simp [permits, Request.new, Request.holding]
  | acquire id =>
      obtain ⟨request, found, queued, free, rfl⟩ := step_acquire taken
      constructor
      · apply early_move early rfl
        intro _
        exact early id request found (Or.inl queued)
      · apply permits_move found rfl
        simp [Request.holding, queued]
        omega
  | register id =>
      obtain ⟨request, found, permitted, rfl⟩ := step_register taken
      constructor
      · exact early_move early rfl (by simp)
      · have absent := early id request found (Or.inr permitted)
        apply permits_move found rfl
        simp [Request.holding, permitted, absent, put]
  | send id => exact send_permits early taken
  | abandon id unfinished => exact abandon_permits early taken
  | write succeeds =>
      simp only [step, Option.ite_none_right_eq_some, Option.some.injEq] at taken
      obtain ⟨_, rfl⟩ := taken
      exact ⟨early, rfl⟩
  | flush succeeds =>
      simp only [step, Option.ite_none_right_eq_some, Option.some.injEq] at taken
      obtain ⟨_, rfl⟩ := taken
      exact ⟨early, rfl⟩
  | respond id continues => exact respond_permits early taken
  | readerStops =>
      simp only [step, Option.ite_none_right_eq_some, Option.some.injEq] at taken
      obtain ⟨_, rfl⟩ := taken
      exact ⟨early, rfl⟩
  | failAll =>
      simp only [step, Option.ite_none_right_eq_some, Option.some.injEq] at taken
      obtain ⟨_, rfl⟩ := taken
      constructor
      · refine early.map ?_
        intro _ request there first
        split
        · rfl
        · rename_i absent
          simpa using absent
      · exact permits_failAll conn

end Conn

namespace Budget

/-- A registered request is inside its send, or it has been queued. -/
def Owned (budget : Budget) : Prop :=
  Each (fun id request => request.registered = true →
    request.phase = .sending ∨ id ∈ budget.queued) budget.conn.requests

theorem owned_move {budget next : Budget} {id : Nat} {moved : Request} (owned : budget.Owned)
    (requests : next.conn.requests = budget.conn.requests.set id moved)
    (queued : ∀ other, other ∈ budget.queued → other ∈ next.queued)
    (own : moved.registered = true → moved.phase = .sending ∨ id ∈ next.queued) :
    next.Owned := by
  rw [Owned, requests]
  refine owned.set own ?_
  intro other request _ _ there registered
  exact (there registered).imp_right (queued other)

/-- A request that is neither queued nor inside its send has no entry, and keeps none. -/
theorem owned_keep {budget next : Budget} {id : Nat} {former moved : Request}
    (owned : budget.Owned) (found : budget.conn.requests[id]? = some former)
    (requests : next.conn.requests = budget.conn.requests.set id moved)
    (queued : next.queued = budget.queued) (registered : moved.registered = former.registered)
    (elsewhere : former.phase ≠ .sending) : next.Owned := by
  apply owned_move owned requests (by simp [queued])
  intro there
  rw [registered] at there
  rcases owned id former found there with sending | mem
  · exact absurd sending elsewhere
  · rw [queued]
    exact Or.inr mem

theorem owned_unregistered {budget next : Budget} {id : Nat} {moved : Request}
    (owned : budget.Owned) (requests : next.conn.requests = budget.conn.requests.set id moved)
    (queued : next.queued = budget.queued) (absent : moved.registered = false) :
    next.Owned := by
  apply owned_move owned requests (by simp [queued])
  simp [absent]

theorem owned_same {budget next : Budget} (owned : budget.Owned)
    (requests : next.conn.requests = budget.conn.requests) (queued : next.queued = budget.queued) :
    next.Owned := by
  rw [Owned, requests, queued]
  exact owned

/-- A step that drops no send keeps every entry with an owner. -/
theorem owned_step {budget next : Budget} {label : BudgetStep} (owned : budget.Owned)
    (allowed : budget.FinishesSends label) (taken : budget.step label = some next) :
    next.Owned := by
  cases label with
  | dropSend id =>
      simp only [step, Option.bind_eq_bind, Option.bind_eq_some_iff,
        Option.ite_none_right_eq_some, Option.some.injEq] at taken
      obtain ⟨request, found, sending, rfl⟩ := taken
      exact owned_unregistered owned rfl rfl (allowed request found)
  | conn label =>
      simp only [step, Option.map_eq_some_iff] at taken
      obtain ⟨conn, taken, rfl⟩ := taken
      cases label with
      | call stream =>
          obtain rfl := Option.some.inj taken
          refine Each.snoc owned ?_ ?_
          · intro registered
            simp [Request.new] at registered
          · intro _ _ _ there
            exact there
      | acquire id =>
          obtain ⟨request, found, first, _, rfl⟩ := Conn.step_acquire taken
          exact owned_keep owned found rfl rfl rfl (by simp [first])
      | register id =>
          obtain ⟨request, found, permitted, rfl⟩ := Conn.step_register taken
          refine owned_move owned rfl (fun _ mem => mem) ?_
          intro _
          exact Or.inl rfl
      | send id =>
          obtain ⟨request, found, _, ⟨gone, rfl⟩ | ⟨running, rfl⟩⟩ := Conn.step_send taken
          · exact owned_unregistered owned rfl (if_pos gone) rfl
          · have queuedEq : budget.noteQueued (.send id) = id :: budget.queued :=
              if_neg running
            apply owned_move owned rfl
            · intro other mem
              rw [queuedEq]
              exact List.mem_cons_of_mem _ mem
            · intro _
              rw [queuedEq]
              exact Or.inr List.mem_cons_self
      | abandon id unfinished =>
          obtain ⟨request, found, ⟨leaves, rfl⟩ | ⟨_, _, _, rfl⟩⟩ := Conn.step_abandon taken
          · rcases leaves with first | ⟨sending, _⟩ | ⟨waiting, _⟩
            · exact owned_keep owned found rfl rfl rfl (by simp [first])
            · exact owned_unregistered owned rfl rfl (allowed request found sending)
            · exact owned_keep owned found rfl rfl rfl (by simp [waiting])
          · exact owned_unregistered owned rfl rfl rfl
      | write succeeds =>
          simp only [Conn.step, Option.ite_none_right_eq_some, Option.some.injEq] at taken
          obtain ⟨_, rfl⟩ := taken
          exact owned_same owned rfl rfl
      | flush succeeds =>
          simp only [Conn.step, Option.ite_none_right_eq_some, Option.some.injEq] at taken
          obtain ⟨_, rfl⟩ := taken
          exact owned_same owned rfl rfl
      | respond id continues =>
          obtain ⟨_, rfl | ⟨request, _, _, rfl⟩⟩ := Conn.step_respond taken
          · exact owned_same owned rfl rfl
          · exact owned_unregistered owned rfl rfl rfl
      | readerStops =>
          simp only [Conn.step, Option.ite_none_right_eq_some, Option.some.injEq] at taken
          obtain ⟨_, rfl⟩ := taken
          exact owned_same owned rfl rfl
      | failAll =>
          simp only [Conn.step, Option.ite_none_right_eq_some, Option.some.injEq] at taken
          obtain ⟨_, rfl⟩ := taken
          refine Each.map owned ?_
          intro id request there
          split
          · intro registered
            simp [Request.finish] at registered
          · exact there

theorem permits_step {budget next : Budget} {label : BudgetStep} (early : budget.conn.Early)
    (taken : budget.step label = some next) :
    next.conn.Early ∧ next.conn.permits = budget.conn.permits := by
  cases label with
  | conn label =>
      simp only [step, Option.map_eq_some_iff] at taken
      obtain ⟨conn, taken, rfl⟩ := taken
      exact Conn.step_permits early taken
  | dropSend id =>
      simp only [step, Option.bind_eq_bind, Option.bind_eq_some_iff,
        Option.ite_none_right_eq_some, Option.some.injEq] at taken
      obtain ⟨request, found, sending, rfl⟩ := taken
      constructor
      · exact Conn.early_move early rfl (by simp)
      · apply Conn.permits_move found rfl
        simp [Request.holding, sending, Conn.put]

theorem budget_conserved (requestQueueDepth maxInflightRequests : Nat)
    (labels : List BudgetStep) (budget : Budget)
    (meets : Allowed step FinishesSends (spawn requestQueueDepth maxInflightRequests) labels)
    (reached : run step (spawn requestQueueDepth maxInflightRequests) labels = some budget) :
    Conserved (max maxInflightRequests 1) budget := by
  have sum : budget.conn.Early ∧ budget.conn.permits = max maxInflightRequests 1 := by
    apply invariant_of_steps _ _ reached
    · rintro before label after ⟨early, sumEq⟩ taken
      obtain ⟨stays, same⟩ := permits_step early taken
      exact ⟨stays, same.trans sumEq⟩
    · exact ⟨each_nil _, rfl⟩
  have owned : budget.Owned := by
    apply invariant_of_run _ _ meets reached
    · intro before label after owned allowed taken
      exact owned_step owned allowed taken
    · exact each_nil _
  constructor
  · exact sum.2
  · intro id request found registered
    rcases owned id request found registered with sending | mem
    · exact Or.inr (by simp [Request.running, sending])
    · exact Or.inl mem

/-- One append is in the queue, and another is inside its send.  The future of the first one and
that of a third one, which awaits a permit, are dropped; then the first one is written and answered,
and its permit is free. -/
def droppedRun : List BudgetStep :=
  [.conn (.call false), .conn (.acquire 0), .conn (.register 0), .conn (.send 0),
    .conn (.call false), .conn (.acquire 1), .conn (.register 1), .conn (.call false),
    .conn (.abandon 2 true), .conn (.abandon 0 true), .conn (.write true),
    .conn (.respond 0 false), .conn (.send 1)]

theorem budget_conserved_dropped :
    ∃ budget, run step (spawn 1 2) droppedRun = some budget ∧ budget.conn.inflight = 1 ∧
      Conserved 2 budget := by
  have computed : (run step (spawn 1 2) droppedRun).any
      (fun budget => decide (budget.conn.inflight = 1)) = true := by
    decide
  obtain ⟨budget, reached, free⟩ := (Option.any_eq_true _ _).mp computed
  exact ⟨budget, reached, of_decide_eq_true free,
    budget_conserved 1 2 droppedRun budget (by decide) reached⟩

/-- The second append is dropped while its send awaits room: its entry holds a permit,
it has not been queued, and no caller is left. -/
theorem dropped_send_keeps_permit :
    ∃ labels budget, run step (spawn 1 2) labels = some budget ∧ ¬ Conserved 2 budget := by
  refine ⟨[.conn (.call false), .conn (.acquire 0), .conn (.register 0),
    .conn (.send 0), .conn (.call false), .conn (.acquire 1), .conn (.register 1),
    .conn (.abandon 1 true)],
    ⟨⟨1, 1, 0, [⟨false, .waiting, true, false⟩, ⟨false, .abandoned, true, false⟩],
      .receiving, .reading⟩, [0]⟩, rfl, ?_⟩
  intro conserved
  rcases conserved.owned 1 ⟨false, .abandoned, true, false⟩ rfl rfl with mem | running
  · simp at mem
  · simp [Request.running] at running

end Budget

end Tephra.Client
