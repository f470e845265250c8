import Tephra.ClientRouting

/-!
# Each request gets its own responses

The registry never sends the responses of one id into the channel of another call.
What a caller takes is what the responses with its id say, in their order, or a failure
of the connection behind them.
-/

namespace Tephra.Client

open Histories

namespace Routing

structure Safe (routing : Routing) : Prop where
  positive : unattributedRequestId < routing.nextId
  fresh : ∀ (place : Nat) call, routing.calls[place]? = some call →
    call.id ≠ unattributedRequestId ∧ call.id < routing.nextId
  unique : ∀ (place other : Nat) call former, routing.calls[place]? = some call →
    routing.calls[other]? = some former → call.id = former.id → place = other
  entries : ∀ entry ∈ routing.table, ∃ call, routing.calls[entry.call]? = some call ∧
    call.id = entry.id ∧ call.sink = entry.sink
  told : ∀ (place : Nat) call, routing.calls[place]? = some call →
    Told (routing.holds call.id) call

/-- The calls keep their ids and their sinks. -/
def SameCalls (before after : Routing) : Prop :=
  after.calls.map (fun call => (call.id, call.sink)) =
    before.calls.map fun call => (call.id, call.sink)

theorem SameCalls.back {before after : Routing} (same : SameCalls before after) {place : Nat}
    {call : Call} (found : after.calls[place]? = some call) :
    ∃ former, before.calls[place]? = some former ∧ former.id = call.id ∧
      former.sink = call.sink := by
  have here : (after.calls.map fun call => (call.id, call.sink))[place]? =
      some (call.id, call.sink) := by
    rw [List.getElem?_map, found]
    rfl
  rw [same, List.getElem?_map, Option.map_eq_some_iff] at here
  obtain ⟨former, formerFound, formerEq⟩ := here
  simp only [Prod.mk.injEq] at formerEq
  exact ⟨former, formerFound, formerEq⟩

theorem SameCalls.symm {before after : Routing} (same : SameCalls before after) :
    SameCalls after before :=
  Eq.symm same

theorem sameCalls_put {routing : Routing} {place : Nat} {former call : Call}
    (found : routing.calls[place]? = some former) (idEq : call.id = former.id)
    (sinkEq : call.sink = former.sink) : SameCalls routing (routing.put place call) := by
  obtain ⟨inside, rfl⟩ := List.getElem?_eq_some_iff.mp found
  rw [SameCalls, put, List.map_set, idEq, sinkEq]
  apply List.ext_getElem?
  intro other
  by_cases same : place = other
  · subst same
    rw [List.getElem?_set_self (by simpa using inside)]
    simp [inside]
  · rw [List.getElem?_set_ne same]

/-- The calls go on as they are told, with entries for them alone. -/
theorem Safe.evolve {before after : Routing} (safe : before.Safe)
    (same : SameCalls before after) (nextId : before.nextId ≤ after.nextId)
    (entries : ∀ entry ∈ after.table, entry ∈ before.table ∨
      ∃ call, before.calls[entry.call]? = some call ∧ call.id = entry.id ∧
        call.sink = entry.sink)
    (told : ∀ (place : Nat) call, after.calls[place]? = some call →
      Told (after.holds call.id) call) : after.Safe := by
  constructor
  · exact safe.positive.trans_le nextId
  · intro place call found
    obtain ⟨former, formerFound, idEq, -⟩ := same.back found
    obtain ⟨attributed, below⟩ := safe.fresh place former formerFound
    rw [← idEq]
    exact ⟨attributed, below.trans_le nextId⟩
  · intro place other call last found lastFound idEq
    obtain ⟨former, formerFound, formerEq, -⟩ := same.back found
    obtain ⟨earlier, earlierFound, earlierEq, -⟩ := same.back lastFound
    exact safe.unique place other former earlier formerFound earlierFound
      (formerEq.trans (idEq.trans earlierEq.symm))
  · intro entry mem
    obtain ⟨call, found, idEq, sinkEq⟩ : ∃ call, before.calls[entry.call]? = some call ∧
        call.id = entry.id ∧ call.sink = entry.sink := by
      rcases entries entry mem with old | new
      · exact safe.entries entry old
      · exact new
    obtain ⟨later, laterFound, laterId, laterSink⟩ := same.symm.back found
    exact ⟨later, laterFound, laterId.trans idEq, laterSink.trans sinkEq⟩
  · exact told

/-- One call moves on, and the registry changes for its id alone. -/
theorem Safe.move {before after : Routing} {place : Nat} {call moved : Call} (safe : before.Safe)
    (found : before.calls[place]? = some call)
    (calls : after.calls = before.calls.set place moved)
    (idEq : moved.id = call.id) (sinkEq : moved.sink = call.sink)
    (nextId : before.nextId ≤ after.nextId)
    (entries : ∀ entry ∈ after.table, entry ∈ before.table ∨
      entry = ⟨call.id, call.sink, place⟩)
    (others : ∀ id, id ≠ call.id → after.holds id = before.holds id)
    (own : Told (after.holds call.id) moved) : after.Safe := by
  have inside := (List.getElem?_eq_some_iff.mp found).1
  apply safe.evolve
  · have kept := sameCalls_put found idEq sinkEq
    rw [SameCalls, put] at kept
    rw [SameCalls, calls]
    exact kept
  · exact nextId
  · intro entry mem
    rcases entries entry mem with old | rfl
    · exact Or.inl old
    · exact Or.inr ⟨call, found, rfl, rfl⟩
  · intro other last lastFound
    rw [calls] at lastFound
    by_cases same : place = other
    · subst same
      rw [List.getElem?_set_self inside] at lastFound
      cases lastFound
      rw [idEq]
      exact own
    · rw [List.getElem?_set_ne same] at lastFound
      have apart : last.id ≠ call.id := fun idEq =>
        same (safe.unique other place last call lastFound found idEq).symm
      rw [others last.id apart]
      exact safe.told other last lastFound

theorem mem_without {routing : Routing} {id : Nat} {entry : Entry}
    (mem : entry ∈ routing.without id) : entry ∈ routing.table :=
  (List.mem_filter.mp mem).1

theorem holds_of_without {before after : Routing} {id other : Nat}
    (table : after.table = before.without id) :
    after.holds other = (decide (other ≠ id) && before.holds other) := by
  rw [← holds_without]
  simp only [holds, table]

theorem holds_of_cons {before after : Routing} {id other : Nat} {entry : Entry}
    (table : after.table = entry :: before.without id) (own : entry.id = id) :
    after.holds other = (decide (other = id) || before.holds other) := by
  have rest := holds_without before id other
  simp only [holds] at rest
  rw [holds, table, List.any_cons, rest, own]
  by_cases same : other = id
  · simp [same, holds]
  · simp [same, Ne.symm same, holds, eq_comm]

theorem safe_spawn : spawn.Safe where
  positive := Nat.one_pos
  fresh := by simp [spawn]
  unique := by simp [spawn]
  entries := by simp [spawn]
  told := by simp [spawn]

/-- A step that changes neither the registry nor the calls. -/
theorem Safe.same {before after : Routing} (safe : before.Safe) (table : after.table = before.table)
    (calls : after.calls = before.calls) (nextId : before.nextId ≤ after.nextId) : after.Safe := by
  apply safe.evolve
  · rw [SameCalls, calls]
  · exact nextId
  · intro entry mem
    rw [table] at mem
    exact Or.inl mem
  · intro place call found
    rw [calls] at found
    rw [holds, table]
    exact safe.told place call found

theorem Safe.begin {routing : Routing} (safe : routing.Safe) (sink : SinkKind) :
    ({ routing with
        nextId := routing.nextId + 1
        calls := routing.calls ++ [Call.new routing.nextId sink] } : Routing).Safe := by
  have joins {place : Nat} {call : Call}
      (found : (routing.calls ++ [Call.new routing.nextId sink])[place]? = some call) :
      routing.calls[place]? = some call ∨
        place = routing.calls.length ∧ call = Call.new routing.nextId sink := by
    by_cases old : place < routing.calls.length
    · rw [List.getElem?_append_left old] at found
      exact Or.inl found
    · have inside := (List.getElem?_eq_some_iff.mp found).1
      rw [List.length_append, List.length_singleton] at inside
      have here : place = routing.calls.length := by omega
      rw [here, List.getElem?_concat_length] at found
      exact Or.inr ⟨here, (Option.some.inj found).symm⟩
  have unheld : routing.holds routing.nextId = false := by
    by_contra held
    rw [Bool.not_eq_false, holds, List.any_eq_true] at held
    obtain ⟨entry, mem, own⟩ := held
    obtain ⟨call, found, idEq, -⟩ := safe.entries entry mem
    have below := (safe.fresh entry.call call found).2
    have : entry.id = routing.nextId := by simpa using own
    omega
  constructor
  · exact safe.positive.trans (Nat.lt_succ_self _)
  · intro place call found
    rcases joins found with old | ⟨-, rfl⟩
    · obtain ⟨attributed, below⟩ := safe.fresh place call old
      exact ⟨attributed, below.trans (Nat.lt_succ_self _)⟩
    · exact ⟨safe.positive.ne', Nat.lt_succ_self _⟩
  · intro place other call former found formerFound idEq
    rcases joins found with old | ⟨here, rfl⟩
    · have below := (safe.fresh place call old).2
      rcases joins formerFound with formerOld | ⟨-, rfl⟩
      · exact safe.unique place other call former old formerOld idEq
      · exact absurd idEq below.ne
    · rcases joins formerFound with formerOld | ⟨there, -⟩
      · have below := (safe.fresh other former formerOld).2
        exact absurd idEq below.ne'
      · rw [here, there]
  · intro entry mem
    obtain ⟨call, found, own⟩ := safe.entries entry mem
    have inside := (List.getElem?_eq_some_iff.mp found).1
    refine ⟨call, ?_, own⟩
    rw [List.getElem?_append_left inside]
    exact found
  · intro place call found
    rcases joins found with old | ⟨-, rfl⟩
    · exact safe.told place call old
    · have unheldNew : routing.holds (Call.new routing.nextId sink).id = false := unheld
      rw [holds] at unheldNew ⊢
      rw [unheldNew]
      exact told_new _ sink

theorem Safe.register {routing : Routing} {place : Nat} {call : Call} (safe : routing.Safe)
    (found : routing.calls[place]? = some call) (start : call.phase = .starting) :
    ({ routing.put place { call with phase := .sending } with
        table := ⟨call.id, call.sink, place⟩ :: routing.without call.id } : Routing).Safe := by
  have told := safe.told place call found
  have unheld := (told.starting start).1
  rw [unheld] at told
  refine safe.move found rfl rfl rfl le_rfl ?_ ?_ ?_
  · intro entry mem
    rcases List.mem_cons.mp mem with rfl | old
    · exact Or.inr rfl
    · exact Or.inl (mem_without old)
  · intro id other
    rw [holds_of_cons rfl rfl, decide_eq_false other, Bool.false_or]
  · rw [holds_of_cons rfl rfl, decide_eq_true rfl, Bool.true_or]
    exact told.register start

theorem Safe.put {routing : Routing} {place : Nat} {call moved : Call} (safe : routing.Safe)
    (found : routing.calls[place]? = some call) (idEq : moved.id = call.id)
    (sinkEq : moved.sink = call.sink) (own : Told (routing.holds call.id) moved) :
    (routing.put place moved).Safe := by
  refine safe.move found rfl idEq sinkEq le_rfl ?_ ?_ ?_
  · intro entry mem
    exact Or.inl mem
  · intro _ _
    rfl
  · exact own

/-- A call moves on and its entry leaves the registry. -/
theorem Safe.remove {before after : Routing} {place : Nat} {call moved : Call} (safe : before.Safe)
    (found : before.calls[place]? = some call)
    (calls : after.calls = before.calls.set place moved)
    (table : after.table = before.without call.id)
    (nextId : before.nextId ≤ after.nextId) (idEq : moved.id = call.id)
    (sinkEq : moved.sink = call.sink) (own : Told false moved) : after.Safe := by
  apply safe.move found calls idEq sinkEq nextId
  · intro entry mem
    rw [table] at mem
    exact Or.inl (mem_without mem)
  · intro id other
    rw [holds_of_without table, decide_eq_true other, Bool.true_and]
  · rw [holds_of_without table, decide_eq_false (not_not.mpr rfl), Bool.false_and]
    exact own

theorem Safe.sendFails {routing : Routing} {place : Nat} {call : Call} (safe : routing.Safe)
    (found : routing.calls[place]? = some call) (sending : call.phase = .sending) :
    (routing.sendFails place call).Safe := by
  have told := safe.told place call found
  unfold Routing.sendFails
  simp only
  split
  · rename_i once
    have taken := told.untaken once (by simp [sending])
    exact safe.remove found rfl rfl le_rfl rfl rfl (told_returned once taken)
  · split
    · rename_i held
      rw [held] at told
      exact safe.remove found rfl rfl le_rfl rfl rfl (told.fail_sending sending)
    · rename_i absent
      rw [Bool.not_eq_true] at absent
      rw [absent] at told
      exact safe.remove found rfl rfl le_rfl rfl rfl (told.hand sending)

theorem Safe.poll {routing next : Routing} {place : Nat} {call : Call} (safe : routing.Safe)
    (found : routing.calls[place]? = some call) (handed : call.phase = .handed)
    (taken : routing.poll place call = some next) : next.Safe := by
  have told := safe.told place call found
  unfold Routing.poll at taken
  split at taken
  · rename_i once
    split at taken
    · rename_i item rest channel
      obtain rfl := Option.some.inj taken
      exact safe.put found rfl rfl (told.takeOnce once handed channel)
    · rename_i empty
      split at taken
      · cases taken
      · rename_i absent
        -- the sender has gone with nothing sent, which no step leaves behind
        have settled := told.settled (by simpa using absent) (by simp [handed]) (by simp [handed])
        have untaken := told.untaken once (by simp [handed])
        rw [empty, untaken] at settled
        exact absurd rfl settled.nonempty
  · rename_i stream
    split at taken
    · obtain rfl := Option.some.inj taken
      exact safe
    · rename_i unfinished
      rw [Bool.not_eq_true] at unfinished
      split at taken
      · rename_i item rest channel
        obtain rfl := Option.some.inj taken
        apply safe.put found
        · cases item <;> rfl
        · cases item <;> rfl
        · exact told.takeStream stream handed unfinished channel
      · rename_i empty
        split at taken
        · cases taken
        · rename_i absent
          exact absurd (told.held_of_waiting stream handed unfinished empty) absent

theorem Safe.drop {routing : Routing} {place : Nat} {call : Call} (safe : routing.Safe)
    (found : routing.calls[place]? = some call) : (routing.drop place call).Safe := by
  have told := safe.told place call found
  unfold Routing.drop
  split
  · refine safe.remove found rfl rfl ?_ rfl rfl (told.close false)
    simp only
    split
    · exact le_rfl
    · exact Nat.le_succ _
  · exact safe.put found rfl rfl (told.close _)

theorem Safe.failAll {routing : Routing} (safe : routing.Safe) : routing.failAll.Safe := by
  apply safe.evolve
  · rw [SameCalls, Routing.failAll, List.map_map]
    apply List.map_congr_left
    intro call _
    simp only [Function.comp_apply]
    split <;> rfl
  · exact le_rfl
  · intro entry mem
    simp [Routing.failAll] at mem
  · intro place call found
    have unheld : routing.failAll.holds call.id = false := rfl
    rw [unheld]
    simp only [Routing.failAll, List.getElem?_map, Option.map_eq_some_iff] at found
    obtain ⟨former, formerFound, rfl⟩ := found
    have told := safe.told place former formerFound
    split
    · rename_i held
      rw [held] at told
      exact told.fail (.reason _)
    · rename_i absent
      rw [Bool.not_eq_true] at absent
      rw [absent] at told
      exact told

theorem map_note (response : Response) (calls : List Call) :
    (calls.map (Call.note response)).map (fun call => (call.id, call.sink)) =
      calls.map fun call => (call.id, call.sink) := by
  rw [List.map_map]
  apply List.map_congr_left
  intro call _
  simp

/-- A response goes to the call of the entry that it finds, and to no other. -/
theorem Safe.deliver {before after : Routing} {response : Response} {entry : Entry} {call : Call}
    (safe : before.Safe) (found : before.lookup response.requestId = some entry)
    (here : before.calls[entry.call]? = some call) (own : call.id = response.requestId)
    (nextId : before.nextId ≤ after.nextId)
    (calls : after.calls = (before.calls.map (Call.note response)).set entry.call
      { call.note response with
        channel :=
          call.channel ++ (Client.deliver call.sink call.receiver response.kind).1 })
    (table : after.table =
      if (Client.deliver call.sink call.receiver response.kind).2 then
        entry :: before.without response.requestId
      else before.without response.requestId) : after.Safe := by
  obtain ⟨mem, entryId, held⟩ := lookup_some found
  have told := safe.told entry.call call here
  rw [own, held] at told
  have heard := told.deliver response own
  generalize Client.deliver call.sink call.receiver response.kind = delivered at calls table heard
  have inside := (List.getElem?_eq_some_iff.mp here).1
  have notedInside : entry.call < (before.calls.map (Call.note response)).length := by
    rwa [List.length_map]
  have holdsOwn : after.holds response.requestId = delivered.2 := by
    cases stays : delivered.2 with
    | true =>
        rw [stays, if_pos rfl] at table
        rw [holds_of_cons table entryId, decide_eq_true rfl, Bool.true_or]
    | false =>
        rw [stays, if_neg Bool.false_ne_true] at table
        rw [holds_of_without table, decide_eq_false (not_not.mpr rfl), Bool.false_and]
  have holdsOther {id : Nat} (other : id ≠ response.requestId) :
      after.holds id = before.holds id := by
    cases stays : delivered.2 with
    | true =>
        rw [stays, if_pos rfl] at table
        rw [holds_of_cons table entryId, decide_eq_false other, Bool.false_or]
    | false =>
        rw [stays, if_neg Bool.false_ne_true] at table
        rw [holds_of_without table, decide_eq_true other, Bool.true_and]
  apply safe.evolve
  · have kept := sameCalls_put here (call.note_id response) (call.note_sink response)
    rw [SameCalls, Routing.put, List.map_set] at kept
    rw [SameCalls, calls, List.map_set, map_note]
    exact kept
  · exact nextId
  · intro last lastMem
    left
    rw [table] at lastMem
    split at lastMem
    · rcases List.mem_cons.mp lastMem with rfl | old
      · exact mem
      · exact mem_without old
    · exact mem_without lastMem
  · intro place last lastFound
    rw [calls] at lastFound
    by_cases same : entry.call = place
    · subst same
      rw [List.getElem?_set_self notedInside] at lastFound
      obtain rfl := Option.some.inj lastFound
      have holdsNoted : after.holds (call.note response).id = delivered.2 := by
        rw [Call.note_id, own, holdsOwn]
      dsimp only
      rw [holdsNoted]
      exact heard
    · rw [List.getElem?_set_ne same, List.getElem?_map, Option.map_eq_some_iff] at lastFound
      obtain ⟨former, formerFound, rfl⟩ := lastFound
      have other : former.id ≠ response.requestId := fun idEq =>
        same (safe.unique _ _ call former here formerFound (own.trans idEq.symm))
      rw [Call.note_other other, holdsOther other]
      exact safe.told place former formerFound

theorem Safe.respond {routing : Routing} (safe : routing.Safe) (response : Response) :
    (routing.respond response).Safe := by
  unfold Routing.respond
  split
  · exact safe.same rfl rfl le_rfl
  · unfold route
    have lookupEq : ({ routing with calls := routing.calls.map (Call.note response) } :
        Routing).lookup response.requestId = routing.lookup response.requestId := rfl
    rw [lookupEq]
    cases found : routing.lookup response.requestId with
    | none =>
        have unheld := lookup_none found
        apply safe.evolve
        · exact map_note response routing.calls
        · exact le_rfl
        · intro entry mem
          exact Or.inl mem
        · intro place call here
          rw [List.getElem?_map, Option.map_eq_some_iff] at here
          obtain ⟨former, formerFound, rfl⟩ := here
          rw [Call.note_id]
          have told := safe.told place former formerFound
          have holdsEq : ({ routing with calls := routing.calls.map (Call.note response) } :
              Routing).holds former.id = routing.holds former.id := rfl
          rw [holdsEq]
          by_cases own : former.id = response.requestId
          · rw [own, unheld] at told ⊢
            exact told.note_absent response
          · rw [Call.note_other own]
            exact told
    | some entry =>
        obtain ⟨mem, entryId, held⟩ := lookup_some found
        obtain ⟨call, callFound, idEq, sinkEq⟩ := safe.entries entry mem
        have noted : (routing.calls.map (Call.note response))[entry.call]? =
            some (call.note response) := by
          rw [List.getElem?_map, callFound]
          rfl
        have own : call.id = response.requestId := idEq.trans entryId
        simp only [noted, ← sinkEq, Call.note_receiver, Call.note_channel]
        exact safe.deliver found callFound own le_rfl rfl rfl

/-- Every step keeps the registry and the calls in order. -/
theorem Safe.step {routing next : Routing} {label : RoutingStep} (safe : routing.Safe)
    (taken : routing.step label = some next) : next.Safe := by
  cases label with
  | begin sink =>
      obtain rfl := Option.some.inj taken
      exact safe.begin sink
  | register place =>
      simp only [Routing.step, Option.bind_eq_bind, Option.bind_eq_some_iff,
        Option.ite_none_right_eq_some, Option.some.injEq] at taken
      obtain ⟨call, found, start, rfl⟩ := taken
      exact safe.register found start
  | send place =>
      simp only [Routing.step, Option.bind_eq_bind, Option.bind_eq_some_iff,
        Option.ite_none_right_eq_some, Option.some.injEq] at taken
      obtain ⟨call, found, sending, rfl⟩ := taken
      exact safe.put found rfl rfl ((safe.told place call found).hand sending)
  | sendFails place =>
      simp only [Routing.step, Option.bind_eq_bind, Option.bind_eq_some_iff,
        Option.ite_none_right_eq_some, Option.some.injEq] at taken
      obtain ⟨call, found, sending, rfl⟩ := taken
      exact safe.sendFails found sending
  | respond response =>
      simp only [Routing.step, Option.ite_none_right_eq_some, Option.some.injEq] at taken
      obtain ⟨-, rfl⟩ := taken
      exact safe.respond response
  | stops error =>
      simp only [Routing.step, Option.ite_none_right_eq_some, Option.some.injEq] at taken
      obtain ⟨-, rfl⟩ := taken
      exact safe.same rfl rfl le_rfl
  | failAll =>
      simp only [Routing.step, Option.ite_none_right_eq_some, Option.some.injEq] at taken
      obtain ⟨-, rfl⟩ := taken
      exact safe.failAll
  | poll place =>
      simp only [Routing.step, Option.bind_eq_bind, Option.bind_eq_some_iff,
        Option.ite_none_right_eq_some] at taken
      obtain ⟨call, found, handed, taken⟩ := taken
      exact safe.poll found handed taken
  | drop place =>
      simp only [Routing.step, Option.bind_eq_bind, Option.bind_eq_some_iff,
        Option.ite_none_right_eq_some, Option.some.injEq] at taken
      obtain ⟨call, found, -, rfl⟩ := taken
      exact safe.drop found

theorem safe_of_run {labels : List RoutingStep} {routing : Routing}
    (reached : run step spawn labels = some routing) : routing.Safe := by
  apply invariant_of_steps _ safe_spawn reached
  intro before label after safe taken
  exact safe.step taken

end Routing

/-- The events among the items of a stream. -/
def eventsOf (items : List Item) : List SequencedEvent :=
  items.filterMap fun item =>
    match item with
    | .ok (.event event) => some event
    | _ => none

theorem eventsOf_map (events : List SequencedEvent) :
    eventsOf (events.map fun event => .ok (.event event)) = events := by
  rw [eventsOf, List.filterMap_map]
  exact List.filterMap_some

/-- A request answered once has at most one result: a failure of the connection, or what
the first response with its id says. -/
theorem Heard.once {sink : SinkKind} {frames : List ResponseKind} {taken : List Item}
    (heard : Heard sink frames taken) (once : sink.once = true) :
    taken.length ≤ 1 ∧ ∀ item ∈ taken, (∃ error, Failure error ∧ item = .err error) ∨
      ∃ kind, frames.head? = some kind ∧ deliver sink true kind = ([item], false) := by
  obtain ⟨front, total, isPrefix, within, ends⟩ := heard
  have short := within.length_le
  cases front with
  | nil =>
      rcases ends with rfl | ⟨error, failure, -, rfl⟩
      · have none : taken = [] := List.prefix_nil.mp within
        simp [none]
      · refine ⟨short, fun item mem => Or.inl ⟨error, failure, ?_⟩⟩
        exact List.mem_singleton.mp (within.subset mem)
  | cons first front =>
      obtain ⟨result, delivered, all⟩ := deliverAll_once once first front
      rw [all] at ends
      rcases ends with rfl | ⟨error, -, impossible, -⟩
      · refine ⟨short, fun item mem => Or.inr ⟨first, ?_, ?_⟩⟩
        · obtain ⟨rest, rfl⟩ := isPrefix
          rfl
        · rw [List.mem_singleton.mp (within.subset mem)]
          exact delivered
      · cases impossible

theorem eventsOf_prefix {events : List SequencedEvent} {last taken : List Item}
    (quiet : eventsOf last = [])
    (within : taken <+: (events.map fun event => .ok (.event event)) ++ last) :
    ∃ count, eventsOf taken = events.take count := by
  obtain ⟨rest, split⟩ := within
  refine ⟨(eventsOf taken).length, ?_⟩
  have whole : eventsOf taken ++ eventsOf rest = events := by
    have joined := congrArg eventsOf split
    rw [eventsOf, eventsOf, List.filterMap_append, List.filterMap_append] at joined
    have front := eventsOf_map events
    simp only [eventsOf] at front quiet ⊢
    rw [joined, front, quiet, List.append_nil]
  rw [← whole, List.take_left]

theorem mapM_take {views : List Pb.SequencedEvent} {events : List SequencedEvent}
    (decoded : views.mapM sequencedFromPb = .ok events) (count : Nat) :
    (views.take count).mapM sequencedFromPb = .ok (events.take count) := by
  induction views generalizing events count with
  | nil =>
      cases decoded
      simp
      rfl
  | cons view views ih =>
      rw [List.mapM_cons] at decoded
      cases viewEq : sequencedFromPb view with
      | error source => rw [viewEq] at decoded; cases decoded
      | ok event =>
          cases restEq : views.mapM sequencedFromPb with
          | error source => rw [viewEq, restEq] at decoded; cases decoded
          | ok rest =>
              rw [viewEq, restEq] at decoded
              cases decoded
              cases count with
              | zero => rfl
              | succ count =>
                  rw [List.take_succ_cons, List.mapM_cons, viewEq, ih restEq count]
                  rfl

theorem flatMap_views_mono {front frames : List ResponseKind} (isPrefix : front <+: frames) :
    front.flatMap ResponseKind.views <+: frames.flatMap ResponseKind.views := by
  obtain ⟨rest, rfl⟩ := isPrefix
  rw [List.flatMap_append]
  exact List.prefix_append _ _

/-- Everything a read is sent: the events of the first of its batches, and at most one
item behind them. -/
theorem read_total {front frames : List ResponseKind} {total : List Item}
    (isPrefix : front <+: frames)
    (ends : total = (deliverAll .read front).1 ∨
      ∃ error, Failure error ∧ (deliverAll .read front).2 = true ∧
        total = (deliverAll .read front).1 ++ [.err error]) :
    ∃ views events last, views <+: frames.flatMap ResponseKind.views ∧
      views.mapM sequencedFromPb = .ok events ∧
      total = (events.map fun event => .ok (.event event)) ++ last ∧ eventsOf last = [] := by
  have outcome := deliverAll_read front
  have within := flatMap_views_mono isPrefix
  generalize deliverAll .read front = sent at outcome ends
  cases outcome with
  | @going events batches decoded =>
      rcases ends with rfl | ⟨error, -, -, rfl⟩
      · exact ⟨_, events, [], within, decoded, (List.append_nil _).symm, rfl⟩
      · exact ⟨_, events, [.err error], within, decoded, rfl, rfl⟩
  | @ended earlier rest watermark events split batches decoded =>
      rcases ends with rfl | ⟨error, -, impossible, -⟩
      · have earlierPrefix : earlier <+: front := ⟨_, split.symm⟩
        exact ⟨_, events, [.readEnd watermark],
          (flatMap_views_mono earlierPrefix).trans within, decoded, rfl, rfl⟩
      · cases impossible
  | @failed count events error decoded =>
      rcases ends with rfl | ⟨error, -, impossible, -⟩
      · exact ⟨_, events, [.err error], (List.take_prefix _ _).trans within, decoded, rfl, rfl⟩
      · cases impossible

theorem Heard.events {frames : List ResponseKind} {taken : List Item}
    (heard : Heard .read frames taken) :
    ∃ views, views <+: frames.flatMap ResponseKind.views ∧
      views.mapM sequencedFromPb = .ok (eventsOf taken) := by
  obtain ⟨front, total, isPrefix, within, ends⟩ := heard
  obtain ⟨views, events, last, viewsPrefix, decoded, rfl, quiet⟩ := read_total isPrefix ends
  obtain ⟨count, takenEq⟩ := eventsOf_prefix quiet within
  refine ⟨views.take count, (List.take_prefix _ _).trans viewsPrefix, ?_⟩
  rw [takenEq]
  exact mapM_take decoded count

theorem eq_of_prefix_concat {front items : List Item} {last : Item}
    (within : front ++ [last] <+: items) (elsewhere : ∀ item ∈ items.dropLast, item ≠ last) :
    items = front ++ [last] := by
  obtain ⟨rest, rfl⟩ := within
  cases rest with
  | nil => exact List.append_nil _
  | cons next rest =>
      have mem : last ∈ (front ++ [last] ++ next :: rest).dropLast := by
        rw [List.dropLast_append_of_ne_nil (List.cons_ne_nil _ _)]
        simp
      exact absurd rfl (elsewhere last mem)

/-- A read that has taken its end has taken every event of the batches before it. -/
theorem Heard.readEnd {frames : List ResponseKind} {front : List Item} {watermark : Nat}
    (heard : Heard .read frames (front ++ [.readEnd watermark])) :
    ∃ batches rest, frames = batches ++ .readEnd watermark :: rest ∧
      (∀ kind ∈ batches, ∃ views, kind = .readEvents views) ∧
      (batches.flatMap ResponseKind.views).mapM sequencedFromPb =
        .ok (eventsOf (front ++ [.readEnd watermark])) := by
  obtain ⟨sent, total, isPrefix, within, ends⟩ := heard
  have mem : Item.readEnd watermark ∈ total := within.subset (by simp)
  have outcome := deliverAll_read sent
  generalize deliverAll .read sent = said at outcome ends
  cases outcome with
  | @going events batches decoded =>
      rcases ends with rfl | ⟨error, -, -, rfl⟩ <;> simp at mem
  | @ended earlier rest mark events split batches decoded =>
      rcases ends with rfl | ⟨error, -, impossible, -⟩
      · have markEq : watermark = mark := by simpa using mem
        subst markEq
        have totalEq := eq_of_prefix_concat within (by simp)
        have frontEq := List.append_cancel_right totalEq
        obtain ⟨more, rfl⟩ := isPrefix
        refine ⟨earlier, rest ++ more, ?_, batches, ?_⟩
        · rw [split, List.append_assoc, List.cons_append]
        · rw [← frontEq, eventsOf, List.filterMap_append]
          have eventsEq := eventsOf_map events
          simp only [eventsOf] at eventsEq
          rw [eventsEq, decoded]
          simp
      · cases impossible
  | @failed count events error decoded =>
      rcases ends with rfl | ⟨error, -, impossible, -⟩
      · simp at mem
      · cases impossible

theorem Told.all_sent {call : Call} (told : Told true call) (read : call.sink = .read)
    (alive : call.phase ≠ .closed) :
    (call.frames.flatMap ResponseKind.views).mapM sequencedFromPb =
      .ok (eventsOf (call.taken ++ call.channel)) := by
  have going := told.going rfl alive
  have outcome := deliverAll_read call.frames
  rw [← read, going] at outcome
  generalize call.taken ++ call.channel = sent at outcome
  cases outcome with
  | going batches decoded => rw [decoded, eventsOf_map]

namespace Routing

/-- A response changes no call with another id, and leaves its entry where it is. -/
theorem respond_other {routing : Routing} (safe : routing.Safe) {response : Response}
    {place : Nat} {call : Call} (found : routing.calls[place]? = some call)
    (other : call.id ≠ response.requestId) :
    (routing.respond response).calls[place]? = some call ∧
      (routing.respond response).holds call.id = routing.holds call.id := by
  have noted : (routing.calls.map (Call.note response))[place]? = some call := by
    rw [List.getElem?_map, found, Option.map_some, Call.note_other other]
  unfold respond
  split
  · exact ⟨found, rfl⟩
  · unfold route
    split
    · exact ⟨noted, rfl⟩
    · rename_i entry entryFound
      obtain ⟨mem, entryId, -⟩ := @lookup_some routing _ _ entryFound
      obtain ⟨owner, ownerFound, ownerId, -⟩ := safe.entries entry mem
      have apart : entry.call ≠ place := by
        rintro rfl
        rw [found] at ownerFound
        cases ownerFound
        exact other (ownerId.trans entryId)
      split
      · refine ⟨noted, ?_⟩
        rw [@holds_of_without routing _ response.requestId call.id rfl, decide_eq_true other,
          Bool.true_and]
      · constructor
        · simp only [put]
          rw [List.getElem?_set_ne apart]
          exact noted
        · simp only
          split
          · rw [@holds_of_cons routing _ response.requestId call.id entry rfl entryId,
              decide_eq_false other, Bool.false_or]
          · rw [@holds_of_without routing _ response.requestId call.id rfl,
              decide_eq_true other, Bool.true_and]

end Routing

/-- At most one result: a failure of the connection, or what a response with the id of
the call says. -/
def AnsweredOnce (result : ResponseKind → Item) (call : Call) : Prop :=
  call.taken.length ≤ 1 ∧ ∀ item ∈ call.taken, (∃ error, Failure error ∧ item = .err error) ∨
    ∃ kind, call.frames.head? = some kind ∧ item = result kind

/-- A read yields the events of the batches with its id, in order; the registry has sent
every one of them; and its end without an error is the end that a response with its id
brings, behind all events of the batches before it. -/
structure ReadExactly (held : Bool) (call : Call) : Prop where
  yields : ∃ views, views <+: call.frames.flatMap ResponseKind.views ∧
    views.mapM sequencedFromPb = .ok (eventsOf call.taken)
  sent : held = true → call.phase ≠ .closed →
    (call.frames.flatMap ResponseKind.views).mapM sequencedFromPb =
      .ok (eventsOf (call.taken ++ call.channel))
  ends : call.done = true → (∀ error, Item.err error ∉ call.taken) →
    ∃ batches rest watermark, call.frames = batches ++ .readEnd watermark :: rest ∧
      (∀ kind ∈ batches, ∃ views, kind = .readEvents views) ∧
      (batches.flatMap ResponseKind.views).mapM sequencedFromPb = .ok (eventsOf call.taken) ∧
      call.watermark = some watermark

theorem Told.readExactly {held : Bool} {call : Call} (told : Told held call)
    (read : call.sink = .read) : ReadExactly held call := by
  have heard := told.heard
  rw [read] at heard
  constructor
  · exact heard.events
  · rintro rfl alive
    exact told.all_sent read alive
  · intro finished noError
    obtain ⟨front, last, takenEq, -, marks⟩ := (told.marked (by rw [read]; rfl)).done finished
    rcases marks with ⟨watermark, rfl, watermarkEq⟩ | ⟨error, rfl, -⟩
    · rw [takenEq] at heard ⊢
      obtain ⟨batches, rest, framesEq, only, decoded⟩ := heard.readEnd
      exact ⟨batches, rest, watermark, framesEq, only, decoded, watermarkEq⟩
    · exact absurd (by rw [takenEq]; simp) (noError error)

theorem Told.answeredOnce {held : Bool} {call : Call} {result : ResponseKind → Item}
    (told : Told held call) (once : call.sink.once = true)
    (delivers : ∀ kind, Client.deliver call.sink true kind = ([result kind], false)) :
    AnsweredOnce result call := by
  obtain ⟨short, only⟩ := told.heard.once once
  refine ⟨short, fun item mem => ?_⟩
  rcases only item mem with failed | ⟨kind, first, delivered⟩
  · exact Or.inl failed
  · right
    rw [delivers kind] at delivered
    cases delivered
    exact ⟨kind, first, rfl⟩

namespace Routing

end Routing

end Tephra.Client
