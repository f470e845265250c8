import Mathlib.Data.List.Basic
import Mathlib.Tactic.Common

/-!
# Chains of self-delimiting items

A decoder reads one item at an offset and says where the item ends, so the
contents of a log are a chain of items from offset to offset.  Some items are
marked, and the part of a log that counts is the longest chain that ends in a
marked item.  Nothing here depends on how an item is encoded.
-/

namespace FrameChain

variable {Item : Type*}

/-- Reads the item at an offset and the offset just after it. -/
abbrev Decoder (Item : Type*) := Nat → Option (Item × Nat)

/-- The items read one after another from one offset up to another, each with
the offset it was read at. -/
inductive Chain (decode : Decoder Item) : Nat → List (Nat × Item) → Nat → Prop
  | nil (offset : Nat) : Chain decode offset [] offset
  | cons {offset next stop : Nat} {item : Item} {items : List (Nat × Item)}
      (here : decode offset = some (item, next))
      (rest : Chain decode next items stop) :
      Chain decode offset ((offset, item) :: items) stop

/-- Every decoded item is nonempty and ends inside the first `limit` bytes. -/
def Advances (decode : Decoder Item) (limit : Nat) : Prop :=
  ∀ offset item next, decode offset = some (item, next) →
    offset < next ∧ next ≤ limit

variable {decode : Decoder Item}

@[simp]
theorem chain_nil_iff {start stop : Nat} :
    Chain decode start [] stop ↔ start = stop := by
  constructor
  · rintro ⟨⟩
    rfl
  · rintro rfl
    exact .nil start

theorem chain_cons_iff {start stop offset : Nat} {item : Item}
    {items : List (Nat × Item)} :
    Chain decode start ((offset, item) :: items) stop ↔
      offset = start ∧
        ∃ next, decode start = some (item, next) ∧ Chain decode next items stop := by
  constructor
  · intro chain
    cases chain with
    | cons here rest => exact ⟨rfl, _, here, rest⟩
  · rintro ⟨rfl, next, here, rest⟩
    exact .cons here rest

theorem Chain.single {start stop : Nat} {item : Item}
    (here : decode start = some (item, stop)) :
    Chain decode start [(start, item)] stop :=
  .cons here (.nil stop)

theorem Chain.append {start middle stop : Nat} {left right : List (Nat × Item)}
    (leftChain : Chain decode start left middle)
    (rightChain : Chain decode middle right stop) :
    Chain decode start (left ++ right) stop := by
  induction leftChain with
  | nil _ => exact rightChain
  | cons here _ ih => exact .cons here (ih rightChain)

theorem Chain.split {start stop : Nat} {left right : List (Nat × Item)}
    (chain : Chain decode start (left ++ right) stop) :
    ∃ middle, Chain decode start left middle ∧ Chain decode middle right stop := by
  induction left generalizing start with
  | nil => exact ⟨start, .nil start, chain⟩
  | cons entry left ih =>
      obtain ⟨offset, item⟩ := entry
      obtain ⟨rfl, next, here, rest⟩ := chain_cons_iff.mp chain
      obtain ⟨middle, leftChain, rightChain⟩ := ih rest
      exact ⟨middle, .cons here leftChain, rightChain⟩

/-- Two chains from one offset agree as far as the shorter one goes. -/
theorem Chain.comparable {start stop stop' : Nat} {items items' : List (Nat × Item)}
    (chain : Chain decode start items stop)
    (chain' : Chain decode start items' stop') :
    (∃ extra, items' = items ++ extra ∧ Chain decode stop extra stop') ∨
      ∃ extra, items = items' ++ extra ∧ Chain decode stop' extra stop := by
  induction chain generalizing items' with
  | nil _ => exact .inl ⟨items', rfl, chain'⟩
  | @cons offset next stop item items here rest ih =>
      cases chain' with
      | nil _ => exact .inr ⟨_, rfl, .cons here rest⟩
      | @cons _ next' _ item' items' here' rest' =>
          obtain ⟨rfl, rfl⟩ : item' = item ∧ next' = next := by
            simpa using here'.symm.trans here
          rcases ih rest' with ⟨extra, rfl, extraChain⟩ | ⟨extra, rfl, extraChain⟩
          · exact .inl ⟨extra, rfl, extraChain⟩
          · exact .inr ⟨extra, rfl, extraChain⟩

theorem Chain.stop_unique {start stop stop' : Nat} {items : List (Nat × Item)}
    (chain : Chain decode start items stop)
    (chain' : Chain decode start items stop') :
    stop = stop' := by
  rcases chain.comparable chain' with ⟨extra, same, extraChain⟩ | ⟨extra, same, extraChain⟩
  · obtain rfl : extra = [] := by simpa using same
    simpa using extraChain
  · obtain rfl : extra = [] := by simpa using same
    exact (chain_nil_iff.mp extraChain).symm

theorem Chain.extends_of_stuck {start stop stop' : Nat} {items items' : List (Nat × Item)}
    (chain : Chain decode start items stop) (stuck : decode stop = none)
    (chain' : Chain decode start items' stop') :
    ∃ extra, items = items' ++ extra ∧ Chain decode stop' extra stop := by
  rcases chain.comparable chain' with ⟨extra, rfl, extraChain⟩ | longer
  · cases extraChain with
    | nil _ => exact ⟨[], by simp, .nil _⟩
    | cons here _ => simp [stuck] at here
  · exact longer

/-- A chain up to where the decoder stops begins with the item at its start. -/
theorem Chain.eq_cons_of_stuck {start stop next : Nat} {items : List (Nat × Item)} {item : Item}
    (chain : Chain decode start items stop) (stuck : decode stop = none)
    (here : decode start = some (item, next)) :
    ∃ rest, items = (start, item) :: rest ∧ Chain decode next rest stop := by
  cases chain with
  | nil _ => simp [here] at stuck
  | cons here' rest =>
      obtain ⟨rfl, rfl⟩ := by simpa [here] using here'
      exact ⟨_, rfl, rest⟩

theorem Chain.le {limit start stop : Nat} {items : List (Nat × Item)}
    (advances : Advances decode limit) (chain : Chain decode start items stop) :
    start + items.length ≤ stop := by
  induction chain with
  | nil _ => simp
  | cons here _ ih =>
      have step := (advances _ _ _ here).1
      simp only [List.length_cons]
      omega

theorem Chain.stop_le {limit start stop : Nat} {items : List (Nat × Item)}
    (advances : Advances decode limit) (chain : Chain decode start items stop) :
    stop = start ∨ stop ≤ limit := by
  induction chain with
  | nil _ => exact .inl rfl
  | cons here _ ih =>
      have bound := (advances _ _ _ here).2
      omega

theorem Chain.mem_bounds {limit start stop : Nat} {items : List (Nat × Item)}
    {entry : Nat × Item} (advances : Advances decode limit)
    (chain : Chain decode start items stop) (member : entry ∈ items) :
    start ≤ entry.1 ∧ entry.1 < stop := by
  induction chain with
  | nil _ => simp at member
  | cons here rest ih =>
      have step := (advances _ _ _ here).1
      have restLe := rest.le advances
      rcases List.mem_cons.mp member with rfl | later
      · exact ⟨Nat.le_refl _, by omega⟩
      · have bounds := ih later
        omega

/-- Every item of a chain is read at its offset. -/
theorem Chain.decode_of_mem {limit start stop : Nat} {items : List (Nat × Item)}
    {entry : Nat × Item} (advances : Advances decode limit)
    (chain : Chain decode start items stop) (member : entry ∈ items) :
    ∃ next ≤ stop, decode entry.1 = some (entry.2, next) := by
  induction chain with
  | nil _ => simp at member
  | cons here rest ih =>
      rcases List.mem_cons.mp member with rfl | later
      · have restLe := rest.le advances
        exact ⟨_, by omega, here⟩
      · exact ih later

/-- From every offset some chain runs until the decoder stops. -/
theorem exists_stuck_chain {limit : Nat} (advances : Advances decode limit)
    (start : Nat) :
    ∃ items stop, Chain decode start items stop ∧ decode stop = none := by
  induction gap : limit - start using Nat.strongRecOn generalizing start with
  | ind gap ih =>
      cases here : decode start with
      | none => exact ⟨[], start, .nil start, here⟩
      | some found =>
          obtain ⟨item, next⟩ := found
          have bounds := advances _ _ _ here
          obtain ⟨items, stop, chain, stuck⟩ :=
            ih (limit - next) (by omega) next rfl
          exact ⟨_, stop, .cons here chain, stuck⟩

/-- A chain survives in every decoder that reads its items the same way. -/
theorem Chain.transfer {other : Decoder Item} {limit start stop : Nat}
    {items : List (Nat × Item)} (advances : Advances decode limit)
    (chain : Chain decode start items stop)
    (same : ∀ offset item next, start ≤ offset → next ≤ stop →
      decode offset = some (item, next) → other offset = some (item, next)) :
    Chain other start items stop := by
  induction chain with
  | nil _ => exact .nil _
  | cons here rest ih =>
      have step := (advances _ _ _ here).1
      have restLe := rest.le advances
      refine .cons (same _ _ _ (Nat.le_refl _) (by omega) here) (ih ?_)
      intro offset item next above below
      exact same offset item next (by omega) below

/-- Chains whose items are each read in one of several ways. -/
inductive Woven (reads : Nat → Item → Nat → Prop) : Nat → List (Nat × Item) → Nat → Prop
  | nil (offset : Nat) : Woven reads offset [] offset
  | cons {offset next stop : Nat} {item : Item} {items : List (Nat × Item)}
      (here : reads offset item next) (rest : Woven reads next items stop) :
      Woven reads offset ((offset, item) :: items) stop

variable {reads : Nat → Item → Nat → Prop}

theorem Chain.woven {limit start stop : Nat} {items : List (Nat × Item)}
    (advances : Advances decode limit) (chain : Chain decode start items stop)
    (found : ∀ offset item next, start ≤ offset → decode offset = some (item, next) →
      reads offset item next) : Woven reads start items stop := by
  induction chain with
  | nil offset => exact .nil offset
  | cons here rest ih =>
      have step := (advances _ _ _ here).1
      refine .cons (found _ _ _ (Nat.le_refl _) here) (ih ?_)
      intro offset item next above
      exact found offset item next (by omega)

theorem Woven.imp {other : Nat → Item → Nat → Prop} {start stop : Nat}
    {items : List (Nat × Item)} (woven : Woven reads start items stop)
    (weaker : ∀ offset item next, reads offset item next → other offset item next) :
    Woven other start items stop := by
  induction woven with
  | nil offset => exact .nil offset
  | cons here rest ih => exact .cons (weaker _ _ _ here) ih

/-- Where one decoder reads whatever is read at all, a woven chain is a chain of it. -/
theorem Woven.chain {limit start stop : Nat} {items : List (Nat × Item)}
    (advances : Advances decode limit) (woven : Woven reads start items stop)
    (same : ∀ offset item next, start ≤ offset → reads offset item next →
      decode offset = some (item, next)) : Chain decode start items stop := by
  induction woven with
  | nil offset => exact .nil offset
  | cons here rest ih =>
      have decoded := same _ _ _ (Nat.le_refl _) here
      have step := (advances _ _ _ decoded).1
      refine .cons decoded (ih ?_)
      intro offset item next above
      exact same offset item next (by omega)

section Marked

variable {marked : Item → Prop}

/-- A list of items whose last one is marked. -/
def EndsMarked (marked : Item → Prop) (items : List (Nat × Item)) : Prop :=
  ∃ before entry, items = before ++ [entry] ∧ marked entry.2

/-- No chain from `start` ends in a marked item. -/
def Unmarked (decode : Decoder Item) (marked : Item → Prop) (start : Nat) : Prop :=
  ∀ items stop, Chain decode start items stop → ¬ EndsMarked marked items

/-- The longest chain from `start` that is empty or ends in a marked item. -/
structure MarkedPrefix (decode : Decoder Item) (marked : Item → Prop)
    (start : Nat) (items : List (Nat × Item)) (stop : Nat) : Prop where
  chain : Chain decode start items stop
  ends : items = [] ∨ EndsMarked marked items
  longest : Unmarked decode marked stop

theorem EndsMarked.append_left {left right : List (Nat × Item)}
    (ends : EndsMarked marked right) :
    EndsMarked marked (left ++ right) := by
  obtain ⟨before, entry, rfl, isMarked⟩ := ends
  exact ⟨left ++ before, entry, by simp, isMarked⟩

theorem EndsMarked.exists_mem {items : List (Nat × Item)}
    (ends : EndsMarked marked items) :
    ∃ entry ∈ items, marked entry.2 := by
  obtain ⟨before, entry, rfl, isMarked⟩ := ends
  exact ⟨entry, by simp, isMarked⟩

theorem EndsMarked.of_append {left right : List (Nat × Item)}
    (ends : EndsMarked marked (left ++ right)) (nonempty : right ≠ []) :
    EndsMarked marked right := by
  obtain ⟨before, entry, same, isMarked⟩ := ends
  obtain ⟨front, last, rfl⟩ := List.eq_nil_or_concat' right |>.resolve_left nonempty
  rw [← List.append_assoc] at same
  have lastEq : last = entry := by
    simpa using (List.append_inj' same rfl).2
  exact ⟨front, last, rfl, lastEq ▸ isMarked⟩

theorem unmarked_of_decode_none {start : Nat} (stuck : decode start = none) :
    Unmarked decode marked start := by
  rintro items stop chain ⟨before, entry, rfl, _⟩
  cases before with
  | nil =>
      obtain ⟨_, next, here, _⟩ := chain_cons_iff.mp chain
      simp [stuck] at here
  | cons first before =>
      obtain ⟨_, next, here, _⟩ := chain_cons_iff.mp chain
      simp [stuck] at here

/-- An unmarked item may precede an offset without a marked chain. -/
theorem unmarked_of_next {start next : Nat} {item : Item}
    (here : decode start = some (item, next)) (plain : ¬ marked item)
    (later : Unmarked decode marked next) :
    Unmarked decode marked start := by
  intro items stop chain ends
  cases chain with
  | nil =>
      obtain ⟨before, entry, same, _⟩ := ends
      simp at same
  | cons here' rest =>
      obtain ⟨rfl, rfl⟩ := by simpa [here] using here'
      rename_i items
      by_cases alone : items = []
      · obtain ⟨entry, member, isMarked⟩ := ends.exists_mem
        obtain rfl : entry = (start, item) := by simpa [alone] using member
        exact plain isMarked
      · have whole : EndsMarked marked ([(start, item)] ++ items) := ends
        exact later _ _ rest (whole.of_append alone)

theorem unmarked_of_stuck {start stop : Nat} {pending : List (Nat × Item)}
    (chain : Chain decode start pending stop) (stuck : decode stop = none)
    (plain : ∀ entry ∈ pending, ¬ marked entry.2) :
    Unmarked decode marked start := by
  intro items stop' chain' ends
  obtain ⟨extra, rfl, _⟩ := chain.extends_of_stuck stuck chain'
  obtain ⟨entry, member, isMarked⟩ := ends.exists_mem
  exact plain entry (by simp [member]) isMarked

theorem MarkedPrefix.contains {start stop stop' : Nat}
    {items items' : List (Nat × Item)}
    (longest : MarkedPrefix decode marked start items stop)
    (chain' : Chain decode start items' stop') (ends : EndsMarked marked items') :
    ∃ extra, items = items' ++ extra ∧ Chain decode stop' extra stop := by
  rcases longest.chain.comparable chain' with ⟨extra, rfl, extraChain⟩ | inside
  · rcases List.eq_nil_or_concat' extra with rfl | ⟨_, _, rfl⟩
    · exact ⟨[], by simp, by simpa using (chain_nil_iff.mp extraChain).symm⟩
    · exact absurd (ends.of_append (by simp)) (longest.longest _ _ extraChain)
  · exact inside

/-- The marked prefix from an offset is unique. -/
theorem MarkedPrefix.unique {start stop stop' : Nat} {items items' : List (Nat × Item)}
    (left : MarkedPrefix decode marked start items stop)
    (right : MarkedPrefix decode marked start items' stop') :
    items = items' ∧ stop = stop' := by
  have sameItems : items = items' := by
    rcases left.chain.comparable right.chain with
      ⟨extra, rfl, extraChain⟩ | ⟨extra, rfl, extraChain⟩
    · rcases List.eq_nil_or_concat' extra with rfl | ⟨_, _, rfl⟩
      · simp
      · refine absurd ?_ (left.longest _ _ extraChain)
        exact (right.ends.resolve_left (by simp)).of_append (by simp)
    · rcases List.eq_nil_or_concat' extra with rfl | ⟨_, _, rfl⟩
      · simp
      · refine absurd ?_ (right.longest _ _ extraChain)
        exact (left.ends.resolve_left (by simp)).of_append (by simp)
  subst sameItems
  exact ⟨rfl, left.chain.stop_unique right.chain⟩

end Marked

end FrameChain
