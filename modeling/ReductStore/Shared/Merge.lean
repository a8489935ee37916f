import Mathlib

set_option autoImplicit false

namespace ReductStore

structure Merge (Source Item : Type) where
  delivered : Source → List Item
  queue : Source → List Item
  slot : Source → Option Item
  closed : Source → Bool
  output : List (Source × Item)

namespace Merge

variable {Source Item : Type} [DecidableEq Source]

def deliver (merge : Merge Source Item) (source : Source) (item : Item) : Merge Source Item :=
  { merge with
    delivered := Function.update merge.delivered source (merge.delivered source ++ [item])
    queue := Function.update merge.queue source (merge.queue source ++ [item]) }

def close (merge : Merge Source Item) (source : Source) : Merge Source Item :=
  { merge with closed := Function.update merge.closed source true }

def fetch (merge : Merge Source Item) (source : Source) (item : Item) (rest : List Item) : Merge Source Item :=
  { merge with
    slot := Function.update merge.slot source (some item)
    queue := Function.update merge.queue source rest }

def emit (merge : Merge Source Item) (source : Source) (item : Item) : Merge Source Item :=
  { merge with
    slot := Function.update merge.slot source none
    output := merge.output ++ [(source, item)] }

def waiting (merge : Merge Source Item) (source : Source) : List Item :=
  (merge.slot source).toList ++ merge.queue source

def emitted (merge : Merge Source Item) (source : Source) : List Item :=
  (merge.output.filter (·.1 = source)).map Prod.snd

variable {merge : Merge Source Item} {source : Source} {item : Item} {rest : List Item}

omit [DecidableEq Source] in
theorem waiting_held (held : merge.slot source = some item) : merge.waiting source = item :: merge.queue source := by
  simp [waiting, held]

theorem waiting_deliver (other : Source) :
    (merge.deliver source item).waiting other =
      if other = source then merge.waiting source ++ [item] else merge.waiting other := by
  by_cases same : other = source
  · subst same
    simp [waiting, deliver]
  · simp [waiting, deliver, same]

theorem waiting_fetch (vacant : merge.slot source = none) (queued : merge.queue source = item :: rest)
    (other : Source) : (merge.fetch source item rest).waiting other = merge.waiting other := by
  by_cases same : other = source
  · subst same
    simp [waiting, fetch, vacant, queued]
  · simp [waiting, fetch, same]

theorem waiting_emit (other : Source) :
    (merge.emit source item).waiting other = if other = source then merge.queue source else merge.waiting other := by
  by_cases same : other = source
  · subst same
    simp [waiting, emit]
  · simp [waiting, emit, same]

theorem emitted_emit (other : Source) :
    (merge.emit source item).emitted other =
      if other = source then merge.emitted source ++ [item] else merge.emitted other := by
  by_cases same : other = source
  · subst same
    simp [emitted, emit]
  · simp [emitted, emit, same, Ne.symm same]

section Conservation

def Conserved (merge : Merge Source Item) : Prop :=
  ∀ source, merge.emitted source ++ merge.waiting source = merge.delivered source

theorem Conserved.deliver (conserved : merge.Conserved) (source : Source) (item : Item) :
    (merge.deliver source item).Conserved := by
  intro other
  have emitted : (merge.deliver source item).emitted other = merge.emitted other := rfl
  rw [emitted, waiting_deliver]
  by_cases same : other = source
  · subst same
    simp [Merge.deliver, ← conserved other]
  · simp [Merge.deliver, same, conserved other]

theorem Conserved.fetch (conserved : merge.Conserved) (vacant : merge.slot source = none)
    (queued : merge.queue source = item :: rest) : (merge.fetch source item rest).Conserved := by
  intro other
  rw [waiting_fetch vacant queued]
  exact conserved other

theorem Conserved.emit (conserved : merge.Conserved) (held : merge.slot source = some item) :
    (merge.emit source item).Conserved := by
  intro other
  have delivered : (merge.emit source item).delivered other = merge.delivered other := rfl
  rw [delivered, emitted_emit, waiting_emit, ← conserved other]
  by_cases same : other = source
  · subst same
    simp [waiting_held held]
  · simp [same]

theorem Conserved.waiting_delivered (conserved : merge.Conserved) (inside : item ∈ merge.waiting source) :
    item ∈ merge.delivered source := by
  rw [← conserved source]
  exact List.mem_append_right _ inside

end Conservation

section Order

variable {Key : Type} [LinearOrder Key] {key : Source → Item → Key}

def Ascending (key : Source → Item → Key) (merge : Merge Source Item) : Prop :=
  ∀ source, (merge.delivered source).Pairwise fun first second => key source first ≤ key source second

theorem Ascending.deliver (ascending : merge.Ascending key)
    (greatest : ∀ earlier ∈ merge.delivered source, key source earlier ≤ key source item) :
    (merge.deliver source item).Ascending key := by
  intro other
  by_cases same : other = source
  · subst same
    simpa [Merge.deliver, List.pairwise_append, ascending other] using greatest
  · simpa [Merge.deliver, same] using ascending other

theorem Ascending.held_least (ascending : merge.Ascending key) (conserved : merge.Conserved)
    (held : merge.slot source = some item) {later : Item} (inside : later ∈ merge.queue source) :
    key source item ≤ key source later := by
  have sorted := ascending source
  rw [← conserved source, waiting_held held] at sorted
  exact (List.pairwise_cons.mp (List.pairwise_append.mp sorted).2.1).1 later inside

structure Reached (key : Source → Item → Key) (merge : Merge Source Item) (bound : Key) : Prop where
  waiting : ∀ source, ∀ item ∈ merge.waiting source, bound ≤ key source item
  coming : ∀ source, merge.closed source = false → ∃ item ∈ merge.delivered source, bound ≤ key source item

theorem Reached.deliver {bound : Key} (reached : merge.Reached key bound) (live : merge.closed source = false)
    (greatest : ∀ earlier ∈ merge.delivered source, key source earlier ≤ key source item) :
    (merge.deliver source item).Reached key bound where
  waiting := by
    intro other later inside
    rw [waiting_deliver] at inside
    by_cases same : other = source
    · subst same
      rw [if_pos rfl, List.mem_append, List.mem_singleton] at inside
      rcases inside with before | rfl
      · exact reached.waiting other later before
      · obtain ⟨earlier, member, below⟩ := reached.coming other live
        exact below.trans (greatest earlier member)
    · rw [if_neg same] at inside
      exact reached.waiting other later inside
  coming := by
    intro other still
    obtain ⟨earlier, member, below⟩ := reached.coming other still
    refine ⟨earlier, ?_, below⟩
    by_cases same : other = source
    · subst same
      simp [Merge.deliver, member]
    · simp [Merge.deliver, same, member]

theorem Reached.fetch {bound : Key} (reached : merge.Reached key bound) (vacant : merge.slot source = none)
    (queued : merge.queue source = item :: rest) : (merge.fetch source item rest).Reached key bound where
  waiting := by
    intro other later inside
    rw [waiting_fetch vacant queued] at inside
    exact reached.waiting other later inside
  coming := reached.coming

theorem Reached.close {bound : Key} (reached : merge.Reached key bound) (source : Source) :
    (merge.close source).Reached key bound where
  waiting := reached.waiting
  coming := by
    intro other still
    refine reached.coming other ?_
    by_cases same : other = source
    · simp [Merge.close, same] at still
    · simpa [Merge.close, same] using still

theorem Reached.emit {bound : Key} (reached : merge.Reached key bound) (held : merge.slot source = some item) :
    (merge.emit source item).Reached key bound where
  waiting := by
    intro other later inside
    rw [waiting_emit] at inside
    refine reached.waiting other later ?_
    split_ifs at inside with same
    · subst same
      rw [waiting_held held]
      exact List.mem_cons_of_mem _ inside
    · exact inside
  coming := reached.coming

structure Least (key : Source → Item → Key) (merge : Merge Source Item) (source : Source) (item : Item) : Prop where
  held : merge.slot source = some item
  least : ∀ other, (∃ next, merge.slot other = some next ∧ key source item ≤ key other next) ∨
    (merge.closed other = true ∧ merge.waiting other = [])

theorem Least.reached (least : merge.Least key source item) (conserved : merge.Conserved)
    (ascending : merge.Ascending key) : merge.Reached key (key source item) where
  waiting := by
    intro other later inside
    rcases least.least other with ⟨next, held, below⟩ | ⟨_, nothing⟩
    · rw [waiting_held held] at inside
      rcases List.mem_cons.mp inside with rfl | behind
      · exact below
      · exact below.trans (ascending.held_least conserved held behind)
    · rw [nothing] at inside
      cases inside
  coming := by
    intro other still
    rcases least.least other with ⟨next, held, below⟩ | ⟨ended, _⟩
    · refine ⟨next, conserved.waiting_delivered ?_, below⟩
      rw [waiting_held held]
      exact List.mem_cons_self
    · rw [still] at ended
      cases ended

structure Merged (key : Source → Item → Key) (merge : Merge Source Item) : Prop where
  conserved : merge.Conserved
  ascending : merge.Ascending key
  sorted : merge.output.Pairwise fun first second => key first.1 first.2 ≤ key second.1 second.2
  reached : ∀ sent ∈ merge.output, merge.Reached key (key sent.1 sent.2)

theorem Merged.deliver (merged : merge.Merged key) (live : merge.closed source = false)
    (greatest : ∀ earlier ∈ merge.delivered source, key source earlier ≤ key source item) :
    (merge.deliver source item).Merged key where
  conserved := merged.conserved.deliver source item
  ascending := merged.ascending.deliver greatest
  sorted := merged.sorted
  reached := fun sent inside => (merged.reached sent inside).deliver live greatest

theorem Merged.close (merged : merge.Merged key) (source : Source) : (merge.close source).Merged key where
  conserved := merged.conserved
  ascending := merged.ascending
  sorted := merged.sorted
  reached := fun sent inside => (merged.reached sent inside).close source

theorem Merged.fetch (merged : merge.Merged key) (vacant : merge.slot source = none)
    (queued : merge.queue source = item :: rest) : (merge.fetch source item rest).Merged key where
  conserved := merged.conserved.fetch vacant queued
  ascending := merged.ascending
  sorted := merged.sorted
  reached := fun sent inside => (merged.reached sent inside).fetch vacant queued

theorem Merged.emit (merged : merge.Merged key) (least : merge.Least key source item) :
    (merge.emit source item).Merged key where
  conserved := merged.conserved.emit least.held
  ascending := merged.ascending
  sorted := by
    refine List.pairwise_append.mpr ⟨merged.sorted, List.pairwise_singleton _ _, ?_⟩
    intro sent inside last isLast
    obtain rfl := List.mem_singleton.mp isLast
    refine (merged.reached sent inside).waiting source item ?_
    rw [waiting_held least.held]
    exact List.mem_cons_self
  reached := by
    intro sent inside
    rcases List.mem_append.mp inside with before | last
    · exact (merged.reached sent before).emit least.held
    · obtain rfl := List.mem_singleton.mp last
      exact (least.reached merged.conserved merged.ascending).emit least.held

end Order

end Merge

end ReductStore
