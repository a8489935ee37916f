import Mathlib

set_option autoImplicit false

namespace ReductStore

variable {α : Type} [LinearOrder α]

/-- Cells named by their lower bounds: the elements of a cell lie between its name and the next name. -/
structure Partitioned (cells : α → Option (Set α)) : Prop where
  above : ∀ (name : α) (cell : Set α) (element : α), cells name = some cell → element ∈ cell → name ≤ element
  below : ∀ (name next : α) (cell other : Set α) (element : α), cells name = some cell → cells next = some other →
    element ∈ cell → name < next → element < next
  inhabited : ∀ (name : α) (cell : Set α), cells name = some cell → cell.Nonempty

namespace Partitioned

variable {cells : α → Option (Set α)} {name : α} {cell : Set α} {element : α}

theorem greatest (partitioned : Partitioned cells) (found : cells name = some cell) (member : element ∈ cell)
    {next : α} {other : Set α} (present : cells next = some other) (early : next ≤ element) : next ≤ name := by
  by_contra later
  exact absurd (partitioned.below name next cell other element found present member (not_le.mp later)) early.not_gt

theorem unique (partitioned : Partitioned cells) (found : cells name = some cell) (member : element ∈ cell)
    {other : α} {second : Set α} (present : cells other = some second) (shared : element ∈ second) : name = other :=
  le_antisymm (partitioned.greatest present shared found (partitioned.above name cell element found member))
    (partitioned.greatest found member present (partitioned.above other second element present shared))

theorem restrict (partitioned : Partitioned cells) {smaller : α → Option (Set α)}
    (within : ∀ (name : α) (cell : Set α), smaller name = some cell →
      cell.Nonempty ∧ ∃ whole, cells name = some whole ∧ cell ⊆ whole) : Partitioned smaller where
  above name cell element found member := by
    obtain ⟨-, whole, before, included⟩ := within name cell found
    exact partitioned.above name whole element before (included member)
  below name next cell other element found following member earlier := by
    obtain ⟨-, whole, before, included⟩ := within name cell found
    obtain ⟨-, later, nextBefore, -⟩ := within next other following
    exact partitioned.below name next whole later element before nextBefore (included member) earlier
  inhabited name cell found := (within name cell found).1

theorem insert (partitioned : Partitioned cells) (found : cells name = some cell) (early : name ≤ element)
    (late : ∀ (next : α) (other : Set α), cells next = some other → name < next → element < next) :
    Partitioned (Function.update cells name (some (insert element cell))) := by
  have content (other : α) (second : Set α)
      (present : Function.update cells name (some (Insert.insert element cell)) other = some second)
      (item : α) (member : item ∈ second) : (other = name ∧ item = element) ∨
        ∃ old, cells other = some old ∧ item ∈ old := by
    by_cases same : other = name
    · subst same
      rw [Function.update_self, Option.some.injEq] at present
      subst present
      rcases member with rfl | old
      · exact Or.inl ⟨rfl, rfl⟩
      · exact Or.inr ⟨cell, found, old⟩
    · rw [Function.update_of_ne same] at present
      exact Or.inr ⟨second, present, member⟩
  have known (other : α) (second : Set α)
      (present : Function.update cells name (some (Insert.insert element cell)) other = some second) :
      ∃ old, cells other = some old := by
    by_cases same : other = name
    · exact ⟨cell, same ▸ found⟩
    · rw [Function.update_of_ne same] at present
      exact ⟨second, present⟩
  refine ⟨?_, ?_, ?_⟩
  · intro other second item present member
    rcases content other second present item member with ⟨rfl, rfl⟩ | ⟨old, before, was⟩
    · exact early
    · exact partitioned.above other old item before was
  · intro other next second third item present following member before
    obtain ⟨nextOld, nextFound⟩ := known next third following
    rcases content other second present item member with ⟨rfl, rfl⟩ | ⟨old, oldFound, was⟩
    · exact late next nextOld nextFound before
    · exact partitioned.below other next old nextOld item oldFound nextFound was before
  · intro other second present
    by_cases same : other = name
    · subst same
      rw [Function.update_self, Option.some.injEq] at present
      exact present ▸ Set.insert_nonempty element cell
    · rw [Function.update_of_ne same] at present
      exact partitioned.inhabited other second present

theorem add (partitioned : Partitioned cells)
    (late : ∀ (other : α) (second : Set α) (item : α), cells other = some second → item ∈ second → other < name →
      item < name) : Partitioned (Function.update cells name (some {name})) := by
  have old (other : α) (second : Set α) (present : Function.update cells name (some {name}) other = some second) :
      (other = name ∧ second = {name}) ∨ cells other = some second := by
    by_cases same : other = name
    · subst same
      rw [Function.update_self, Option.some.injEq] at present
      exact Or.inl ⟨rfl, present.symm⟩
    · rw [Function.update_of_ne same] at present
      exact Or.inr present
  refine ⟨?_, ?_, ?_⟩
  · intro other second item present member
    rcases old other second present with ⟨rfl, rfl⟩ | before
    · exact (Set.mem_singleton_iff.mp member).ge
    · exact partitioned.above other second item before member
  · intro other next second third item present following member before
    rcases old other second present with ⟨rfl, rfl⟩ | first
    · rwa [Set.mem_singleton_iff.mp member]
    · rcases old next third following with ⟨rfl, _⟩ | then_
      · exact late other second item first member before
      · exact partitioned.below other next second third item first then_ member before
  · intro other second present
    rcases old other second present with ⟨_, rfl⟩ | before
    · exact Set.singleton_nonempty name
    · exact partitioned.inhabited other second before

end Partitioned

end ReductStore
