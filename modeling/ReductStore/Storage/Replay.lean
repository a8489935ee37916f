import ReductStore.Storage.Wal
import ReductStore.Storage.Layout

set_option autoImplicit false

namespace ReductStore

namespace Block

def finished (block : Block) (time : Nat) : Option Record :=
  (block.getRecord time).filter (fun record => record.state = .finished)

theorem finished_iff (block : Block) (time : Nat) (record : Record) :
    block.finished time = some record ↔ block.getRecord time = some record ∧ record.state = .finished := by
  simp [finished, Option.filter_eq_some_iff]

@[simp] theorem finished_new (blockId time : Nat) : (new blockId).finished time = none := by
  simp [finished]

section Insert

variable [Codec]

theorem finished_insertOrUpdate (block : Block) (record : Record) (time : Nat) :
    (block.insertOrUpdateRecord record).finished time =
      if time = record.timestamp then (if record.state = .finished then some record else none)
      else block.finished time := by
  unfold finished
  rw [getRecord_insertOrUpdate]
  by_cases same : time = record.timestamp
  · by_cases state : record.state = .finished <;> simp [same, state, Option.filter]
  · simp [same]

theorem finished_removeRecord (block : Block) (removed time : Nat) :
    (block.removeRecord removed).finished time = if time = removed then none else block.finished time := by
  unfold finished
  rw [getRecord_removeRecord]
  by_cases same : time = removed <;> simp [same]

theorem finished_insert_unfinished (block : Block) (record : Record) (started : record.state ≠ .finished)
    (replaced : ∀ old, block.getRecord record.timestamp = some old → old.state ≠ .finished) :
    (block.insertOrUpdateRecord record).finished = block.finished := by
  funext time
  rw [finished_insertOrUpdate]
  by_cases same : time = record.timestamp
  · subst same
    have absent : block.finished record.timestamp = none := by
      rw [Option.eq_none_iff_forall_ne_some]
      intro old found
      obtain ⟨present, state⟩ := (finished_iff block _ old).mp found
      exact replaced old present state
    simp [started, absent]
  · simp [same]

end Insert

end Block

variable [Codec]

def replay (block : Block) : List WalEntry → Block × Bool
  | [] => (block, false)
  | .writeRecord record :: rest => replay (block.insertOrUpdateRecord record) rest
  | .updateRecord record :: rest => replay (block.insertOrUpdateRecord record) rest
  | .removeBlock :: _ => (block, true)
  | .removeRecord timestamp :: rest => replay (block.removeRecord timestamp) rest

theorem replay_append (block : Block) (first second : List WalEntry) (kept : .removeBlock ∉ first) :
    replay block (first ++ second) = replay (replay block first).1 second := by
  induction first generalizing block with
  | nil => rfl
  | cons entry rest ih =>
    have keptRest : WalEntry.removeBlock ∉ rest := fun member => kept (List.mem_cons_of_mem _ member)
    cases entry with
    | writeRecord record => exact ih _ keptRest
    | updateRecord record => exact ih _ keptRest
    | removeBlock => exact absurd (by simp) kept
    | removeRecord timestamp => exact ih _ keptRest

theorem replay_blockId (block : Block) (entries : List WalEntry) : (replay block entries).1.blockId = block.blockId := by
  induction entries generalizing block with
  | nil => rfl
  | cons entry rest ih =>
    cases entry with
    | writeRecord record => exact (ih _).trans (Block.blockId_insertOrUpdate block record)
    | updateRecord record => exact (ih _).trans (Block.blockId_insertOrUpdate block record)
    | removeBlock => rfl
    | removeRecord timestamp => exact (ih _).trans (Block.blockId_removeRecord block timestamp)

theorem replay_finished (first second : Block) (entries : List WalEntry) (same : first.finished = second.finished) :
    (replay first entries).1.finished = (replay second entries).1.finished := by
  induction entries generalizing first second with
  | nil => exact same
  | cons entry rest ih =>
    cases entry with
    | writeRecord record =>
      refine ih _ _ (funext fun time => ?_)
      rw [Block.finished_insertOrUpdate, Block.finished_insertOrUpdate, same]
    | updateRecord record =>
      refine ih _ _ (funext fun time => ?_)
      rw [Block.finished_insertOrUpdate, Block.finished_insertOrUpdate, same]
    | removeBlock => exact same
    | removeRecord timestamp =>
      refine ih _ _ (funext fun time => ?_)
      rw [Block.finished_removeRecord, Block.finished_removeRecord, same]

theorem replay_updates (block : Block) (records : List Record) :
    replay block (records.map .updateRecord) = (records.foldl Block.insertOrUpdateRecord block, false) := by
  induction records generalizing block with
  | nil => rfl
  | cons record rest ih => exact ih (block.insertOrUpdateRecord record)

def WalEntry.concerns (time : Nat) : WalEntry → Bool
  | .writeRecord record => record.timestamp = time
  | .updateRecord record => record.timestamp = time
  | .removeBlock => false
  | .removeRecord timestamp => timestamp = time

def mentions (entries : List WalEntry) (time : Nat) : Bool := entries.any (WalEntry.concerns time)

theorem replay_unmentioned (entries : List WalEntry) (block : Block) (time : Nat)
    (silent : mentions entries time = false) : (replay block entries).1.getRecord time = block.getRecord time := by
  induction entries generalizing block with
  | nil => rfl
  | cons entry rest ih =>
    obtain ⟨other, later⟩ : entry.concerns time = false ∧ mentions rest time = false := by
      simpa [mentions] using silent
    cases entry with
    | removeBlock => rfl
    | _ =>
      simp only [WalEntry.concerns, decide_eq_false_iff_not] at other
      rw [replay, ih _ later]
      simp [Ne.symm other]

theorem replay_mentioned (entries : List WalEntry) (first second : Block) (time : Nat)
    (told : mentions entries time = true) (kept : .removeBlock ∉ entries) :
    (replay first entries).1.getRecord time = (replay second entries).1.getRecord time := by
  induction entries generalizing first second with
  | nil => simp [mentions] at told
  | cons entry rest ih =>
    have keptRest : WalEntry.removeBlock ∉ rest := fun member => kept (List.mem_cons_of_mem _ member)
    cases later : mentions rest time with
    | true =>
      cases entry with
      | removeBlock => exact absurd (by simp) kept
      | _ => exact ih _ _ later keptRest
    | false =>
      -- the first entry has the last word
      have own : entry.concerns time = true := by
        rw [mentions, List.any_cons, ← mentions, later, Bool.or_false] at told
        exact told
      cases entry with
      | removeBlock => exact absurd (by simp) kept
      | _ =>
        simp only [WalEntry.concerns, decide_eq_true_eq] at own
        rw [replay, replay, replay_unmentioned rest _ time later, replay_unmentioned rest _ time later]
        simp [own]

end ReductStore
