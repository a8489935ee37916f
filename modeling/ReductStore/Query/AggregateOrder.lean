import ReductStore.Query.Aggregate

set_option autoImplicit false

namespace ReductStore

namespace Aggregator

section Order

variable {aggregator after : Aggregator} {entry : String} {rest : List String}

def Ascends (aggregator : Aggregator) : Event → Prop
  | .deliver entry (.ok reader) => ∀ earlier ∈ aggregator.delivered entry,
      earlier.recordMeta.timestamp ≤ reader.recordMeta.timestamp
  | _ => True

def Shows (aggregator : Aggregator) : Event → Prop
  | .advance => aggregator.stage = .choose →
      ∀ entry ∈ aggregator.entryReceivers, aggregator.pendingReaders entry ≠ none ∨ entry ∈ aggregator.completed
  | _ => True

theorem key_le {first second : RecordReader} (ordered : first.recordMeta.timestamp ≤ second.recordMeta.timestamp)
    (entry : String) : key entry first ≤ key entry second :=
  Prod.Lex.toLex_le_toLex.mpr (ordered.lt_or_eq.imp id fun same => ⟨same, le_rfl⟩)

structure InOrder (aggregator : Aggregator) : Prop extends Attended aggregator where
  sorted : aggregator.sent.Pairwise fun first second => key first.1 first.2 ≤ key second.1 second.2
  merged : aggregator.stage ≠ .done → aggregator.merge.Merged key

theorem InOrder.of_merged (attended : aggregator.Attended) (merged : aggregator.merge.Merged key) :
    aggregator.InOrder :=
  { attended with sorted := merged.sorted, merged := fun _ => merged }

theorem Earliest.least_key {reader : RecordReader} (earliest : aggregator.Earliest entry reader) (attended : aggregator.Attended)
    (shown : ∀ entry ∈ aggregator.entryReceivers,
      aggregator.pendingReaders entry ≠ none ∨ entry ∈ aggregator.completed) :
    aggregator.merge.Least key entry reader where
  held := earliest.pending
  least := by
    intro other
    by_cases inside : other ∈ aggregator.entryReceivers
    · rcases shown other inside with pending | past
      · obtain ⟨next, held⟩ := Option.ne_none_iff_exists'.mp pending
        exact Or.inl ⟨next, held, earliest.least other inside next held⟩
      · obtain ⟨_, gone, nothing, vacant⟩ := attended.ended other past
        refine Or.inr ⟨by simp [merge, gone], ?_⟩
        simp [Merge.waiting, merge, QueryRx.readers, nothing, vacant]
    · obtain ⟨nothing, vacant⟩ := attended.listed other inside
      refine Or.inr ⟨by simp [merge, inside], ?_⟩
      simp [Merge.waiting, merge, QueryRx.readers, nothing, vacant]

theorem InOrder.chosen (ordered : aggregator.InOrder) (choosing : aggregator.stage = .choose)
    (shown : ∀ entry ∈ aggregator.entryReceivers,
      aggregator.pendingReaders entry ≠ none ∨ entry ∈ aggregator.completed)
    (step : Chosen aggregator after) : after.InOrder := by
  have attended := ordered.toAttended.chosen step
  have merged := ordered.merged (by simp [choosing])
  cases step with
  | ended _ _ =>
    refine .of_merged attended ?_
    rw [← merge_send_error aggregator HistoricalQuery.noContent] at merged
    exact merged
  | idle _ _ => exact .of_merged attended merged
  | @emitted entry reader earliest _ =>
    refine .of_merged attended ?_
    have emitted := merged.emit (earliest.least_key ordered.toAttended shown)
    rw [← merge_emit] at emitted
    exact emitted
  | lost _ _ => exact { attended with sorted := ordered.sorted, merged := fun going => absurd rfl going }

theorem InOrder.advance (ordered : aggregator.InOrder) (shown : aggregator.Shows .advance) :
    aggregator.advance.InOrder := by
  have attended := ordered.toAttended.advance
  rw [Aggregator.advance] at attended ⊢
  cases at_ : aggregator.stage with
  | start =>
    rw [at_] at attended
    exact .of_merged attended (ordered.merged (by simp [at_]))
  | poll rest =>
    have merged := ordered.merged (by simp [at_])
    rw [at_] at attended
    cases rest with
    | cons entry rest =>
      refine .of_merged attended ?_
      rcases (poll_polled aggregator entry rest).merge with same | ⟨reader, queue, vacant, queued, same⟩
      · rw [same]
        exact merged
      · rw [same]
        exact merged.fetch vacant queued
    | nil => exact .of_merged attended merged
  | fail failure =>
    rw [at_] at attended
    refine .of_merged attended ?_
    have merged := ordered.merged (by simp [at_])
    rw [← merge_send_error aggregator failure] at merged
    exact merged
  | choose => exact ordered.chosen at_ (shown at_) (choose_chosen aggregator)
  | done => exact ordered

theorem InOrder.apply (ordered : aggregator.InOrder) {event : Event} (permitted : aggregator.Connected event)
    (ascends : aggregator.Ascends event) (shown : aggregator.Shows event) : (aggregator.apply event).InOrder := by
  have attended := ordered.toAttended.apply permitted
  cases event with
  | deliver entry item =>
    refine { attended with sorted := ordered.sorted, merged := fun going => ?_ }
    have merged := ordered.merged going
    cases item with
    | ok reader =>
      rw [merge_deliver_record]
      refine merged.deliver ?_ fun earlier inside => key_le (ascends earlier inside) entry
      simp [merge, permitted.1, permitted.2]
    | error failure =>
      rw [merge_deliver_error]
      exact merged
  | disconnect entry =>
    refine { attended with sorted := ordered.sorted, merged := fun going => ?_ }
    rw [merge_disconnect]
    exact (ordered.merged going).close entry
  | closeOutput => exact { attended with sorted := ordered.sorted, merged := ordered.merged }
  | advance => exact ordered.advance shown

theorem inOrder_new (entryReceivers : List String) (distinct : entryReceivers.Nodup) :
    (new entryReceivers distinct).InOrder := by
  refine .of_merged (attended_new entryReceivers distinct) ?_
  exact {
    conserved := fun _ => rfl
    ascending := fun _ => .nil
    sorted := .nil
    reached := fun _ inside => by cases inside }

instance (aggregator : Aggregator) : (event : Event) → Decidable (aggregator.Ascends event)
  | .deliver entry (.ok reader) => inferInstanceAs (Decidable (∀ earlier ∈ aggregator.delivered entry,
      earlier.recordMeta.timestamp ≤ reader.recordMeta.timestamp))
  | .deliver _ (.error _) | .disconnect _ | .closeOutput | .advance => isTrue trivial

instance (aggregator : Aggregator) : (event : Event) → Decidable (aggregator.Shows event)
  | .advance => inferInstanceAs (Decidable (aggregator.stage = .choose → ∀ entry ∈ aggregator.entryReceivers,
      aggregator.pendingReaders entry ≠ none ∨ entry ∈ aggregator.completed))
  | .deliver _ _ | .disconnect _ | .closeOutput => isTrue trivial

def promptDeliveries : List Event :=
  [.deliver "b" (.ok (readerAt "b" 2)), .deliver "a" (.ok (readerAt "a" 1))] ++ turnOfTwo ++
    .deliver "a" (.ok (readerAt "a" 3)) :: turnOfTwo

def lateDelivery : List Event :=
  .deliver "b" (.ok (readerAt "b" 2)) :: turnOfTwo ++ .deliver "a" (.ok (readerAt "a" 1)) :: turnOfTwo

end Order

end Aggregator

end ReductStore
