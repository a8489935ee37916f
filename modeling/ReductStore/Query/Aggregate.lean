import ReductStore.Query.Historical
import ReductStore.Shared.Machine
import ReductStore.Shared.Merge

set_option autoImplicit false

namespace ReductStore

abbrev QueryItem := Except ReductError RecordReader

inductive TryRecvError where
  | empty
  | disconnected
  deriving DecidableEq

structure QueryRx where
  items : List QueryItem
  disconnected : Bool

def QueryRx.tryRecv (channel : QueryRx) : Except TryRecvError QueryItem × QueryRx :=
  match channel.items with
  | item :: items => (.ok item, { channel with items })
  | [] => (.error (if channel.disconnected then .disconnected else .empty), channel)

def QueryRx.readers (channel : QueryRx) : List RecordReader := channel.items.filterMap Except.toOption

inductive AggregateStage where
  | start
  | poll (rest : List String)
  | fail (failure : ReductError)
  | choose
  | done
  deriving DecidableEq

structure Aggregator where
  entryReceivers : List String
  distinct : entryReceivers.Nodup
  channel : String → QueryRx
  pendingReaders : String → Option RecordReader
  completed : List String
  stage : AggregateStage
  output : List (Except ReductError (String × RecordReader))
  outputClosed : Bool
  -- all that the queries have sent, which the loop does not read
  delivered : String → List RecordReader

namespace Aggregator

def new (entryReceivers : List String) (distinct : entryReceivers.Nodup) : Aggregator :=
  { entryReceivers, distinct
    channel := fun _ => { items := [], disconnected := false }
    pendingReaders := fun _ => none
    completed := []
    stage := .start
    output := []
    outputClosed := false
    delivered := fun _ => [] }

def send (aggregator : Aggregator) (item : Except ReductError (String × RecordReader)) : Aggregator :=
  if aggregator.outputClosed then aggregator else { aggregator with output := aggregator.output ++ [item] }

def poll (aggregator : Aggregator) (entry : String) (rest : List String) : Aggregator :=
  if (aggregator.pendingReaders entry).isSome ∨ entry ∈ aggregator.completed then
    { aggregator with stage := .poll rest }
  else
    match (aggregator.channel entry).tryRecv with
    | (.ok (.ok reader), channel) =>
      { aggregator with
        channel := Function.update aggregator.channel entry channel
        pendingReaders := Function.update aggregator.pendingReaders entry (some reader)
        stage := .poll rest }
    | (.ok (.error failure), channel) =>
      { aggregator with
        channel := Function.update aggregator.channel entry channel
        stage := if failure.status ≠ .noContent then .fail failure else .poll rest }
    | (.error .disconnected, _) =>
      { aggregator with completed := aggregator.completed.insert entry, stage := .poll rest }
    | (.error .empty, _) => { aggregator with stage := .poll rest }

def key (entry : String) (reader : RecordReader) : Nat ×ₗ String := toLex (reader.recordMeta.timestamp, entry)

def nextEntry (aggregator : Aggregator) : Option (Nat ×ₗ String) :=
  (aggregator.entryReceivers.filterMap fun entry => (aggregator.pendingReaders entry).map (key entry)).min?

def choose (aggregator : Aggregator) : Aggregator :=
  if aggregator.completed.length = aggregator.entryReceivers.length ∧
      ∀ entry ∈ aggregator.entryReceivers, aggregator.pendingReaders entry = none then
    { aggregator.send (.error HistoricalQuery.noContent) with stage := .done }
  else
    match aggregator.nextEntry with
    -- the loop sleeps before the next turn if it has received nothing
    | none => { aggregator with stage := .start }
    | some least =>
      let entry := (ofLex least).2
      match aggregator.pendingReaders entry with
      | none => { aggregator with stage := .start }
      | some reader =>
        let taken := { aggregator with pendingReaders := Function.update aggregator.pendingReaders entry none }
        { taken.send (.ok (entry, reader)) with stage := if taken.outputClosed then .done else .start }

def advance (aggregator : Aggregator) : Aggregator :=
  match aggregator.stage with
  | .start =>
    { aggregator with stage := if aggregator.outputClosed then .done else .poll aggregator.entryReceivers }
  | .poll (entry :: rest) => aggregator.poll entry rest
  | .poll [] => { aggregator with stage := .choose }
  | .fail failure => { aggregator.send (.error failure) with stage := .done }
  | .choose => aggregator.choose
  | .done => aggregator

inductive Event where
  | deliver (entry : String) (item : QueryItem)
  | disconnect (entry : String)
  | closeOutput
  | advance

def apply (aggregator : Aggregator) : Event → Aggregator
  | .deliver entry item =>
    let channel := aggregator.channel entry
    { aggregator with
      channel := Function.update aggregator.channel entry { channel with items := channel.items ++ [item] }
      delivered := Function.update aggregator.delivered entry (aggregator.delivered entry ++ item.toOption.toList) }
  | .disconnect entry =>
    { aggregator with
      channel := Function.update aggregator.channel entry { aggregator.channel entry with disconnected := true } }
  | .closeOutput => { aggregator with outputClosed := true }
  | .advance => aggregator.advance

def Connected (aggregator : Aggregator) : Event → Prop
  | .deliver entry _ => entry ∈ aggregator.entryReceivers ∧ (aggregator.channel entry).disconnected = false
  | .disconnect entry => entry ∈ aggregator.entryReceivers
  | .closeOutput => True
  | .advance => True

def sent (aggregator : Aggregator) : List (String × RecordReader) := aggregator.output.filterMap Except.toOption

def sentOf (aggregator : Aggregator) (entry : String) : List RecordReader :=
  (aggregator.sent.filter (·.1 = entry)).map Prod.snd

section Steps

inductive Polled (aggregator : Aggregator) (entry : String) (rest : List String) : Aggregator → Prop where
  | settled (known : (aggregator.pendingReaders entry).isSome ∨ entry ∈ aggregator.completed) :
      Polled aggregator entry rest { aggregator with stage := .poll rest }
  | received {reader : RecordReader} {items : List QueryItem} (vacant : aggregator.pendingReaders entry = none)
      (going : entry ∉ aggregator.completed) (front : (aggregator.channel entry).items = .ok reader :: items) :
      Polled aggregator entry rest { aggregator with
        channel := Function.update aggregator.channel entry { aggregator.channel entry with items }
        pendingReaders := Function.update aggregator.pendingReaders entry (some reader)
        stage := .poll rest }
  | refused {failure : ReductError} {items : List QueryItem} (vacant : aggregator.pendingReaders entry = none)
      (going : entry ∉ aggregator.completed) (front : (aggregator.channel entry).items = .error failure :: items) :
      Polled aggregator entry rest { aggregator with
        channel := Function.update aggregator.channel entry { aggregator.channel entry with items }
        stage := if failure.status ≠ .noContent then .fail failure else .poll rest }
  | ended (vacant : aggregator.pendingReaders entry = none) (going : entry ∉ aggregator.completed)
      (nothing : (aggregator.channel entry).items = []) (gone : (aggregator.channel entry).disconnected = true) :
      Polled aggregator entry rest
        { aggregator with completed := entry :: aggregator.completed, stage := .poll rest }
  | idle (vacant : aggregator.pendingReaders entry = none) (going : entry ∉ aggregator.completed)
      (nothing : (aggregator.channel entry).items = []) (live : (aggregator.channel entry).disconnected = false) :
      Polled aggregator entry rest { aggregator with stage := .poll rest }

theorem poll_polled (aggregator : Aggregator) (entry : String) (rest : List String) :
    Polled aggregator entry rest (aggregator.poll entry rest) := by
  rw [poll]
  split_ifs with known
  · exact .settled known
  · obtain ⟨vacant, going⟩ := not_or.mp known
    have vacant : aggregator.pendingReaders entry = none := by simpa using vacant
    rw [QueryRx.tryRecv]
    cases front : (aggregator.channel entry).items with
    | cons item items =>
      cases item with
      | ok reader => exact .received vacant going front
      | error failure => exact .refused vacant going front
    | nil =>
      cases gone : (aggregator.channel entry).disconnected with
      | true =>
        simp only [if_true, List.insert_of_not_mem going]
        exact .ended vacant going front gone
      | false => exact .idle vacant going front gone

structure Earliest (aggregator : Aggregator) (entry : String) (reader : RecordReader) : Prop where
  pending : aggregator.pendingReaders entry = some reader
  listed : entry ∈ aggregator.entryReceivers
  least : ∀ other ∈ aggregator.entryReceivers, ∀ next, aggregator.pendingReaders other = some next →
    key entry reader ≤ key other next

theorem nextEntry_none {aggregator : Aggregator} (nothing : aggregator.nextEntry = none) :
    ∀ entry ∈ aggregator.entryReceivers, aggregator.pendingReaders entry = none := by
  rw [nextEntry, List.min?_eq_none_iff, List.filterMap_eq_nil_iff] at nothing
  simpa using nothing

theorem nextEntry_some {aggregator : Aggregator} {least : Nat ×ₗ String} (found : aggregator.nextEntry = some least) :
    ∃ reader, least = key (ofLex least).2 reader ∧ aggregator.Earliest (ofLex least).2 reader := by
  rw [nextEntry, List.min?_eq_some_iff] at found
  simp only [List.mem_filterMap, Option.map_eq_some_iff] at found
  obtain ⟨⟨entry, listed, reader, pending, rfl⟩, smallest⟩ := found
  refine ⟨reader, rfl, pending, listed, fun other inside next held => ?_⟩
  exact smallest _ ⟨other, inside, next, held, rfl⟩

inductive Chosen (aggregator : Aggregator) : Aggregator → Prop where
  | ended (all : aggregator.completed.length = aggregator.entryReceivers.length)
      (nothing : ∀ entry ∈ aggregator.entryReceivers, aggregator.pendingReaders entry = none) :
      Chosen aggregator { aggregator.send (.error HistoricalQuery.noContent) with stage := .done }
  | idle (going : aggregator.completed.length ≠ aggregator.entryReceivers.length)
      (nothing : ∀ entry ∈ aggregator.entryReceivers, aggregator.pendingReaders entry = none) :
      Chosen aggregator { aggregator with stage := .start }
  | emitted {entry : String} {reader : RecordReader} (earliest : aggregator.Earliest entry reader)
      (live : aggregator.outputClosed = false) :
      Chosen aggregator { aggregator with
        pendingReaders := Function.update aggregator.pendingReaders entry none
        output := aggregator.output ++ [.ok (entry, reader)]
        stage := .start }
  | lost {entry : String} {reader : RecordReader} (earliest : aggregator.Earliest entry reader)
      (closed : aggregator.outputClosed = true) :
      Chosen aggregator { aggregator with
        pendingReaders := Function.update aggregator.pendingReaders entry none
        stage := .done }

theorem choose_chosen (aggregator : Aggregator) : Chosen aggregator aggregator.choose := by
  rw [choose]
  split_ifs with whole
  · exact .ended whole.1 whole.2
  · cases found : aggregator.nextEntry with
    | none =>
      have nothing := nextEntry_none found
      exact .idle (fun all => whole ⟨all, nothing⟩) nothing
    | some least =>
      obtain ⟨reader, _, earliest⟩ := nextEntry_some found
      simp only [earliest.pending, send]
      by_cases closed : aggregator.outputClosed = true
      · simp only [if_pos closed]
        exact .lost earliest closed
      · simp only [if_neg closed]
        exact .emitted earliest (by simpa using closed)

end Steps

section Refinement

variable {aggregator after : Aggregator} {entry : String} {rest : List String}

def merge (aggregator : Aggregator) : Merge String RecordReader where
  delivered := aggregator.delivered
  queue := fun entry => (aggregator.channel entry).readers
  slot := aggregator.pendingReaders
  closed := fun entry => (aggregator.channel entry).disconnected || !decide (entry ∈ aggregator.entryReceivers)
  output := aggregator.sent

theorem merge_send_error (aggregator : Aggregator) (failure : ReductError) :
    (aggregator.send (.error failure)).merge = aggregator.merge := by
  unfold send
  split
  · rfl
  · simp [merge, sent, Except.toOption]

theorem merge_emit (aggregator : Aggregator) (entry : String) (reader : RecordReader) :
    { aggregator with
      pendingReaders := Function.update aggregator.pendingReaders entry none
      output := aggregator.output ++ [Except.ok (entry, reader)] }.merge = aggregator.merge.emit entry reader := by
  simp [Merge.emit, merge, sent, Except.toOption]

theorem merge_items (aggregator : Aggregator) (entry : String) (items : List QueryItem) :
    { aggregator with
      channel := Function.update aggregator.channel entry { aggregator.channel entry with items } }.merge =
      { aggregator.merge with
        queue := Function.update aggregator.merge.queue entry (items.filterMap Except.toOption) } := by
  simp only [merge, sent, Merge.mk.injEq, true_and, and_true]
  constructor <;> funext other <;> by_cases same : other = entry
  · subst same
    simp [QueryRx.readers]
  · simp [same]
  · subst same
    simp
  · simp [same]

theorem merge_deliver_record (aggregator : Aggregator) (entry : String) (reader : RecordReader) :
    (aggregator.apply (.deliver entry (.ok reader))).merge = aggregator.merge.deliver entry reader := by
  have queued := merge_items
    { aggregator with delivered := Function.update aggregator.delivered entry (aggregator.delivered entry ++ [reader]) }
    entry ((aggregator.channel entry).items ++ [.ok reader])
  rw [List.filterMap_append] at queued
  exact queued

theorem merge_deliver_error (aggregator : Aggregator) (entry : String) (failure : ReductError) :
    (aggregator.apply (.deliver entry (.error failure))).merge = aggregator.merge := by
  have queued := merge_items aggregator entry ((aggregator.channel entry).items ++ [.error failure])
  have same : ((aggregator.channel entry).items ++ [Except.error failure]).filterMap Except.toOption =
      aggregator.merge.queue entry := by
    rw [List.filterMap_append]
    exact List.append_nil _
  rw [same, Function.update_eq_self] at queued
  refine Eq.trans ?_ queued
  simp [apply, Except.toOption]

theorem merge_disconnect (aggregator : Aggregator) (entry : String) :
    (aggregator.apply (.disconnect entry)).merge = aggregator.merge.close entry := by
  simp only [apply, merge, Merge.close, sent, Merge.mk.injEq, true_and, and_true]
  constructor <;> funext other <;> by_cases same : other = entry
  · subst same
    simp [QueryRx.readers]
  · rw [Function.update_of_ne same]
  · subst same
    simp
  · rw [Function.update_of_ne same, Function.update_of_ne same]
    rfl

theorem Polled.merge (step : Polled aggregator entry rest after) :
    after.merge = aggregator.merge ∨
      ∃ reader queue, aggregator.merge.slot entry = none ∧ aggregator.merge.queue entry = reader :: queue ∧
        after.merge = aggregator.merge.fetch entry reader queue := by
  cases step with
  | settled _ => exact Or.inl rfl
  | @received reader items vacant _ front =>
    refine Or.inr ⟨reader, items.filterMap Except.toOption, vacant, ?_, ?_⟩
    · simp [Aggregator.merge, QueryRx.readers, front, Except.toOption]
    · exact merge_items { aggregator with
        pendingReaders := Function.update aggregator.pendingReaders entry (some reader) } entry items
  | @refused failure items vacant _ front =>
    -- an error is no reader, so the queue of the entry stays as it is
    have same : items.filterMap Except.toOption = aggregator.merge.queue entry := by
      simp only [Aggregator.merge, QueryRx.readers, front]
      rfl
    have received := merge_items aggregator entry items
    rw [same, Function.update_eq_self] at received
    exact Or.inl received
  | ended _ _ _ _ => exact Or.inl rfl
  | idle _ _ _ _ => exact Or.inl rfl

structure Attended (aggregator : Aggregator) : Prop where
  polling : ∀ rest, aggregator.stage = .poll rest → ∀ entry ∈ rest, entry ∈ aggregator.entryReceivers
  listed : ∀ entry, entry ∉ aggregator.entryReceivers →
    (aggregator.channel entry).items = [] ∧ aggregator.pendingReaders entry = none
  ended : ∀ entry ∈ aggregator.completed, entry ∈ aggregator.entryReceivers ∧
    (aggregator.channel entry).disconnected = true ∧ (aggregator.channel entry).items = [] ∧
      aggregator.pendingReaders entry = none
  once : aggregator.completed.Nodup

theorem attended_new (entryReceivers : List String) (distinct : entryReceivers.Nodup) :
    (new entryReceivers distinct).Attended where
  polling := by simp [new]
  listed := by simp [new]
  ended := by simp [new]
  once := by simp [new]

theorem Attended.withStage (attended : aggregator.Attended) {stage : AggregateStage}
    (polling : ∀ rest, stage = .poll rest → ∀ entry ∈ rest, entry ∈ aggregator.entryReceivers) :
    { aggregator with stage }.Attended :=
  { attended with polling }

theorem Attended.send (attended : aggregator.Attended) (item : Except ReductError (String × RecordReader)) :
    (aggregator.send item).Attended := by
  unfold Aggregator.send
  split
  · exact attended
  · exact { attended with }

theorem Attended.change (attended : aggregator.Attended) (inside : entry ∈ aggregator.entryReceivers)
    (going : entry ∉ aggregator.completed) (channel : QueryRx) (pending : Option RecordReader) (stage : AggregateStage)
    (polling : ∀ rest, stage = .poll rest → ∀ other ∈ rest, other ∈ aggregator.entryReceivers) :
    { aggregator with
      channel := Function.update aggregator.channel entry channel
      pendingReaders := Function.update aggregator.pendingReaders entry pending
      stage }.Attended where
  polling := polling
  listed := by
    intro other outside
    have different : other ≠ entry := fun same => outside (same ▸ inside)
    simpa [different] using attended.listed other outside
  ended := by
    intro other past
    have different : other ≠ entry := fun same => going (same ▸ past)
    simpa [different] using attended.ended other past
  once := attended.once

theorem Attended.polled (attended : aggregator.Attended) (polling : aggregator.stage = .poll (entry :: rest))
    (step : Polled aggregator entry rest after) : after.Attended := by
  obtain ⟨inside, later⟩ := List.forall_mem_cons.mp (attended.polling _ polling)
  have onwards (others : List String) (same : AggregateStage.poll rest = .poll others) :
      ∀ other ∈ others, other ∈ aggregator.entryReceivers := by
    obtain rfl := AggregateStage.poll.inj same
    exact later
  cases step with
  | settled _ => exact attended.withStage onwards
  | received _ going _ => exact attended.change inside going _ _ _ onwards
  | @refused failure items vacant going _ =>
    have changed := attended.change inside going { aggregator.channel entry with items } none
      (if failure.status ≠ .noContent then .fail failure else .poll rest) (by
        intro others same
        split_ifs at same
        exact onwards others same)
    rw [← vacant, Function.update_eq_self] at changed
    exact changed
  | ended vacant going nothing gone =>
    exact {
      polling := onwards
      listed := attended.listed
      ended := List.forall_mem_cons.mpr ⟨⟨inside, gone, nothing, vacant⟩, attended.ended⟩
      once := List.nodup_cons.mpr ⟨going, attended.once⟩ }
  | idle _ _ _ _ => exact attended.withStage onwards

theorem Attended.take (attended : aggregator.Attended) (entry : String) :
    { aggregator with pendingReaders := Function.update aggregator.pendingReaders entry none }.Attended := by
  have kept (other : String) (vacant : aggregator.pendingReaders other = none) :
      Function.update aggregator.pendingReaders entry none other = none := by
    by_cases same : other = entry
    · rw [same, Function.update_self]
    · rw [Function.update_of_ne same, vacant]
  exact { attended with
    listed := fun other outside => ⟨(attended.listed other outside).1, kept other (attended.listed other outside).2⟩
    ended := fun other past => by
      obtain ⟨inside, gone, nothing, vacant⟩ := attended.ended other past
      exact ⟨inside, gone, nothing, kept other vacant⟩ }

theorem Attended.chosen (attended : aggregator.Attended) (step : Chosen aggregator after) : after.Attended := by
  cases step with
  | ended _ _ => exact (attended.send _).withStage (by simp)
  | idle _ _ => exact attended.withStage (by simp)
  | @emitted entry _ _ _ => exact { attended.take entry with polling := by simp }
  | @lost entry _ _ _ => exact { attended.take entry with polling := by simp }

theorem Attended.advance (attended : aggregator.Attended) : aggregator.advance.Attended := by
  rw [Aggregator.advance]
  cases at_ : aggregator.stage with
  | start =>
    refine attended.withStage fun others same => ?_
    split_ifs at same
    obtain rfl := AggregateStage.poll.inj same
    exact fun other inside => inside
  | poll rest =>
    cases rest with
    | cons entry rest => exact attended.polled at_ (poll_polled aggregator entry rest)
    | nil => exact attended.withStage (by simp)
  | fail failure => exact (attended.send _).withStage (by simp)
  | choose => exact attended.chosen (choose_chosen aggregator)
  | done => exact attended

theorem Attended.apply (attended : aggregator.Attended) {event : Event} (permitted : aggregator.Connected event) :
    (aggregator.apply event).Attended := by
  cases event with
  | deliver entry item =>
    have going : entry ∉ aggregator.completed := fun past => by
      have gone := (attended.ended entry past).2.1
      rw [permitted.2] at gone
      cases gone
    have changed := attended.change permitted.1 going
      { aggregator.channel entry with items := (aggregator.channel entry).items ++ [item] }
      (aggregator.pendingReaders entry) aggregator.stage attended.polling
    rw [Function.update_eq_self] at changed
    exact { changed with }
  | disconnect entry =>
    refine { attended with listed := fun other outside => ?_, ended := fun other past => ?_ }
    · have different : other ≠ entry := fun same => outside (same ▸ permitted)
      simpa [Aggregator.apply, different] using attended.listed other outside
    · have before := attended.ended other past
      by_cases same : other = entry
      · subst same
        simpa [Aggregator.apply] using ⟨before.1, before.2.2⟩
      · simpa [Aggregator.apply, same] using before
  | closeOutput => exact { attended with }
  | advance => exact attended.advance

theorem Attended.all_ended (attended : aggregator.Attended)
    (all : aggregator.completed.length = aggregator.entryReceivers.length) (inside : entry ∈ aggregator.entryReceivers) :
    entry ∈ aggregator.completed := by
  have within : aggregator.completed ⊆ aggregator.entryReceivers := fun other member => (attended.ended other member).1
  have subperm := List.subperm_of_subset attended.once within
  exact (subperm.perm_of_length_le all.ge).mem_iff.mpr inside

end Refinement

section Cases

instance (aggregator : Aggregator) (event : Event) : Decidable (aggregator.Connected event) := by
  cases event <;> unfold Connected <;> infer_instance

def readerAt (entry : String) (timestamp : Nat) : RecordReader :=
  .formRecord entry { timestamp, beginPos := 0, endPos := 0, state := .finished, labels := [], contentType := "" }

def twoEntries : Aggregator := new ["a", "b"] (by decide)

def turnOfTwo : List Event := [.advance, .advance, .advance, .advance, .advance]

end Cases

end Aggregator

end ReductStore
