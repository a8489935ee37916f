import ReductStore.Query.Context
import ReductStore.Shared.Gate
import ReductStore.Shared.Window

set_option autoImplicit false

namespace ReductStore

open Window

def Record.isFinished (record : Record) : Bool := record.state = .finished

abbrev wanted (start stop : Nat) (records : List Record) : List Record :=
  within Record.timestamp Record.isFinished start stop records

def Record.context (record : Record) : Context :=
  { timestamp := record.timestamp, labels := uniqueLabels record.labels }

namespace WhenFilter

variable {filter : WhenFilter} {record : Record}

def observe (filter : WhenFilter) (record : Record) : Except ReductError (Option Bool) × WhenFilter :=
  let applied := filter.applied ++ [record.context]
  match filter.evaluate applied with
  | .error failure => (.error failure, { filter with applied })
  | .ok none => (.ok none, { filter with applied })
  | .ok (some result) =>
    let (passes, ctxAfter) := filter.ctxAfter.check result record.timestamp
    (.ok (some passes), { filter with applied, ctxAfter })

def memory (filter : WhenFilter) : WhenFilter := { filter with ctxBuffer := [] }

theorem observe_memory (filter : WhenFilter) (record : Record) :
    filter.memory.observe record = ((filter.observe record).1, (filter.observe record).2.memory) := by
  have same : filter.memory.evaluate (filter.memory.applied ++ [record.context]) =
      filter.evaluate (filter.applied ++ [record.context]) := rfl
  rw [observe, observe, same]
  rcases filter.evaluate (filter.applied ++ [record.context]) with _ | (_ | _) <;> rfl

theorem filter_settings (filter : WhenFilter) (record : Record) :
    (filter.filter record).2.ctxBefore = filter.ctxBefore ∧
      (filter.filter record).2.labelSelector = filter.labelSelector := by
  rw [WhenFilter.filter]
  simp only
  split
  · exact ⟨rfl, rfl⟩
  · exact ⟨rfl, rfl⟩
  · split <;> exact ⟨rfl, rfl⟩

theorem filter_waiting (waiting : filter.Waiting record.timestamp) :
    (filter.filter record).2.Waiting (record.timestamp + 1) := by
  obtain ⟨earlier, short⟩ := queued_waiting waiting
  rw [WhenFilter.filter]
  simp only
  split
  · exact ⟨earlier, short⟩
  · exact ⟨earlier, short⟩
  · split
    · exact ⟨by simp, by simp⟩
    · exact ⟨earlier, short⟩

theorem filter_decided {passes : Bool} (decided : (filter.observe record).1 = .ok (some passes))
    (zero : filter.ctxBefore.isZero = true) (waiting : filter.Waiting record.timestamp) :
    (filter.filter record).1 =
        .ok (some (if passes then [selectLabels filter.labelSelector record] else [])) ∧
      (filter.filter record).2.memory = (filter.observe record).2.memory := by
  have queue := queueRecord_zero zero waiting.short waiting.earlier
  rw [observe] at decided ⊢
  rw [WhenFilter.filter, queue]
  have context : { timestamp := record.timestamp, labels := uniqueLabels record.labels } = record.context := rfl
  simp only [context]
  rcases value : filter.evaluate (filter.applied ++ [record.context]) with failure | (_ | result)
  · simp [value] at decided
  · simp [value] at decided
  · simp only [value, Except.ok.injEq, Option.some.injEq] at decided
    simp only [decided]
    cases passes with
    | true => exact ⟨rfl, rfl⟩
    | false => exact ⟨rfl, rfl⟩

end WhenFilter

section Gate

def judge : Option WhenFilter → Record → Bool × Option WhenFilter
  | none, _ => (true, none)
  | some filter, record =>
    let (decision, filter) := filter.observe record
    (match decision with | .ok (some passes) => passes | _ => false, some filter)

def selection : Option WhenFilter → Record → Record
  | none, record => record
  | some filter, record => selectLabels filter.labelSelector record

theorem timestamp_selection (filter : Option WhenFilter) (record : Record) :
    (selection filter record).timestamp = record.timestamp := by
  cases filter with
  | none => rfl
  | some filter =>
    rw [selection, selectLabels]
    split <;> rfl

def Uninterrupted (start : Option WhenFilter) : Prop :=
  ∀ seen filter, Gate.after judge start seen = some filter →
    ∀ record, ∃ passes, (filter.observe record).1 = .ok (some passes)

theorem uninterrupted_none : Uninterrupted none := by
  have memory (seen : List Record) : Gate.after judge none seen = none := by
    induction seen with
    | nil => rfl
    | cons record seen ih => exact ih
  intro seen filter reached
  rw [memory] at reached
  cases reached

theorem passing_none (records : List Record) : Gate.passing judge none records = records := by
  induction records with
  | nil => rfl
  | cons record records ih => exact congrArg (record :: ·) ih

end Gate

namespace Filters

variable {filters : Filters} {start : Option WhenFilter}

def startAt (filters : Filters) (start : Nat) : Filters :=
  { filters with timeRange := { filters.timeRange with start } }

def memory (filters : Filters) : Option WhenFilter := filters.whenFilter.map WhenFilter.memory

structure Follows (filters : Filters) (start : Option WhenFilter) : Prop where
  finished : filters.recordState.state = .finished
  waiting : filters.Waiting
  unpadded : filters.Unpadded
  selects : selection filters.whenFilter = selection start
  reached : ∃ seen, filters.memory = Gate.after judge start seen

structure Decided (filters : Filters) (start : Option WhenFilter) (records : List Record) (next : Filters) : Prop
    extends Follows next start where
  moved : Passed Record.timestamp filters.timeRange.start filters.timeRange.stop next.timeRange.start records
  stop : next.timeRange.stop = filters.timeRange.stop
  remembered : next.memory =
    Gate.after judge filters.memory (wanted filters.timeRange.start filters.timeRange.stop records)

def decided (filters : Filters) (start : Option WhenFilter) (records : List Record) : List Record :=
  (Gate.passing judge filters.memory (wanted filters.timeRange.start filters.timeRange.stop records)).map (selection start)

theorem Follows.startAt (follows : filters.Follows start) {time : Nat} (later : filters.timeRange.start ≤ time) :
    (filters.startAt time).Follows start :=
  { follows with
    waiting := fun filter present =>
      ⟨fun other member => ((follows.waiting filter present).earlier other member).trans_le later,
        (follows.waiting filter present).short⟩ }

def behind (filters : Filters) (record : Record) : Filters :=
  { filters.startAt (record.timestamp + 1) with
    whenFilter := filters.whenFilter.map fun filter => (filter.filter record).2 }

theorem Follows.judged (follows : filters.Follows start) (uninterrupted : Uninterrupted start) {record : Record}
    (inRange : filters.timeRange.start ≤ record.timestamp ∧ record.timestamp < filters.timeRange.stop)
    (state : record.state = .finished) :
    filters.apply record =
        (.ok (some ((Gate.passing judge filters.memory [record]).map (selection start))), filters.behind record) ∧
      (filters.behind record).Follows start ∧
      (filters.behind record).memory = Gate.after judge filters.memory [record] := by
  have passed : RecordStateFilter.filter filters.recordState record = [record] := by
    rw [RecordStateFilter.filter, follows.finished, if_pos state]
  obtain ⟨seen, reached⟩ := follows.reached
  have onwards (memory : (filters.behind record).memory = Gate.after judge filters.memory [record]) :
      ∃ seen, (filters.behind record).memory = Gate.after judge start seen :=
    ⟨seen ++ [record], by rw [memory, reached, Gate.after_append]⟩
  rw [apply, TimeRangeFilter.filter, if_pos inRange]
  simp only [List.flatMap_cons, List.flatMap_nil, List.append_nil, passed]
  cases present : filters.whenFilter with
  | none =>
    have memory : filters.memory = none := by rw [Filters.memory, present, Option.map_none]
    have next : (filters.behind record).whenFilter = none := by rw [behind, present, Option.map_none]
    have kept : (filters.behind record).memory = Gate.after judge filters.memory [record] := by
      rw [memory, Filters.memory, next]
      rfl
    have all : selection none = selection start := by rw [← follows.selects, present]
    refine ⟨?_, ⟨follows.finished, ?_, ?_, ?_, onwards kept⟩, kept⟩
    · rw [memory, ← all, behind, present]
      rfl
    · intro filter some
      rw [next] at some
      cases some
    · intro filter some
      rw [next] at some
      cases some
    · rw [next, all]
  | some filter =>
    have memory : filters.memory = some filter.memory := by rw [Filters.memory, present, Option.map_some]
    have next : (filters.behind record).whenFilter = some (filter.filter record).2 := by
      rw [behind, present, Option.map_some]
    have selects : selection (some filter) = selection start := by rw [← follows.selects, present]
    have waits := follows.waiting filter present
    have early : filter.Waiting record.timestamp :=
      ⟨fun other member => (waits.earlier other member).trans_le inRange.1, waits.short⟩
    have zero := follows.unpadded filter present
    obtain ⟨passes, decision⟩ := uninterrupted seen filter.memory (by rw [← reached, memory]) record
    rw [WhenFilter.observe_memory] at decision
    obtain ⟨result, remembers⟩ := WhenFilter.filter_decided decision zero early
    have judged : judge (some filter.memory) record = (passes, some (filter.observe record).2.memory) := by
      rw [judge, WhenFilter.observe_memory]
      simp only [show (filter.observe record).1 = .ok (some passes) from decision]
    have kept : (filters.behind record).memory = Gate.after judge filters.memory [record] := by
      rw [memory, Filters.memory, next, Option.map_some, remembers, Gate.after_cons, judged, Gate.after_nil]
    have settings := WhenFilter.filter_settings filter record
    refine ⟨?_, ⟨follows.finished, ?_, ?_, ?_, onwards kept⟩, kept⟩
    · rw [memory, Gate.passing, judged, ← selects, behind, present]
      simp only [result, Gate.passing_nil]
      cases passes <;> rfl
    · intro other same
      rw [next] at same
      obtain rfl := Option.some.inj same
      exact (WhenFilter.filter_waiting early)
    · intro other same
      rw [next] at same
      obtain rfl := Option.some.inj same
      rw [settings.1]
      exact zero
    · rw [next, ← selects]
      funext other
      rw [selection, selection, settings.2]

theorem Follows.apply (follows : filters.Follows start) (uninterrupted : Uninterrupted start) (record : Record) :
    ∃ next, filters.apply record = (.ok (some (filters.decided start [record])), next) ∧
      filters.Decided start [record] next := by
  by_cases inRange : filters.timeRange.start ≤ record.timestamp ∧ record.timestamp < filters.timeRange.stop
  · by_cases state : record.state = .finished
    · have inside : wanted filters.timeRange.start filters.timeRange.stop [record] = [record] := by
        simp [within, inRange, Record.isFinished, state]
      obtain ⟨result, next, memory⟩ := follows.judged uninterrupted inRange state
      refine ⟨_, ?_, { next with moved := passed_singleton inRange.1, stop := rfl, remembered := ?_ }⟩
      · rw [result, decided, inside]
      · rw [memory, inside]
    · have outside : wanted filters.timeRange.start filters.timeRange.stop [record] = [] := by
        simp [within, Record.isFinished, state]
      refine ⟨filters.startAt (record.timestamp + 1), ?_, { follows.startAt (inRange.1.trans (Nat.le_succ _)) with
        moved := passed_singleton inRange.1
        stop := rfl
        remembered := by rw [outside]; rfl }⟩
      rw [decided, outside, Filters.apply, TimeRangeFilter.filter, if_pos inRange]
      simp [RecordStateFilter.filter, follows.finished, state, Filters.startAt]
  · have outside : wanted filters.timeRange.start filters.timeRange.stop [record] = [] := by
      simp [within, inRange]
    refine ⟨filters, ?_, { follows with
      moved := ⟨le_rfl, ?_, fun bound reached _ => reached⟩
      stop := rfl
      remembered := by rw [outside]; rfl }⟩
    · rw [decided, outside, Filters.apply, TimeRangeFilter.filter, if_neg inRange]
      simp
    · simp only [Spent, List.mem_singleton, forall_eq]
      omega

theorem Follows.applyAll (follows : filters.Follows start) (uninterrupted : Uninterrupted start) {records : List Record}
    (sorted : records.Pairwise fun first second => first.timestamp < second.timestamp) :
    ∃ next, filters.applyAll records = (.ok (filters.decided start records, false), next) ∧
      filters.Decided start records next := by
  induction records generalizing filters with
  | nil =>
    exact ⟨filters, rfl, { follows with
      moved := ⟨le_rfl, by simp [Spent], fun bound reached _ => reached⟩
      stop := rfl
      remembered := rfl }⟩
  | cons record records ih =>
    obtain ⟨least, tail⟩ := List.pairwise_cons.mp sorted
    obtain ⟨middle, applied, first⟩ := follows.apply uninterrupted record
    obtain ⟨next, rest, second⟩ := ih first.toFollows tail
    have whole : wanted filters.timeRange.start filters.timeRange.stop (record :: records) =
        wanted filters.timeRange.start filters.timeRange.stop [record] ++
          wanted middle.timeRange.start middle.timeRange.stop records := by
      rw [wanted, wanted, wanted, first.stop, ← first.moved.within_late (by simpa using least)]
      exact within_append [record] records
    refine ⟨next, ?_, { second.toFollows with
      moved := first.moved.trans (first.stop ▸ second.moved)
      stop := second.stop.trans first.stop
      remembered := ?_ }⟩
    · rw [Filters.applyAll, applied]
      simp only [rest]
      rw [decided, decided, decided, whole, Gate.passing_append, List.map_append, ← first.remembered]
    · rw [second.remembered, first.remembered, whole, Gate.after_append]

end Filters

end ReductStore
