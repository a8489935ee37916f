import ReductStore.Query.NextSections
import ReductStore.Storage.Compression

set_option autoImplicit false

namespace ReductStore

def Record.bare (record : Record) : Record := { record with labels := [] }

@[simp] theorem Record.bare_selectLabels (names : List String) (record : Record) :
    (selectLabels names record).bare = record.bare := by
  unfold selectLabels
  split <;> rfl

theorem Record.timestamp_bare {first second : Record} (same : first.bare = second.bare) :
    first.timestamp = second.timestamp := (congrArg Record.timestamp same : _)

theorem queueRecord_suffix (before : Padding) (ctxBuffer : List Record) (record : Record) :
    queueRecord before ctxBuffer record <:+ ctxBuffer ++ [record] := by
  unfold queueRecord
  cases before with
  | records count =>
    dsimp only
    split
    · exact List.tail_suffix _
    · exact List.suffix_rfl
  | duration us => exact List.dropWhile_suffix _

section Trail

structure Trail (start stop bound : Nat) (examined records : List Record) : Prop where
  sorted : (records.map Record.timestamp).Pairwise (· < ·)
  known : ∀ record ∈ records, start ≤ record.timestamp ∧ record.timestamp < stop ∧ record.timestamp < bound ∧
    ∃ original ∈ examined, original.state = .finished ∧ original.bare = record.bare

variable {start stop bound : Nat} {examined records : List Record}

theorem Trail.examine (trail : Trail start stop bound examined records) (more : List Record) :
    Trail start stop bound (examined ++ more) records := by
  refine ⟨trail.sorted, fun record member => ?_⟩
  obtain ⟨lower, upper, passed, original, met, rest⟩ := trail.known record member
  exact ⟨lower, upper, passed, original, List.mem_append_left more met, rest⟩

theorem Trail.shrink (trail : Trail start stop bound examined records) {kept : List Record}
    (fewer : (kept.map Record.bare).Sublist (records.map Record.bare)) : Trail start stop bound examined kept := by
  have times : ∀ records : List Record,
      records.map Record.timestamp = (records.map Record.bare).map Record.timestamp := fun records => by
    rw [List.map_map]
    rfl
  refine ⟨?_, fun record member => ?_⟩
  · have sorted := trail.sorted
    rw [times] at sorted ⊢
    exact sorted.sublist (fewer.map Record.timestamp)
  · obtain ⟨other, present, same⟩ := List.mem_map.mp (fewer.subset (List.mem_map_of_mem member))
    obtain ⟨lower, upper, passed, original, met, done, alike⟩ := trail.known other present
    rw [Record.timestamp_bare same] at lower upper passed
    exact ⟨lower, upper, passed, original, met, done, alike.trans same⟩

theorem Trail.later (trail : Trail start stop bound examined records) {next : Nat} (later : bound ≤ next) :
    Trail start stop next examined records := by
  refine ⟨trail.sorted, fun record member => ?_⟩
  obtain ⟨lower, upper, passed, rest⟩ := trail.known record member
  exact ⟨lower, upper, by omega, rest⟩

theorem Trail.snoc (trail : Trail start stop bound examined records) (starts : start ≤ bound) {record : Record}
    (range : bound ≤ record.timestamp ∧ record.timestamp < stop) (done : record.state = .finished) :
    Trail start stop (record.timestamp + 1) (examined ++ [record]) (records ++ [record]) := by
  have earlier := (trail.later (Nat.le_succ_of_le range.1)).examine [record]
  refine ⟨?_, fun other member => ?_⟩
  · rw [List.map_append, List.pairwise_append]
    refine ⟨trail.sorted, List.pairwise_singleton _ _, ?_⟩
    intro first member second last
    obtain ⟨other, present, rfl⟩ := List.mem_map.mp member
    obtain rfl := List.mem_singleton.mp last
    have before := (trail.known other present).2.2.1
    omega
  · rcases List.mem_append.mp member with old | new
    · exact earlier.known other old
    · obtain rfl := List.mem_singleton.mp new
      exact ⟨by omega, range.2, Nat.lt_succ_self _, other, by simp, done, rfl⟩

end Trail

def passedRecords : Except ReductError (Option (List Record)) → List Record
  | .ok (some records) => records
  | _ => []

theorem WhenFilter.filter_fewer (filter : WhenFilter) (record : Record) :
    ((passedRecords (filter.filter record).1 ++ (filter.filter record).2.ctxBuffer).map Record.bare).Sublist
      ((filter.ctxBuffer ++ [record]).map Record.bare) := by
  have queued := ((queueRecord_suffix filter.ctxBefore filter.ctxBuffer record).sublist).map Record.bare
  simp only [WhenFilter.filter]
  cases filter.evaluate _ with
  | error failure => exact queued
  | ok value =>
    cases value with
    | none => exact queued
    | some result =>
      by_cases passes : (filter.ctxAfter.check result record.timestamp).1 = true
      · simpa [passes, passedRecords, List.map_map, Function.comp_def] using queued
      · simpa [passes, passedRecords] using queued

namespace Filters

def held (filters : Filters) : List Record :=
  match filters.whenFilter with
  | none => []
  | some whenFilter => whenFilter.ctxBuffer

structure Trails (filters : Filters) (start stop : Nat) (examined sent : List Record) : Prop where
  stops : filters.timeRange.stop = stop
  starts : start ≤ filters.timeRange.start
  finished : filters.recordState.state = .finished
  trail : Trail start stop filters.timeRange.start examined (sent ++ filters.held)

variable {filters : Filters} {start stop : Nat} {examined sent : List Record}

theorem Trails.examine (trails : filters.Trails start stop examined sent) (more : List Record) :
    filters.Trails start stop (examined ++ more) sent :=
  { trails with trail := trails.trail.examine more }

theorem Trails.drop {found : List Record} (trails : filters.Trails start stop examined (sent ++ found)) :
    filters.Trails start stop examined sent :=
  { trails with trail := trails.trail.shrink (((List.sublist_append_left sent found).append_right filters.held).map _) }

theorem Trails.apply (trails : filters.Trails start stop examined sent) (record : Record) :
    (filters.apply record).2.Trails start stop (examined ++ [record])
      (sent ++ passedRecords (filters.apply record).1) := by
  by_cases range : record.timestamp ≥ filters.timeRange.start ∧ record.timestamp < filters.timeRange.stop
  · by_cases done : record.state = filters.recordState.state
    · have longer := trails.trail.snoc trails.starts ⟨range.1, trails.stops ▸ range.2⟩ (done.trans trails.finished)
      cases whenFilter : filters.whenFilter with
      | none =>
        simp only [Filters.apply, TimeRangeFilter.filter, if_pos range, RecordStateFilter.filter, List.flatMap_cons,
          List.flatMap_nil, if_pos done, List.append_nil, whenFilter, passedRecords]
        refine ⟨trails.stops, by dsimp only; have := trails.starts; omega, trails.finished, ?_⟩
        simpa [held, whenFilter] using longer
      | some filter =>
        simp only [Filters.apply, TimeRangeFilter.filter, if_pos range, RecordStateFilter.filter, List.flatMap_cons,
          List.flatMap_nil, if_pos done, List.append_nil, whenFilter]
        refine ⟨trails.stops, by dsimp only; have := trails.starts; omega, trails.finished, ?_⟩
        refine longer.shrink ?_
        have fewer := filter.filter_fewer record
        simp only [held, whenFilter, List.append_assoc, List.map_append] at fewer ⊢
        exact fewer.append_left (sent.map Record.bare)
    · simp only [Filters.apply, TimeRangeFilter.filter, if_pos range, RecordStateFilter.filter, List.flatMap_cons,
        List.flatMap_nil, if_neg done, List.append_nil, passedRecords]
      refine ⟨trails.stops, by dsimp only; have := trails.starts; omega, trails.finished, ?_⟩
      exact (trails.trail.later (Nat.le_succ_of_le range.1)).examine [record]
  · simp only [Filters.apply, TimeRangeFilter.filter, if_neg range, List.flatMap_nil, List.append_nil, passedRecords]
    exact trails.examine [record]

theorem Trails.applyAll (records : List Record) (trails : filters.Trails start stop examined sent) :
    (filters.applyAll records).2.Trails start stop (examined ++ records)
      (sent ++ match (filters.applyAll records).1 with
        | .ok (found, _) => found
        | .error _ => []) := by
  induction records generalizing filters examined sent with
  | nil => simpa [Filters.applyAll] using trails
  | cons record records ih =>
    have here := trails.apply record
    unfold Filters.applyAll
    generalize filters.apply record = applied at here ⊢
    rcases applied with ⟨_ | _ | found, next⟩
    · simpa [passedRecords] using here.examine records
    · simpa [passedRecords] using here.examine records
    · have rest := ih here
      dsimp only at rest ⊢
      generalize next.applyAll records = applied at rest ⊢
      rcases applied with ⟨_ | ⟨later, interrupted⟩, last⟩
      · simpa using rest.drop.drop
      · simpa [passedRecords] using rest

end Filters

namespace HistoricalQuery

variable [Codec]

def searchedRecords (call : Call) : List Record :=
  match call.stage.searched with
  | none => []
  | some blockId =>
    match call.manager.loadBlock blockId with
    | (.error _, _) => []
    | (.ok ref, manager) => (manager.heap ref).records

structure Watching where
  call : Call
  examined : List Record
  returned : List RecordReader

inductive WatchEvent where
  | advance
  | change (operation : BlockManager → BlockManager)

namespace Watching

omit [Codec] in
def start (query : HistoricalQuery) (manager : BlockManager) : Watching :=
  { call := { stage := .idle, query, manager }, examined := [], returned := [] }

def apply (state : Watching) : WatchEvent → Watching
  | .advance =>
    let (result, call) := nextSection state.call
    { call
      examined := state.examined ++ searchedRecords state.call
      returned := match result with
        | some (.ok reader) => state.returned ++ [reader]
        | _ => state.returned }
  | .change operation => { state with call := { state.call with manager := operation state.call.manager } }

end Watching

structure Watched (query : HistoricalQuery) (start stop : Nat) (examined : List Record) (returned : List RecordReader) :
    Prop where
  metadata : query.onlyMetadata = true
  trails : query.filters.Trails start stop examined
    (returned.map RecordReader.recordMeta ++ query.recordsFromCurrentBlock)

variable {query : HistoricalQuery} {start stop : Nat} {examined : List Record} {returned : List RecordReader}

omit [Codec] in
theorem sort_trail {bound : Nat} {records : List Record} (trail : Trail start stop bound examined records) :
    records.insertionSort (fun first second => first.timestamp ≤ second.timestamp) = records := by
  have sorted := List.pairwise_map.mp trail.sorted
  exact List.Pairwise.insertionSort_eq (sorted.imp fun before => Nat.le_of_lt before)

abbrev Emits (query : HistoricalQuery) (start stop : Nat) (examined : List Record) (returned : List RecordReader) : Prop :=
  query.filters.Trails start stop examined (returned.map RecordReader.recordMeta ++ query.recordsFromCurrentBlock)

omit [Codec] in
theorem Emits.scan (emits : query.Emits start stop examined returned) (manager : BlockManager) (ref : BlockRef) :
    (query.scanBlock manager ref).2.Emits start stop (examined ++ (manager.heap ref).records) returned := by
  have filtered := Filters.Trails.applyAll (manager.heap ref).records emits
  have sorted : ∀ filters found interrupted,
      query.filters.applyAll (manager.heap ref).records = (.ok (found, interrupted), filters) →
      found.insertionSort (fun first second => first.timestamp ≤ second.timestamp) = found := by
    intro filters found interrupted applied
    rw [applied] at filtered
    refine sort_trail (filtered.trail.shrink (List.Sublist.map _ ?_))
    exact (List.sublist_append_right _ found).trans (List.sublist_append_left _ filters.held)
  simp only [scanBlock, filterRecordsFromBlock]
  rw [show (manager.heap ref).recordIndex.toList.map Prod.snd = (manager.heap ref).records from rfl]
  cases applied : query.filters.applyAll (manager.heap ref).records with
  | mk result filters =>
    rw [applied] at filtered
    cases result with
    | error failure => simpa [Emits] using filtered
    | ok value =>
      dsimp only at filtered ⊢
      rw [Emits, sorted filters value.1 value.2 applied]
      simpa using filtered

omit [Codec] in
theorem Emits.take (emits : query.Emits start stop examined returned) (manager : BlockManager) :
    (query.take manager).2.Emits start stop examined
      (match (query.take manager).1 with
        | .ok reader => returned ++ [reader]
        | .error _ => returned) := by
  unfold HistoricalQuery.take
  cases waiting : query.recordsFromCurrentBlock with
  | nil => exact emits
  | cons record records =>
    rw [Emits, waiting] at emits
    -- a record for which no reader is opened is lost
    have lost : Emits { query with recordsFromCurrentBlock := records } start stop examined returned := by
      refine { emits with trail := emits.trail.shrink (List.Sublist.map _ ?_) }
      exact ((List.sublist_cons_self record records).append_left _).append_right query.filters.held
    have opened (reader : RecordReader) (same : reader.recordMeta = record) :
        Emits { query with recordsFromCurrentBlock := records } start stop examined (returned ++ [reader]) := by
      simpa [Emits, same] using emits
    cases current : query.currentBlock with
    | none => simpa only [current] using lost
    | some ref =>
      simp only [current] at lost opened ⊢
      split_ifs with metadata
      · exact opened _ rfl
      · simp only [RecordReader.tryNew]
        cases (manager.heap ref).getRecord record.timestamp with
        | none => exact lost
        | some stored =>
          by_cases absent : stored.length > 0 ∧ manager.disk.data[(manager.heap ref).blockId]? = none
          · simpa only [if_pos absent] using lost
          · simp only [if_neg absent]
            exact opened _ rfl

theorem Emits.section_ {call : Call} (emits : call.query.Emits start stop examined returned) :
    (nextSection call).2.query.Emits start stop (examined ++ searchedRecords call)
      (match (nextSection call).1 with
        | some (.ok reader) => returned ++ [reader]
        | _ => returned) := by
  obtain ⟨stage, query, manager⟩ := call
  have more : ∀ found : List Record, query.Emits start stop (examined ++ found) returned := fun found =>
    Filters.Trails.examine emits found
  cases stage with
  | idle => exact more _
  | find start => exact more _
  | take =>
    have taken := Emits.take emits manager
    simp only [nextSection, searchedRecords, NextStage.searched, List.append_nil]
    generalize query.take manager = result at taken ⊢
    rcases result with ⟨_ | reader, after⟩ <;> exact taken
  | scan blockIds =>
    cases blockIds with
    | nil => exact more _
    | cons blockId blockIds =>
      simp only [nextSection, searchedRecords, NextStage.searched]
      cases loaded : manager.loadBlock blockId with
      | mk reply after =>
        cases reply with
        | error failure =>
          dsimp only
          split <;> exact more _
        | ok ref =>
          have scanned := Emits.scan emits after ref
          dsimp only at scanned ⊢
          generalize query.scanBlock after ref = result at scanned ⊢
          rcases result with ⟨_ | _, found⟩ <;> exact scanned

structure SameRequest (before after : HistoricalQuery) : Prop where
  startTime : after.startTime = before.startTime
  stopTime : after.stopTime = before.stopTime
  onlyMetadata : after.onlyMetadata = before.onlyMetadata

omit [Codec] in
theorem scanBlock_request (query : HistoricalQuery) (manager : BlockManager) (ref : BlockRef) :
    SameRequest query (query.scanBlock manager ref).2 := by
  rw [scanBlock, filterRecordsFromBlock]
  simp only
  rcases query.filters.applyAll ((manager.heap ref).recordIndex.toList.map Prod.snd) with ⟨_ | _, _⟩ <;>
    exact ⟨rfl, rfl, rfl⟩

theorem nextSection_request (call : Call) : SameRequest call.query (nextSection call).2.query := by
  obtain ⟨stage, query, manager⟩ := call
  cases stage with
  | idle | find start => exact ⟨rfl, rfl, rfl⟩
  | take =>
    simp only [nextSection, HistoricalQuery.take]
    split
    · exact ⟨rfl, rfl, rfl⟩
    · split
      · exact ⟨rfl, rfl, rfl⟩
      · split <;> exact ⟨rfl, rfl, rfl⟩
  | scan blockIds =>
    cases blockIds with
    | nil => exact ⟨rfl, rfl, rfl⟩
    | cons blockId blockIds =>
      simp only [nextSection]
      rcases manager.loadBlock blockId with ⟨failure | ref, after⟩
      · simp only
        split <;> exact ⟨rfl, rfl, rfl⟩
      · have kept := scanBlock_request query after ref
        simp only
        generalize query.scanBlock after ref = result at kept ⊢
        rcases result with ⟨_ | _, found⟩ <;> exact kept

theorem Watched.section_ {call : Call} (watched : call.query.Watched start stop examined returned) :
    (nextSection call).2.query.Watched start stop (examined ++ searchedRecords call)
      (match (nextSection call).1 with
        | some (.ok reader) => returned ++ [reader]
        | _ => returned) :=
  ⟨(nextSection_request call).onlyMetadata.trans watched.metadata, Emits.section_ watched.trails⟩

namespace Watching

def queryOf (entryName : String) (startTime stopTime : Nat) (condition : Option Condition) (strict : Bool)
    (before after : Padding) (labelSelector : List String) : HistoricalQuery :=
  .new entryName startTime stopTime (condition.map (WhenFilter.new · strict before after labelSelector)) true

omit [Codec] in
theorem watched_start (entryName : String) (startTime stopTime : Nat) (condition : Option Condition) (strict : Bool)
    (before after : Padding) (labelSelector : List String) :
    (queryOf entryName startTime stopTime condition strict before after labelSelector).Watched startTime stopTime [] [] := by
  have nothing : (queryOf entryName startTime stopTime condition strict before after labelSelector).filters.held = [] := by
    cases condition <;> rfl
  refine ⟨rfl, rfl, le_rfl, rfl, ?_⟩
  rw [nothing]
  exact ⟨List.Pairwise.nil, fun record member => absurd member (List.not_mem_nil)⟩

theorem watched_run {initial : Watching}
    (watched : initial.call.query.Watched start stop initial.examined initial.returned) (events : List WatchEvent) :
    let state := events.foldl apply initial
    state.call.query.Watched start stop state.examined state.returned := by
  induction events generalizing initial with
  | nil => exact watched
  | cons event events ih =>
    refine ih ?_
    cases event with
    | advance => exact watched.section_
    | change operation => exact watched

/-- Whatever other calls do to the entry, the records that the calls of `next` return come in the order of time, each once
    and from the range, and were finished when they were examined. -/
theorem returns_in_order (entryName : String) (startTime stopTime : Nat) (condition : Option Condition) (strict : Bool)
    (before after : Padding) (labelSelector : List String) (manager : BlockManager) (events : List WatchEvent) :
    let state := events.foldl apply
      (Watching.start (queryOf entryName startTime stopTime condition strict before after labelSelector) manager)
    (state.returned.map (·.recordMeta.timestamp)).Pairwise (· < ·) ∧
      ∀ reader ∈ state.returned, startTime ≤ reader.recordMeta.timestamp ∧ reader.recordMeta.timestamp < stopTime ∧
        ∃ record ∈ state.examined, record.state = .finished ∧ record.bare = reader.recordMeta.bare := by
  intro state
  have watched : state.call.query.Watched startTime stopTime state.examined state.returned :=
    watched_run (watched_start entryName startTime stopTime condition strict before after labelSelector) events
  have first : (state.returned.map RecordReader.recordMeta).Sublist
      (state.returned.map RecordReader.recordMeta ++ state.call.query.recordsFromCurrentBlock ++
        state.call.query.filters.held) :=
    (List.sublist_append_left _ _).trans (List.sublist_append_left _ _)
  have trail := watched.trails.trail.shrink (first.map Record.bare)
  refine ⟨by simpa [List.map_map, Function.comp_def] using trail.sorted, fun reader member => ?_⟩
  obtain ⟨lower, upper, -, original, met, done, same⟩ := trail.known _ (List.mem_map_of_mem member)
  exact ⟨lower, upper, original, met, done, same⟩

end Watching

end HistoricalQuery

end ReductStore
