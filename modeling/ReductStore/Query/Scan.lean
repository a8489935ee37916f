import ReductStore.Query.Decision
import ReductStore.Storage.Retention

set_option autoImplicit false

namespace ReductStore

open Window

namespace BlockManager

def recordsOf (manager : BlockManager) (blockId : Nat) : List Record :=
  ((manager.view blockId).map Block.records).getD []

def timeline (manager : BlockManager) (blockIds : List Nat) : List Record := blockIds.flatMap manager.recordsOf

theorem mem_recordsOf {manager : BlockManager} {blockId : Nat} {record : Record} :
    record ∈ manager.recordsOf blockId ↔
      ∃ block, manager.view blockId = some block ∧ block.getRecord record.timestamp = some record := by
  cases seen : manager.view blockId with
  | none => simp [recordsOf, seen]
  | some block => simp [recordsOf, seen, Block.mem_records]

variable [Codec]

section Order

variable {manager : BlockManager}

theorem Ordered.block_le (ordered : manager.Ordered) {blockId : Nat} {record : Record}
    (held : record ∈ manager.recordsOf blockId) : blockId ≤ record.timestamp := by
  obtain ⟨block, seen, found⟩ := mem_recordsOf.mp held
  have cell : manager.cells blockId = some block.times := by simp [cells, seen]
  exact ordered.partitioned.above blockId _ _ cell ⟨record, found⟩

theorem Ordered.lt_block (ordered : manager.Ordered) {blockId next : Nat} (before : blockId < next)
    (served : manager.InService next) {record : Record} (held : record ∈ manager.recordsOf blockId) :
    record.timestamp < next := by
  obtain ⟨block, seen, found⟩ := mem_recordsOf.mp held
  obtain ⟨other, nextCell⟩ := (cells_served ordered.toSound).mpr served
  have cell : manager.cells blockId = some block.times := by simp [cells, seen]
  exact ordered.partitioned.below blockId next _ _ _ cell nextCell ⟨record, found⟩ before

theorem Ordered.served_of_record (ordered : manager.Ordered) {blockId : Nat} {record : Record}
    (held : record ∈ manager.recordsOf blockId) : blockId ∈ manager.blockIndex.activeTree := by
  obtain ⟨block, seen, _⟩ := mem_recordsOf.mp held
  exact ((ordered.toSteady.view_iff blockId block).mp seen).1

omit [Codec] in
theorem recordsOf_sorted (manager : BlockManager) (blockId : Nat) :
    (manager.recordsOf blockId).Pairwise fun first second => first.timestamp < second.timestamp := by
  cases seen : manager.view blockId with
  | none => simp [recordsOf, seen]
  | some block => simpa [recordsOf, seen] using block.records_sorted

theorem Ordered.records_apart (ordered : manager.Ordered) {first second : Nat} (before : first < second)
    {left right : Record} (inFirst : left ∈ manager.recordsOf first) (inSecond : right ∈ manager.recordsOf second) :
    left.timestamp < right.timestamp :=
  (ordered.lt_block before (ordered.served_of_record inSecond) inFirst).trans_le (ordered.block_le inSecond)

theorem Ordered.timeline_sorted (ordered : manager.Ordered) {blockIds : List Nat}
    (sorted : blockIds.Pairwise (· < ·)) :
    (manager.timeline blockIds).Pairwise fun first second => first.timestamp < second.timestamp := by
  refine List.pairwise_flatMap.mpr ⟨fun blockId _ => recordsOf_sorted manager blockId, sorted.imp ?_⟩
  intro first second before left inFirst right inSecond
  exact ordered.records_apart before inFirst inSecond

theorem Ordered.mem_timeline (ordered : manager.Ordered) {record : Record} :
    record ∈ manager.timeline manager.blockIndex.activeTree ↔
      ∃ blockId block, manager.view blockId = some block ∧ block.getRecord record.timestamp = some record := by
  simp only [timeline, List.mem_flatMap, mem_recordsOf]
  refine exists_congr fun blockId => ⟨fun both => both.2, fun found => ⟨?_, found⟩⟩
  exact ordered.served_of_record (mem_recordsOf.mpr found)

end Order

section Writes

variable {manager : BlockManager}

theorem Ordered.transfer_steps (ordered : manager.Ordered) (write : Transfer)
    (whole : manager.splits write.call = false) : WriterRun manager (manager.transfer write) := by
  have written := beginWrite_written ordered.toSound write.call
    (not_displaces ordered.toSound ordered.partitioned whole)
  rcases reply : manager.beginWrite write.call with ⟨result, middle⟩
  rw [reply] at written
  rw [transfer, BlockManager.writeRecord, reply]
  cases result with
  | error failure => exact written.steps
  | ok context =>
    obtain ⟨block, opened⟩ := written.outcome.opened ordered.toSteady
    obtain ⟨record, held, _⟩ := opened.held
    have seen : middle.view context.blockId = some block := by
      rw [show middle.view = _ from opened.view, Function.update_self]
    obtain ⟨run, _⟩ := (written.run.sound ordered.toSound).runWriter context write.messages seen
      (by rw [opened.time]; exact held)
    exact written.steps.trans run

end Writes

structure Legible (manager : BlockManager) : Prop extends Ordered manager where
  present : manager.Present

theorem legible_created (path bucket entry : String) (backendType : BackendType) (evictions : List (List Nat)) :
    (created path bucket entry backendType evictions).Legible :=
  { ordered_created path bucket entry backendType evictions with
    present := fun blockId served => by simp [InService, activeTree_created] at served }

theorem legible_of_writes {manager : BlockManager} (path bucket entry : String) (backendType : BackendType)
    (evictions : List (List Nat))
    (run : Runs transfer (fun current write => current.splits write.call = false)
      (created path bucket entry backendType evictions) manager) : manager.Legible := by
  refine run.invariant Legible (legible_created path bucket entry backendType evictions) fun current write legible whole => ?_
  exact { (legible.toOrdered.writeRecord write.messages whole).1 with
    present := (legible.toOrdered.transfer_steps write whole).reaches.present legible.toSound legible.present }

structure Rereads (origin manager : BlockManager) : Prop extends Legible manager where
  view : manager.view = origin.view
  index : manager.blockIndex = origin.blockIndex

theorem Legible.rereads {manager : BlockManager} (legible : manager.Legible) : Rereads manager manager :=
  { legible with view := rfl, index := rfl }

theorem Rereads.load {origin manager : BlockManager} (reads : Rereads origin manager) {blockId : Nat}
    (served : origin.InService blockId) :
    ∃ ref after, manager.loadBlock blockId = (.ok ref, after) ∧ Rereads origin after ∧ ref < after.next ∧
      origin.view blockId = some (after.heap ref) := by
  have inService : manager.InService blockId := by rwa [InService, reads.index]
  obtain ⟨ref, after, result, loaded⟩ := reads.toSteady.load blockId inService
  have sound := (Primitive.load loaded).sound reads.toSound
  have view := loaded.view reads.toSteady
  have partitioned : Partitioned after.cells := by
    have same : after.cells = manager.cells := by
      funext other
      rw [cells, cells, view]
    rw [same]
    exact reads.partitioned
  refine ⟨ref, after, result, ?_, loaded.fresh, ?_⟩
  · exact { sound with
      partitioned
      present := (Primitive.load loaded).present reads.toSteady reads.present
      view := view.trans reads.view
      index := loaded.index.trans reads.index }
  · rw [← reads.view, ← view, sound.toSteady.cached_view loaded.cached]

theorem Rereads.recordsOf {origin manager : BlockManager} (reads : Rereads origin manager) :
    manager.recordsOf = origin.recordsOf := by
  funext blockId
  rw [BlockManager.recordsOf, BlockManager.recordsOf, reads.view]

theorem Rereads.timeline {origin manager : BlockManager} (reads : Rereads origin manager) :
    manager.timeline manager.blockIndex.activeTree = origin.timeline origin.blockIndex.activeTree := by
  rw [BlockManager.timeline, BlockManager.timeline, reads.index, reads.recordsOf]

structure Mirrors (manager : BlockManager) (ref : BlockRef) (blockId : Nat) : Prop where
  fresh : ref < manager.next
  named : (manager.heap ref).blockId = blockId
  occupied : (manager.heap ref).Occupied
  within : ∃ block, manager.view blockId = some block ∧ (manager.heap ref).times ⊆ block.times

theorem Legible.mirrors {manager : BlockManager} (legible : manager.Legible) {ref : BlockRef} {blockId : Nat} (fresh : ref < manager.next)
    (seen : manager.view blockId = some (manager.heap ref)) : Mirrors manager ref blockId where
  fresh := fresh
  named := legible.toSteady.view_named seen
  occupied := by
    obtain ⟨time, held⟩ := legible.partitioned.inhabited blockId (manager.heap ref).times (by simp [cells, seen])
    exact ⟨time, held⟩
  within := ⟨_, seen, subset_rfl⟩

theorem Mirrors.served {manager : BlockManager} {ref : BlockRef} {blockId : Nat} (mirrors : Mirrors manager ref blockId)
    (steady : manager.Steady) : manager.InService blockId := by
  obtain ⟨block, seen, _⟩ := mirrors.within
  exact ((steady.view_iff blockId block).mp seen).1

theorem Mirrors.latest_lt {manager : BlockManager} {ref : BlockRef} {blockId next : Nat}
    (mirrors : Mirrors manager ref blockId) (ordered : manager.Ordered) (served : manager.InService next)
    (later : blockId < next) : (manager.heap ref).latestRecordTime < next := by
  obtain ⟨block, seen, known⟩ := mirrors.within
  obtain ⟨record, found⟩ := known (Block.latestRecordTime_present mirrors.occupied)
  have stamped := Block.getRecord_timestamp found
  rw [← stamped] at found ⊢
  exact ordered.lt_block later served (mem_recordsOf.mpr ⟨block, seen, found⟩)

end BlockManager

namespace HistoricalQuery

open BlockManager

variable [Codec] {origin manager : BlockManager} {query : HistoricalQuery} {start : Option WhenFilter}

structure Conditional (query : HistoricalQuery) (start : Option WhenFilter) : Prop
    extends query.filters.Follows start where
  stop : query.filters.timeRange.stop = query.stopTime
  calm : query.isInterrupted = false

abbrev remaining (query : HistoricalQuery) (origin : BlockManager) : List Record :=
  wanted query.filters.timeRange.start query.stopTime (origin.timeline origin.blockIndex.activeTree)

abbrev SpentBlock (query : HistoricalQuery) (origin : BlockManager) (blockId : Nat) : Prop :=
  Spent Record.timestamp query.filters.timeRange.start query.stopTime (origin.recordsOf blockId)

def returns (query : HistoricalQuery) (start : Option WhenFilter) (origin : BlockManager) (later : List Record) :
    List Record :=
  query.recordsFromCurrentBlock ++
    (Gate.passing judge query.filters.memory (query.remaining origin ++ later)).map (selection start)

structure At (query : HistoricalQuery) (manager : BlockManager) (ref : BlockRef) (blockId : Nat) : Prop
    extends Mirrors manager ref blockId where
  spent : ∀ other < blockId, query.SpentBlock manager other
  waiting : ∀ record ∈ query.recordsFromCurrentBlock, record.timestamp ∈ (manager.heap ref).times

structure Positioned (query : HistoricalQuery) (manager : BlockManager) : Prop where
  started : query.startTime ≤ query.filters.timeRange.start
  bounded : ∀ bound, query.startTime ≤ bound →
    (∀ record ∈ manager.timeline manager.blockIndex.activeTree, record.timestamp < bound) →
      query.filters.timeRange.start ≤ bound

structure Resumes (query : HistoricalQuery) (start : Option WhenFilter) (manager : BlockManager) : Prop
    extends query.Conditional start, query.Positioned manager where
  reads : manager.Legible
  fresh : query.currentBlock = none →
    query.recordsFromCurrentBlock = [] ∧ query.filters.timeRange.start = query.startTime
  current : ∀ ref, query.currentBlock = some ref → ∃ blockId, query.At manager ref blockId

omit [Codec] in
theorem Conditional.scanBlock (conditional : query.Conditional start) (uninterrupted : Uninterrupted start)
    (manager : BlockManager) (ref : BlockRef) (empty : query.recordsFromCurrentBlock = []) :
    ∃ filters, query.scanBlock manager ref =
        (.ok (), { query with
          currentBlock := some ref
          recordsFromCurrentBlock := query.filters.decided start (manager.heap ref).records
          filters }) ∧
      query.filters.Decided start (manager.heap ref).records filters := by
  have sorted := (manager.heap ref).records_sorted
  obtain ⟨filters, applied, decided⟩ := conditional.toFollows.applyAll uninterrupted sorted
  refine ⟨filters, ?_, decided⟩
  have kept : (query.filters.decided start (manager.heap ref).records).Pairwise
      fun first second => first.timestamp ≤ second.timestamp := by
    refine List.pairwise_map.mpr ?_
    simp only [timestamp_selection]
    exact ((sorted.imp fun before => before.le).filter _).sublist (Gate.passing_sublist _ _)
  rw [HistoricalQuery.scanBlock, filterRecordsFromBlock]
  simp only [show (manager.heap ref).recordIndex.toList.map Prod.snd = (manager.heap ref).records from rfl, applied]
  simp only [empty, List.nil_append, Bool.or_false, kept.insertionSort_eq]

omit [Codec] in
theorem Conditional.scanned (conditional : query.Conditional start) {scan : HistoricalQuery} {records : List Record}
    (early late : List Record) (decided : query.filters.Decided start records scan.filters)
    (same : scan.stopTime = query.stopTime) (before : Spent Record.timestamp query.filters.timeRange.start query.stopTime early)
    (apart : ∀ record ∈ records, ∀ other ∈ late, record.timestamp < other.timestamp)
    (split : origin.timeline origin.blockIndex.activeTree = early ++ records ++ late) :
    query.remaining origin =
      wanted query.filters.timeRange.start query.filters.timeRange.stop records ++ scan.remaining origin := by
  have moved := decided.moved
  rw [conditional.stop] at moved ⊢
  rw [remaining, remaining, split, same]
  exact moved.within_advance before apart

theorem Conditional.scanBlocks (early blockIds late : List Nat) (conditional : query.Conditional start)
    (uninterrupted : Uninterrupted start) (reads : Rereads origin manager) (empty : query.recordsFromCurrentBlock = [])
    (split : origin.blockIndex.activeTree = early ++ blockIds ++ late) (ordered : origin.Ordered)
    (before : ∀ blockId ∈ early, query.SpentBlock origin blockId)
    (behind : ∀ blockId ∈ late, ∀ record ∈ origin.recordsOf blockId, query.stopTime ≤ record.timestamp)
    (positioned : query.Positioned origin) :
    ∃ after last, HistoricalQuery.scanBlocks blockIds query manager = (.ok (), after, last) ∧ Rereads origin last ∧
      (∀ later, query.returns start origin later = after.returns start origin later) ∧
      (after.recordsFromCurrentBlock = [] → after.remaining origin = []) ∧
      (after.recordsFromCurrentBlock ≠ [] → after.Resumes start last) := by
  induction blockIds generalizing query manager early with
  | nil =>
    refine ⟨query, manager, rfl, reads, fun _ => rfl, fun _ => Spent.within fun record member => ?_,
      fun some => absurd empty some⟩
    obtain ⟨blockId, inside, held⟩ := List.mem_flatMap.mp member
    rw [split, List.append_nil] at inside
    rcases List.mem_append.mp inside with inEarly | inLate
    · exact before blockId inEarly record held
    · exact Or.inr (behind blockId inLate record held)
  | cons blockId blockIds ih =>
    have served : origin.InService blockId := by
      rw [InService, split]
      simp
    have sorted := BlockIndex.activeTree_sorted origin.blockIndex
    rw [split] at sorted
    obtain ⟨ref, middle, loaded, again, fresh, content⟩ := reads.load served
    obtain ⟨filters, scanned, decided⟩ := conditional.scanBlock uninterrupted middle ref empty
    have own : origin.recordsOf blockId = (middle.heap ref).records := by simp [recordsOf, content]
    rw [HistoricalQuery.scanBlocks, loaded]
    simp only [scanned]
    set scan : HistoricalQuery := { query with
      currentBlock := some ref
      recordsFromCurrentBlock := query.filters.decided start (middle.heap ref).records
      filters } with scanEq
    have scanConditional : scan.Conditional start :=
      { decided.toFollows with stop := decided.stop.trans conditional.stop, calm := conditional.calm }
    have moved := decided.moved
    rw [conditional.stop] at moved
    have done : ∀ other ∈ early ++ [blockId], scan.SpentBlock origin other := by
      intro other member
      rcases List.mem_append.mp member with inEarly | this
      · exact (before other inEarly).later moved.later
      · obtain rfl := List.mem_singleton.mp this
        rw [SpentBlock, own]
        exact moved.spent
    have pieces : origin.timeline origin.blockIndex.activeTree =
        origin.timeline early ++ (middle.heap ref).records ++ origin.timeline (blockIds ++ late) := by
      rw [split, timeline, timeline, timeline, ← own]
      simp
    have advance : query.remaining origin = wanted query.filters.timeRange.start query.filters.timeRange.stop
        (middle.heap ref).records ++ scan.remaining origin := by
      refine conditional.scanned _ _ decided rfl (fun record member => ?_) (fun record inside other member => ?_) pieces
      · obtain ⟨earlier, inEarly, held⟩ := List.mem_flatMap.mp member
        exact before earlier inEarly record held
      · obtain ⟨later, inLater, held⟩ := List.mem_flatMap.mp member
        have follows : blockId < later := by
          rw [List.append_assoc] at sorted
          exact (List.pairwise_cons.mp (List.pairwise_append.mp sorted).2.1).1 later (by simpa using inLater)
        exact ordered.records_apart follows (own ▸ inside) held
    have same (later : List Record) : query.returns start origin later = scan.returns start origin later := by
      rw [returns, returns, empty, List.nil_append, advance, List.append_assoc, Gate.passing_append, List.map_append,
        ← decided.remembered]
      rfl
    have scanPositioned : scan.Positioned origin := by
      refine ⟨positioned.started.trans moved.later, fun bound reached above => ?_⟩
      refine moved.bounded bound (positioned.bounded bound reached above) fun record inside => above record ?_
      rw [pieces]
      simp [inside]
    by_cases none : scan.recordsFromCurrentBlock = []
    · rw [if_pos none]
      obtain ⟨after, last, result, final, returned, nothing, something⟩ := ih (early ++ [blockId]) scanConditional again
        none (by rw [split]; simp) done behind scanPositioned
      exact ⟨after, last, result, final, fun later => (same later).trans (returned later), nothing, something⟩
    · rw [if_neg none]
      refine ⟨scan, middle, rfl, again, same, fun nil => absurd nil none, fun _ => ?_⟩
      have seen : middle.view blockId = some (middle.heap ref) := by rw [again.view, content]
      refine { scanConditional with
        started := scanPositioned.started
        bounded := by rw [again.timeline]; exact scanPositioned.bounded
        reads := again.toLegible
        fresh := fun absent => (by cases absent)
        current := ?_ }
      intro other equal
      obtain rfl := Option.some.inj equal
      refine ⟨blockId, { again.toLegible.mirrors fresh seen with
        spent := fun other less => ?_, waiting := fun record member => ?_ }⟩
      · rw [SpentBlock, again.recordsOf]
        intro record held
        have member : other ∈ early ++ [blockId] := by
          have inside := ordered.served_of_record held
          rw [split, List.append_assoc] at inside
          rw [List.append_assoc] at sorted
          rcases List.mem_append.mp inside with inEarly | inRest
          · exact List.mem_append_left _ inEarly
          · rcases List.mem_cons.mp inRest with rfl | inTail
            · simp
            · have follows := (List.pairwise_cons.mp (List.pairwise_append.mp sorted).2.1).1 other inTail
              omega
        exact done other member record held
      · obtain ⟨source, inside, rfl⟩ := List.mem_map.mp member
        rw [timestamp_selection]
        have held := (mem_within.mp ((Gate.passing_sublist _ _).subset inside)).1
        exact ⟨source, (Block.mem_records _ source).mp held⟩

def SearchesFrom (query : HistoricalQuery) (manager : BlockManager) (time : Nat) : Prop :=
  (query.currentBlock = none → time = query.startTime) ∧
    ∀ ref, query.currentBlock = some ref → time = (manager.heap ref).latestRecordTime

theorem blockRange_eq {time : Nat} (searches : query.SearchesFrom manager time) (legible : manager.Legible) :
    ∃ first after, query.blockRange manager =
        (if first > query.stopTime then ([], after)
          else (manager.blockIndex.activeTree.filter fun blockId => first ≤ blockId ∧ blockId < query.stopTime, after)) ∧
      Rereads manager after ∧ (first = 0 ∨ manager.InService first ∧ first ≤ time) := by
  obtain ⟨first, after, again, search, place⟩ : ∃ first after, Rereads manager after ∧
      ((∃ failure, manager.findBlock time = (.error failure, after) ∧ first = 0) ∨
        ∃ ref, manager.findBlock time = (.ok ref, after) ∧ first = (after.heap ref).blockId) ∧
      (first = 0 ∨ manager.InService first ∧ first ≤ time) := by
    rw [findBlock]
    cases found : manager.findBlockId time with
    | error failure => exact ⟨0, manager, legible.rereads, Or.inl ⟨failure, rfl, rfl⟩, Or.inl rfl⟩
    | ok blockId =>
      obtain ⟨served, early, _⟩ := (findBlockId_iff manager time blockId).mp found
      obtain ⟨ref, after, loaded, again, _, content⟩ := legible.rereads.load served
      have name := again.toSteady.view_named (again.view ▸ content)
      exact ⟨blockId, after, again, Or.inr ⟨ref, loaded, name.symm⟩, Or.inr ⟨served, early⟩⟩
  refine ⟨first, after, ?_, again, place⟩
  rw [blockRange]
  cases current : query.currentBlock with
  | none =>
    obtain rfl := searches.1 current
    rcases search with ⟨failure, found, rfl⟩ | ⟨ref, found, rfl⟩ <;> simp only [found, again.index]
  | some block =>
    obtain rfl := searches.2 block current
    rcases search with ⟨failure, found, rfl⟩ | ⟨ref, found, rfl⟩ <;> simp only [found, again.index]

theorem Resumes.spent {time first : Nat} (resumes : query.Resumes start manager)
    (searches : query.SearchesFrom manager time) (place : first = 0 ∨ manager.InService first ∧ first ≤ time)
    (blockId : Nat) (before : blockId < first) : query.SpentBlock manager blockId := by
  obtain ⟨served, early⟩ := place.resolve_left (by omega)
  cases current : query.currentBlock with
  | none =>
    intro record held
    have := resumes.reads.lt_block before served held
    have from_ := searches.1 current
    rw [(resumes.fresh current).2]
    omega
  | some ref =>
    obtain ⟨present, standing⟩ := resumes.current ref current
    have latest := searches.2 ref current
    refine standing.spent blockId ?_
    by_contra beyond
    have := standing.toMirrors.latest_lt resumes.reads.toOrdered served (by omega)
    omega

theorem Resumes.blockRange (resumes : query.Resumes start manager) :
    ∃ early blockIds late after, query.blockRange manager = (blockIds, after) ∧ Rereads manager after ∧
      manager.blockIndex.activeTree = early ++ blockIds ++ late ∧
      (∀ blockId ∈ early, query.SpentBlock manager blockId) ∧
      ∀ blockId ∈ late, ∀ record ∈ manager.recordsOf blockId, query.stopTime ≤ record.timestamp := by
  obtain ⟨time, searches⟩ : ∃ time, query.SearchesFrom manager time := by
    cases current : query.currentBlock with
    | none => exact ⟨_, fun _ => rfl, fun _ absent => by cases current.symm.trans absent⟩
    | some ref =>
      refine ⟨(manager.heap ref).latestRecordTime, fun absent => (by cases current.symm.trans absent), fun other same => ?_⟩
      obtain rfl := Option.some.inj (current.symm.trans same)
      rfl
  obtain ⟨first, after, range, reads, place⟩ := blockRange_eq searches resumes.reads
  have sorted := BlockIndex.activeTree_sorted manager.blockIndex
  have early (blockId : Nat) (member : blockId ∈ manager.blockIndex.activeTree.filter (· < first)) :
      query.SpentBlock manager blockId :=
    resumes.spent searches place blockId (by simpa using (List.mem_filter.mp member).2)
  have behind (blockId : Nat) (above : query.stopTime ≤ blockId) (record : Record)
      (held : record ∈ manager.recordsOf blockId) : query.stopTime ≤ record.timestamp :=
    above.trans (resumes.reads.block_le held)
  by_cases beyond : first > query.stopTime
  · rw [if_pos beyond] at range
    refine ⟨_, [], manager.blockIndex.activeTree.filter (first ≤ ·), after, range, reads, ?_, early,
      fun blockId member => behind blockId ?_⟩
    · rw [List.append_nil]
      exact (filter_lt_append_filter_le sorted first).symm
    · have : first ≤ blockId := by simpa using (List.mem_filter.mp member).2
      omega
  · rw [if_neg beyond] at range
    refine ⟨_, _, _, after, range, reads, (filter_lt_le_append sorted first query.stopTime).symm, early,
      fun blockId member => behind blockId ?_⟩
    have : first ≤ blockId ∧ query.stopTime ≤ blockId := by simpa using (List.mem_filter.mp member).2
    exact this.2

theorem Resumes.fill (resumes : query.Resumes start manager) (uninterrupted : Uninterrupted start) :
    ∃ after last, query.fill manager = (.ok (), after, last) ∧ Rereads manager last ∧
      (∀ later, query.returns start manager later = after.returns start manager later) ∧
      (after.recordsFromCurrentBlock = [] → after.remaining manager = []) ∧
      (after.recordsFromCurrentBlock ≠ [] → after.Resumes start last) := by
  rw [HistoricalQuery.fill]
  by_cases empty : query.recordsFromCurrentBlock = []
  · rw [if_pos ⟨empty, resumes.calm⟩]
    obtain ⟨early, blockIds, late, middle, range, reads, split, before, behind⟩ := resumes.blockRange
    rw [range]
    exact resumes.toConditional.scanBlocks early blockIds late uninterrupted reads empty split resumes.reads.toOrdered
      before behind resumes.toPositioned
  · rw [if_neg (fun both => empty both.1)]
    exact ⟨query, manager, rfl, resumes.reads.rereads, fun _ => rfl, fun nil => absurd nil empty, fun _ => resumes⟩

theorem At.tryNew {ref : BlockRef} {blockId : Nat} (standing : query.At manager ref blockId)
    (legible : manager.Legible) {record : Record} (waits : record ∈ query.recordsFromCurrentBlock) :
    ∃ reader, RecordReader.tryNew manager ref record.timestamp (some record) = .ok reader ∧
      reader.recordMeta = record := by
  obtain ⟨stored, found⟩ := standing.waiting record waits
  obtain ⟨file, present⟩ := legible.present blockId (standing.toMirrors.served legible.toSteady)
  rw [RecordReader.tryNew]
  simp only [found, standing.named, present]
  exact ⟨_, by rw [if_neg (by simp)], rfl⟩

theorem Resumes.next (resumes : query.Resumes start manager) (uninterrupted : Uninterrupted start) :
    (∃ reader after last, query.next manager = (.ok reader, after, last) ∧ Rereads manager last ∧
      after.Resumes start last ∧
      ∀ later, query.returns start manager later = reader.recordMeta :: after.returns start manager later) ∨
    ∃ after last, query.next manager = (.error noContent, after, last) ∧ Rereads manager last ∧
      query.returns start manager [] = [] := by
  obtain ⟨filled, last, result, reads, returned, nothing, something⟩ := resumes.fill uninterrupted
  rw [HistoricalQuery.next, result]
  cases front : filled.recordsFromCurrentBlock with
  | nil =>
    refine Or.inr ⟨filled, last, ?_, reads, ?_⟩
    · simp only [take, front]
    · rw [returned, returns, nothing front, front]
      rfl
  | cons record others =>
    have ready := something (by simp [front])
    have waiting : record ∈ filled.recordsFromCurrentBlock := by rw [front]; exact List.mem_cons_self
    cases current : filled.currentBlock with
    | none => rw [(ready.fresh current).1] at front; cases front
    | some ref =>
      obtain ⟨blockId, standing⟩ := ready.current ref current
      obtain ⟨reader, opened, own⟩ := standing.tryNew ready.reads waiting
      set after : HistoricalQuery := { filled with recordsFromCurrentBlock := others } with afterEq
      have resumed : after.Resumes start last := by
        refine { ready.toConditional with
          started := ready.started
          bounded := ready.bounded
          reads := ready.reads
          fresh := fun absent => (by cases current.symm.trans absent)
          current := fun other same => ?_ }
        obtain rfl := Option.some.inj (current.symm.trans same)
        exact ⟨blockId, { standing.toMirrors with
          spent := standing.spent
          waiting := fun waiting member => standing.waiting waiting (by rw [front]; exact List.mem_cons_of_mem _ member) }⟩
      have first (later : List Record) :
          query.returns start manager later = record :: after.returns start manager later := by
        rw [returned, returns, front]
        rfl
      refine Or.inl ?_
      by_cases metadata : filled.onlyMetadata = true
      · refine ⟨RecordReader.formRecord filled.entryName record, after, last, ?_, reads, resumed, first⟩
        simp only [take, front, current, if_pos metadata, afterEq]
      · refine ⟨reader, after, last, ?_, reads, resumed, own ▸ first⟩
        simp only [take, front, current, if_neg metadata, opened, afterEq]

theorem returns_rereads (reads : Rereads manager origin) (later : List Record) :
    query.returns start origin later = query.returns start manager later := by
  rw [returns, returns, remaining, remaining, reads.timeline]

theorem Resumes.collect {rest : List Record} (resumes : query.Resumes start manager) (uninterrupted : Uninterrupted start)
    (left : query.returns start manager [] = rest) :
    ∃ readers : List RecordReader, readers.map RecordReader.recordMeta = rest ∧
      ∀ calls, readers.length < calls → collect calls query manager = (readers, some noContent) := by
  induction rest generalizing query manager with
  | nil =>
    rcases resumes.next uninterrupted with ⟨reader, after, last, result, _, _, first⟩ | ⟨after, last, ended, _, _⟩
    · rw [first] at left
      cases left
    · refine ⟨[], rfl, fun calls enough => ?_⟩
      obtain ⟨calls, rfl⟩ := Nat.exists_eq_add_one.mpr enough
      rw [HistoricalQuery.collect, ended]
  | cons record rest ih =>
    rcases resumes.next uninterrupted with ⟨reader, after, last, result, reads, resumed, first⟩ | ⟨_, _, _, _, nothing⟩
    · rw [first] at left
      obtain ⟨own, left⟩ := List.cons.inj left
      obtain ⟨readers, same, later⟩ := ih resumed ((returns_rereads reads []).trans left)
      refine ⟨reader :: readers, by rw [List.map_cons, own, same], fun calls enough => ?_⟩
      obtain ⟨calls, rfl⟩ := Nat.exists_eq_add_one.mpr (Nat.zero_lt_of_lt enough)
      rw [HistoricalQuery.collect, result]
      simp only [later calls (by simpa using enough)]
    · rw [nothing] at left
      cases left

theorem resumes_new (legible : manager.Legible) (entryName : String) (startTime stopTime : Nat)
    (filter : Option WhenFilter) (unpadded : ∀ condition, filter = some condition → condition.ctxBefore.isZero = true)
    (nothing : filter.map WhenFilter.memory = filter) (onlyMetadata : Bool) :
    (new entryName startTime stopTime filter onlyMetadata).Resumes filter manager where
  finished := rfl
  waiting := fun condition present => by
    rw [show filter = some condition from present, Option.map_some, Option.some.injEq] at nothing
    have empty : condition.ctxBuffer = [] := by rw [← nothing]; rfl
    exact ⟨by simp [empty], by simp [empty]⟩
  unpadded := unpadded
  selects := rfl
  reached := ⟨[], nothing⟩
  stop := rfl
  calm := rfl
  reads := legible
  fresh := fun _ => ⟨rfl, rfl⟩
  current := fun _ absent => by cases absent
  started := le_rfl
  bounded := fun _ reached _ => reached

omit [Codec] in
theorem returns_new (manager : BlockManager) (entryName : String) (startTime stopTime : Nat) (filter : Option WhenFilter)
    (nothing : filter.map WhenFilter.memory = filter) (onlyMetadata : Bool) (later : List Record) :
    (new entryName startTime stopTime filter onlyMetadata).returns filter manager later =
      (Gate.passing judge filter
        (wanted startTime stopTime (manager.timeline manager.blockIndex.activeTree) ++ later)).map (selection filter) := by
  simp only [returns, new, Filters.memory, nothing, List.nil_append]

/-- A query of an entry whose writes split no block returns each finished record of its range once, in the order
    of time. -/
theorem collect_finished (path bucket entry : String) (backendType : BackendType) (evictions : List (List Nat))
    (manager : BlockManager)
    (run : Runs transfer (fun current write => current.splits write.call = false)
      (created path bucket entry backendType evictions) manager)
    (entryName : String) (startTime stopTime : Nat) (onlyMetadata : Bool) :
    ∃ readers : List RecordReader,
      (∀ calls, readers.length < calls →
        collect calls (new entryName startTime stopTime none onlyMetadata) manager = (readers, some noContent)) ∧
      (readers.map fun reader => reader.recordMeta.timestamp).Pairwise (· < ·) ∧
      ∀ record, (∃ reader ∈ readers, reader.recordMeta = record) ↔
        (∃ blockId block, manager.view blockId = some block ∧ block.getRecord record.timestamp = some record) ∧
          record.state = .finished ∧ startTime ≤ record.timestamp ∧ record.timestamp < stopTime := by
  have legible := legible_of_writes path bucket entry backendType evictions run
  have ordered := legible.toOrdered
  have resumes := resumes_new legible entryName startTime stopTime none (fun _ absent => by cases absent)
    rfl onlyMetadata
  have returned := returns_new manager entryName startTime stopTime none rfl onlyMetadata []
  rw [List.append_nil, passing_none, show selection none = id from rfl, List.map_id] at returned
  obtain ⟨readers, same, collected⟩ := resumes.collect uninterrupted_none returned
  have sorted := (ordered.timeline_sorted (BlockIndex.activeTree_sorted manager.blockIndex)).filter
    fun record => decide (startTime ≤ record.timestamp ∧ record.timestamp < stopTime) && record.isFinished
  refine ⟨readers, collected, ?_, fun record => ?_⟩
  · rw [show (readers.map fun reader => reader.recordMeta.timestamp) =
      (readers.map RecordReader.recordMeta).map Record.timestamp by simp, same]
    exact List.pairwise_map.mpr sorted
  · rw [← List.mem_map, same, mem_within, ordered.mem_timeline, Record.isFinished, decide_eq_true_iff]
    tauto

end HistoricalQuery

end ReductStore

namespace ReductStore.HistoricalQuery

open BlockManager

theorem collect_finished_belated :
    ∃ readers : List RecordReader,
      (∀ calls, readers.length < calls →
        collect calls (new "entry" 6 10 none false) belatedEntry = (readers, some noContent)) ∧
      (readers.map fun reader => reader.recordMeta.timestamp).Pairwise (· < ·) ∧
      ∀ record, (∃ reader ∈ readers, reader.recordMeta = record) ↔
        (∃ blockId block, belatedEntry.view blockId = some block ∧ block.getRecord record.timestamp = some record) ∧
          record.state = .finished ∧ 6 ≤ record.timestamp ∧ record.timestamp < 10 :=
  collect_finished "entry" "bucket" "entry" .filesystem [] _ (.of_list belatedTransfers _ (by decide +kernel))
    "entry" 6 10 false

theorem collect_misses_record :
    Runs transfer (fun _ _ => True) smallEntry splitEntry ∧
      ((splitEntry.view 2).bind fun block => (block.getRecord 2).map Record.state) = some .finished ∧
      (collect 10 (new "entry" 0 10 none false) splitEntry).1.map (fun reader => reader.recordMeta.timestamp) = [1, 3] ∧
      (collect 10 (new "entry" 0 10 none false) splitEntry).2 = some noContent := by
  refine ⟨?_, ?_, ?_, ?_⟩
  · exact .step (.step (.step .start (smallTransfer 1) trivial) (smallTransfer 3) trivial) (smallTransfer 2) trivial
  · decide +kernel
  · decide +kernel
  · decide +kernel

end ReductStore.HistoricalQuery
