import ReductStore.Query.Historical
import ReductStore.Storage.Partition

set_option autoImplicit false

namespace ReductStore

def Padding.isZero : Padding → Bool
  | .records count => count = 0
  | .duration us => us = 0

section Queue

variable {before : Padding} {ctxBuffer : List Record} {record other : Record}

theorem mem_queueRecord (member : other ∈ queueRecord before ctxBuffer record) : other ∈ ctxBuffer ∨ other = record := by
  have queued : other ∈ ctxBuffer ++ [record] := by
    cases before with
    | records count =>
      simp only [queueRecord] at member
      split at member
      · exact List.mem_of_mem_tail member
      · exact member
    | duration us => exact (List.dropWhile_sublist _).subset member
  simpa using queued

theorem queueRecord_zero (zero : before.isZero = true) (short : before = .records 0 → ctxBuffer.length ≤ 1)
    (earlier : ∀ other ∈ ctxBuffer, other.timestamp < record.timestamp) :
    queueRecord before ctxBuffer record = [record] := by
  cases before with
  | records count =>
    obtain rfl : count = 0 := by simpa [Padding.isZero] using zero
    have length := short rfl
    match ctxBuffer, length with
    | [], _ => rfl
    | [_], _ => rfl
  | duration us =>
    obtain rfl : us = 0 := by simpa [Padding.isZero] using zero
    have dropped : ctxBuffer.dropWhile (fun first => record.timestamp - first.timestamp > 0) = [] := by
      rw [List.dropWhile_eq_nil_iff]
      intro first member
      have := earlier first member
      simp
      omega
    simp only [queueRecord]
    rw [List.dropWhile_append, dropped]
    simp

theorem queueRecord_short (record : Record) (short : ctxBuffer.length ≤ 1) :
    (queueRecord (.records 0) ctxBuffer record).length ≤ 1 := by
  match ctxBuffer, short with
  | [], _ => exact le_rfl
  | [_], _ => exact le_rfl

end Queue

def Block.Holds (block : Block) (record : Record) : Prop :=
  ∃ stored, block.getRecord record.timestamp = some stored ∧ stored.beginPos = record.beginPos ∧
    stored.endPos = record.endPos

theorem Block.holds_select {block : Block} {record : Record} (holds : block.Holds record) (names : List String) :
    block.Holds (selectLabels names record) := by
  rw [selectLabels]
  split
  · exact holds
  · exact holds

def WhenFilter.Clean (filter : WhenFilter) (block : Block) : Prop :=
  filter.ctxBefore.isZero = true ∨ ∀ record ∈ filter.ctxBuffer, block.Holds record

structure WhenFilter.Waiting (filter : WhenFilter) (start : Nat) : Prop where
  earlier : ∀ record ∈ filter.ctxBuffer, record.timestamp < start
  short : filter.ctxBefore = .records 0 → filter.ctxBuffer.length ≤ 1

namespace WhenFilter

variable {filter : WhenFilter} {block : Block} {record : Record}

theorem queued_holds (waiting : filter.Waiting record.timestamp) (clean : filter.Clean block)
    (holds : block.Holds record) :
    ∀ other ∈ queueRecord filter.ctxBefore filter.ctxBuffer record, block.Holds other := by
  intro other member
  rcases clean with zero | held
  · rw [queueRecord_zero zero waiting.short waiting.earlier, List.mem_singleton] at member
    exact member ▸ holds
  · rcases mem_queueRecord member with old | rfl
    · exact held other old
    · exact holds

theorem queued_waiting (waiting : filter.Waiting record.timestamp) :
    (∀ other ∈ queueRecord filter.ctxBefore filter.ctxBuffer record, other.timestamp < record.timestamp + 1) ∧
      (filter.ctxBefore = .records 0 → (queueRecord filter.ctxBefore filter.ctxBuffer record).length ≤ 1) := by
  refine ⟨fun other member => ?_, fun none => ?_⟩
  · rcases mem_queueRecord member with old | rfl
    · exact Nat.lt_succ_of_lt (waiting.earlier other old)
    · exact Nat.lt_succ_self _
  · rw [none]
    exact queueRecord_short record (waiting.short none)

theorem filter_holds (waiting : filter.Waiting record.timestamp) (clean : filter.Clean block)
    (holds : block.Holds record) :
    (filter.filter record).2.Waiting (record.timestamp + 1) ∧ (filter.filter record).2.Clean block ∧
      ∀ found, (filter.filter record).1 = .ok (some found) → ∀ other ∈ found, block.Holds other := by
  have queued := queued_holds waiting clean holds
  obtain ⟨earlier, short⟩ := queued_waiting waiting
  rw [WhenFilter.filter]
  simp only
  split
  · exact ⟨⟨earlier, short⟩, Or.inr queued, by simp⟩
  · exact ⟨⟨earlier, short⟩, Or.inr queued, by simp⟩
  · split
    · refine ⟨⟨by simp, by simp⟩, Or.inr (by simp), fun found same other member => ?_⟩
      obtain rfl : _ = found := Option.some.inj (Except.ok.inj same)
      obtain ⟨source, inside, rfl⟩ := List.mem_map.mp member
      exact Block.holds_select (queued source inside) _
    · refine ⟨⟨earlier, short⟩, Or.inr queued, fun found same other member => ?_⟩
      obtain rfl : _ = found := Option.some.inj (Except.ok.inj same)
      cases member

end WhenFilter

namespace Filters

def Waiting (filters : Filters) : Prop :=
  ∀ whenFilter, filters.whenFilter = some whenFilter → whenFilter.Waiting filters.timeRange.start

def Clean (filters : Filters) (block : Block) : Prop :=
  ∀ whenFilter, filters.whenFilter = some whenFilter → whenFilter.Clean block

variable {filters : Filters} {block : Block} {record : Record}

theorem apply_holds (waiting : filters.Waiting) (clean : filters.Clean block) (holds : block.Holds record) :
    (filters.apply record).2.Waiting ∧ (filters.apply record).2.Clean block ∧
      ∀ found, (filters.apply record).1 = .ok (some found) → ∀ other ∈ found, block.Holds other := by
  have moved (start : Nat) (later : filters.timeRange.start ≤ start) (timeRange : TimeRangeFilter)
      (same : timeRange.start = start) : Waiting { filters with timeRange } := by
    intro whenFilter present
    obtain ⟨earlier, short⟩ := waiting whenFilter present
    exact ⟨fun other member => (earlier other member).trans_le (same ▸ later), short⟩
  rw [apply, TimeRangeFilter.filter]
  by_cases inRange : record.timestamp ≥ filters.timeRange.start ∧ record.timestamp < filters.timeRange.stop
  · have later := moved (record.timestamp + 1) (by omega)
    simp only [if_pos inRange, List.flatMap_cons, List.flatMap_nil, List.append_nil, RecordStateFilter.filter]
    by_cases state : record.state = filters.recordState.state
    · simp only [if_pos state]
      cases present : filters.whenFilter with
      | none =>
        refine ⟨fun _ absent => (by cases absent), fun _ absent => (by cases absent), fun found same other member => ?_⟩
        obtain rfl : _ = found := Option.some.inj (Except.ok.inj same)
        obtain rfl := List.mem_singleton.mp member
        exact holds
      | some whenFilter =>
        obtain ⟨earlier, short⟩ := waiting whenFilter present
        have early : whenFilter.Waiting record.timestamp :=
          ⟨fun other member => (earlier other member).trans_le inRange.1, short⟩
        obtain ⟨next, stays, own⟩ := WhenFilter.filter_holds early (clean whenFilter present) holds
        refine ⟨fun other same => ?_, fun other same => ?_, own⟩
        · obtain rfl := Option.some.inj same
          exact next
        · obtain rfl := Option.some.inj same
          exact stays
    · simp only [if_neg state]
      refine ⟨later _ rfl, clean, fun found same other member => ?_⟩
      obtain rfl : _ = found := Option.some.inj (Except.ok.inj same)
      cases member
  · simp only [if_neg inRange, List.flatMap_nil]
    refine ⟨waiting, clean, fun found same other member => ?_⟩
    obtain rfl : _ = found := Option.some.inj (Except.ok.inj same)
    cases member

def Unpadded (filters : Filters) : Prop :=
  ∀ whenFilter, filters.whenFilter = some whenFilter → whenFilter.ctxBefore.isZero = true

theorem Unpadded.clean (unpadded : filters.Unpadded) (block : Block) : filters.Clean block :=
  fun whenFilter present => Or.inl (unpadded whenFilter present)

theorem Unpadded.apply (unpadded : filters.Unpadded) (record : Record) : (filters.apply record).2.Unpadded := by
  rw [Filters.apply]
  simp only
  split
  · exact unpadded
  · cases present : filters.whenFilter with
    | none => exact fun _ absent => by cases absent
    | some whenFilter =>
      intro other same
      obtain rfl := Option.some.inj same
      have padding := unpadded whenFilter present
      rw [WhenFilter.filter]
      simp only
      split
      · exact padding
      · exact padding
      · split <;> exact padding

theorem Unpadded.applyAll (unpadded : filters.Unpadded) (records : List Record) :
    (filters.applyAll records).2.Unpadded := by
  induction records generalizing filters with
  | nil => exact unpadded
  | cons record records ih =>
    have next := unpadded.apply record
    have last := ih next
    rw [Filters.applyAll]
    generalize filters.apply record = reply at next last ⊢
    match reply with
    | (.error _, _) => exact next
    | (.ok none, _) => exact next
    | (.ok (some _), after) =>
      simp only
      generalize after.applyAll records = rest at last ⊢
      match rest with
      | (.error _, _) => exact last
      | (.ok _, _) => exact last

theorem applyAll_holds (records : List Record) (waiting : filters.Waiting) (clean : filters.Clean block)
    (holds : ∀ record ∈ records, block.Holds record) :
    (filters.applyAll records).2.Waiting ∧
      ∀ found interrupted, (filters.applyAll records).1 = .ok (found, interrupted) →
        ∀ other ∈ found, block.Holds other := by
  induction records generalizing filters with
  | nil =>
    refine ⟨waiting, fun found interrupted same other member => ?_⟩
    obtain ⟨rfl, _⟩ := Prod.mk.inj (Except.ok.inj same)
    cases member
  | cons record records ih =>
    obtain ⟨next, stays, own⟩ := apply_holds waiting clean (holds record List.mem_cons_self)
    have rest := ih next stays fun other member => holds other (List.mem_cons_of_mem _ member)
    rw [applyAll]
    rcases reply : filters.apply record with ⟨result, after⟩
    rw [reply] at next stays own rest
    match result, own with
    | .error failure, _ => exact ⟨next, by simp⟩
    | .ok none, _ =>
      refine ⟨next, fun found interrupted same other member => ?_⟩
      obtain ⟨rfl, _⟩ := Prod.mk.inj (Except.ok.inj same)
      cases member
    | .ok (some found), own =>
      simp only
      rcases later : after.applyAll records with ⟨result, last⟩
      rw [later] at rest
      match result, rest with
      | .error failure, rest => exact ⟨rest.1, by simp⟩
      | .ok (tail, interrupted), rest =>
        refine ⟨rest.1, fun all stopped same other member => ?_⟩
        obtain ⟨rfl, _⟩ := Prod.mk.inj (Except.ok.inj same)
        rcases List.mem_append.mp member with head | inTail
        · exact own found rfl other head
        · exact rest.2 tail interrupted rfl other inTail

end Filters

namespace HistoricalQuery

variable [Codec]

def Pending (query : HistoricalQuery) (manager : BlockManager) : Prop :=
  ∀ record ∈ query.recordsFromCurrentBlock, ∃ ref, query.currentBlock = some ref ∧ (manager.heap ref).Holds record

def CleanScans : List Nat → HistoricalQuery → BlockManager → Prop
  | [], _, _ => True
  | blockId :: blockIds, query, manager =>
    match manager.loadBlock blockId with
    | (.error failure, manager) =>
      failure.status = .tooEarly ∨ failure.status = .notFound → CleanScans blockIds query manager
    | (.ok ref, manager) => query.filters.Clean (manager.heap ref) ∧
      match query.scanBlock manager ref with
      | (.error _, _) => True
      | (.ok (), query) => query.recordsFromCurrentBlock = [] → CleanScans blockIds query manager

def CleanCall (query : HistoricalQuery) (manager : BlockManager) : Prop :=
  query.recordsFromCurrentBlock = [] → query.isInterrupted = false →
    CleanScans (query.blockRange manager).1 query (query.blockRange manager).2

variable {query : HistoricalQuery} {manager : BlockManager}

omit [Codec] in
theorem record_holds (block : Block) (record : Record) (member : record ∈ block.recordIndex.toList.map Prod.snd) :
    block.Holds record := by
  obtain ⟨⟨time, found⟩, inside, rfl⟩ := List.mem_map.mp member
  have present := (TreeMap.mem_toList block.recordIndex _).mp inside
  have stamped := block.keyed time found present
  exact ⟨found, by rw [stamped]; exact present, rfl, rfl⟩

omit [Codec] in
theorem scanBlock_holds (ref : BlockRef) (empty : query.recordsFromCurrentBlock = [])
    (waiting : query.filters.Waiting) (clean : query.filters.Clean (manager.heap ref)) :
    (query.scanBlock manager ref).2.filters.Waiting ∧ (query.scanBlock manager ref).2.Pending manager := by
  obtain ⟨next, own⟩ := Filters.applyAll_holds ((manager.heap ref).recordIndex.toList.map Prod.snd) waiting clean
    (record_holds (manager.heap ref))
  rw [scanBlock, filterRecordsFromBlock]
  simp only
  rcases reply : query.filters.applyAll ((manager.heap ref).recordIndex.toList.map Prod.snd) with ⟨result, after⟩
  rw [reply] at next own
  match result, own with
  | .error failure, _ => exact ⟨next, fun record member => by simp [empty] at member⟩
  | .ok (found, interrupted), own =>
    refine ⟨next, fun record member => ⟨ref, rfl, ?_⟩⟩
    simp only [empty, List.nil_append, List.mem_insertionSort] at member
    exact own found interrupted rfl record member

theorem scanBlocks_holds (blockIds : List Nat) (empty : query.recordsFromCurrentBlock = [])
    (waiting : query.filters.Waiting) (clean : CleanScans blockIds query manager) :
    (scanBlocks blockIds query manager).2.1.filters.Waiting ∧
      (scanBlocks blockIds query manager).2.1.Pending (scanBlocks blockIds query manager).2.2 := by
  induction blockIds generalizing query manager with
  | nil => exact ⟨waiting, fun record member => by simp [scanBlocks, empty] at member⟩
  | cons blockId blockIds ih =>
    rw [CleanScans] at clean
    rw [scanBlocks]
    rcases loaded : manager.loadBlock blockId with ⟨result, after⟩
    rw [loaded] at clean
    match result, clean with
    | .error failure, clean =>
      simp only
      split
      · rename_i passing
        exact ih empty waiting (clean passing)
      · exact ⟨waiting, fun record member => by simp [empty] at member⟩
    | .ok ref, ⟨clean, rest⟩ =>
      obtain ⟨next, pending⟩ := scanBlock_holds ref empty waiting clean
      simp only
      rcases scanned : query.scanBlock after ref with ⟨result, later⟩
      rw [scanned] at next pending rest
      match result, rest with
      | .error failure, _ => exact ⟨next, pending⟩
      | .ok (), rest =>
        simp only
        split
        · rename_i none
          exact ih none next (rest none)
        · exact ⟨next, pending⟩

theorem fill_holds (waiting : query.filters.Waiting) (pending : query.Pending manager)
    (clean : query.CleanCall manager) :
    (query.fill manager).2.1.filters.Waiting ∧ (query.fill manager).2.1.Pending (query.fill manager).2.2 := by
  rw [fill]
  split
  · rename_i empty
    exact scanBlocks_holds _ empty.1 waiting (clean empty.1 empty.2)
  · exact ⟨waiting, pending⟩

theorem cleanScans_of_unpadded (blockIds : List Nat) (unpadded : query.filters.Unpadded) :
    CleanScans blockIds query manager := by
  induction blockIds generalizing query manager with
  | nil => trivial
  | cons blockId blockIds ih =>
    rw [CleanScans]
    rcases manager.loadBlock blockId with ⟨result, after⟩
    match result with
    | .error failure => exact fun _ => ih unpadded
    | .ok ref =>
      have next := unpadded.applyAll ((after.heap ref).recordIndex.toList.map Prod.snd)
      refine ⟨unpadded.clean _, ?_⟩
      rw [scanBlock, filterRecordsFromBlock]
      simp only
      generalize query.filters.applyAll ((after.heap ref).recordIndex.toList.map Prod.snd) = reply at next ⊢
      match reply with
      | (.error _, _) => trivial
      | (.ok _, _) => exact fun _ => ih next

structure Reading where
  query : HistoricalQuery
  manager : BlockManager

inductive ReadStep where
  | next
  | change (manager : BlockManager)

def Reading.step (reading : Reading) : ReadStep → Reading
  | .next =>
    let (_, query, manager) := reading.query.next reading.manager
    { query, manager }
  | .change manager => { reading with manager }

def Reading.Allowed (reading : Reading) : ReadStep → Prop
  | .next => reading.query.CleanCall reading.manager
  | .change manager => ∀ ref record, (reading.manager.heap ref).Holds record → (manager.heap ref).Holds record

structure Reading.Own (reading : Reading) : Prop where
  waiting : reading.query.filters.Waiting
  pending : reading.query.Pending reading.manager

omit [Codec] in
theorem take_own (waiting : query.filters.Waiting) (pending : query.Pending manager) :
    Reading.Own { query := (query.take manager).2, manager } := by
  rw [take]
  split
  · exact ⟨waiting, pending⟩
  · rename_i record records front
    have rest : Pending { query with recordsFromCurrentBlock := records } manager :=
      fun other member => pending other (by rw [front]; exact List.mem_cons_of_mem _ member)
    simp only
    split
    · exact ⟨waiting, rest⟩
    · split <;> exact ⟨waiting, rest⟩

theorem Reading.Own.step {reading : Reading} (own : reading.Own) (step : ReadStep) (allowed : reading.Allowed step) :
    (reading.step step).Own := by
  cases step with
  | next =>
    obtain ⟨waiting, pending⟩ := fill_holds own.waiting own.pending allowed
    rw [Reading.step, HistoricalQuery.next]
    generalize reading.query.fill reading.manager = filled at waiting pending ⊢
    match filled with
    | (.error _, _, _) => exact ⟨waiting, pending⟩
    | (.ok (), _, _) => exact take_own waiting pending
  | change manager =>
    refine ⟨own.waiting, fun record member => ?_⟩
    obtain ⟨ref, current, holds⟩ := own.pending record member
    exact ⟨ref, current, allowed ref record holds⟩

def OpensOwn (query : HistoricalQuery) (manager : BlockManager) : Prop :=
  ∀ record records, query.recordsFromCurrentBlock = record :: records →
    ∃ ref, query.currentBlock = some ref ∧ (manager.heap ref).Holds record ∧
      RecordReader.tryNew manager ref record.timestamp (some record) ≠ .error unwrapNone ∧
      ∀ reader, RecordReader.tryNew manager ref record.timestamp (some record) = .ok reader →
        reader.offset = record.beginPos ∧ reader.contentSize = record.length

omit [Codec] in
theorem Pending.opensOwn (pending : query.Pending manager) : query.OpensOwn manager := by
  intro record records front
  obtain ⟨ref, current, holds⟩ := pending record (by rw [front]; exact List.mem_cons_self)
  obtain ⟨stored, found, first, last⟩ := holds
  refine ⟨ref, current, ⟨stored, found, first, last⟩, ?_, ?_⟩
  · rw [RecordReader.tryNew]
    simp only [found]
    split
    · simp [notFound, unwrapNone, internalServerError]
    · simp
  · intro reader opened
    rw [RecordReader.tryNew] at opened
    simp only [found] at opened
    split at opened
    · cases opened
    · obtain rfl := Except.ok.inj opened
      exact ⟨first, by rw [Record.length, Record.length, first, last]⟩

/-- Where no block is scanned with records of another one in the context, each reader is opened in the block
    of its record. -/
theorem next_opens_own (entryName : String) (startTime stopTime : Nat) (condition : Condition) (strict : Bool)
    (before after : Padding) (labelSelector : List String) (manager : BlockManager) (reading : Reading)
    (run : Runs Reading.step Reading.Allowed
      { query := .new entryName startTime stopTime (some (.new condition strict before after labelSelector)) false
        manager } reading)
    (clean : reading.query.CleanCall reading.manager) :
    (reading.query.fill reading.manager).2.1.OpensOwn (reading.query.fill reading.manager).2.2 := by
  have own := run.invariant Reading.Own
    { waiting := fun filter present => by
        obtain rfl := Option.some.inj present
        exact ⟨by simp [WhenFilter.new], by simp [WhenFilter.new]⟩
      pending := fun record member => by simp [HistoricalQuery.new] at member }
    (fun _ step own allowed => own.step step allowed)
  exact (fill_holds own.waiting own.pending clean).2.opensOwn

end HistoricalQuery

end ReductStore

namespace ReductStore.HistoricalQuery

open BlockManager

def twoBlocks : BlockManager :=
  (smallEntry.transfer { call := smallWrite 1 6, messages := contentOf [[1, 1, 1, 1, 1, 1]] }).transfer
    { call := smallWrite 2 6, messages := contentOf [[2, 2, 2, 2, 2, 2]] }

def isSecond : Condition := fun contexts => .ok (.ok (contexts.getLast?.any (·.timestamp = 2)))

def secondQuery (before : Padding) : HistoricalQuery :=
  .new "entry" 0 10 (some (.new isSecond false before (.records 0) [])) false

theorem next_opens_own_without_context :
    ((secondQuery (.records 0)).fill twoBlocks).2.1.recordsFromCurrentBlock.map Record.timestamp = [2] ∧
      ((secondQuery (.records 0)).fill twoBlocks).2.1.OpensOwn ((secondQuery (.records 0)).fill twoBlocks).2.2 := by
  refine ⟨by decide +kernel, next_opens_own "entry" 0 10 isSecond false (.records 0) (.records 0) [] twoBlocks
    { query := secondQuery (.records 0), manager := twoBlocks } .start fun _ _ => ?_⟩
  refine cleanScans_of_unpadded _ fun filter present => ?_
  obtain rfl := Option.some.inj present
  rfl

theorem next_opens_other_block :
    ((secondQuery (.records 1)).fill twoBlocks).2.1.recordsFromCurrentBlock.map Record.timestamp = [1, 2] ∧
      ((secondQuery (.records 1)).fill twoBlocks).2.1.currentBlock.map (fun ref =>
        ((((secondQuery (.records 1)).fill twoBlocks).2.2.heap ref).getRecord 1).isSome) = some false ∧
      ((secondQuery (.records 1)).next twoBlocks).1 = .error unwrapNone := by
  decide +kernel

end ReductStore.HistoricalQuery
