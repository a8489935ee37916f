import ReductStore.Query.Filters
import ReductStore.Storage.WriteRecord

set_option autoImplicit false

namespace ReductStore

open Std

structure RecordReader where
  recordMeta : Record
  entryName : String
  file : Option Nat
  offset : Nat
  contentSize : Nat
  deriving DecidableEq

namespace RecordReader

variable [Codec]

def formRecord (entryName : String) (record : Record) : RecordReader :=
  { recordMeta := record, entryName, file := none, offset := 0, contentSize := 0 }

def tryNew (manager : BlockManager) (ref : BlockRef) (recordTimestamp : Nat) (processedRecord : Option Record) :
    Except ReductError RecordReader :=
  let block := manager.heap ref
  match block.getRecord recordTimestamp with
  | none => .error unwrapNone
  | some record =>
    let contentSize := record.length
    if contentSize > 0 ∧ manager.disk.data[block.blockId]? = none then
      .error (notFound ("Data block " ++ manager.path ++ "/" ++ toString block.blockId ++ ".blk not found"))
    else
      .ok {
        recordMeta := processedRecord.getD record
        entryName := manager.entry
        file := if contentSize > 0 then some block.blockId else none
        offset := record.beginPos
        contentSize }

end RecordReader

structure HistoricalQuery where
  startTime : Nat
  stopTime : Nat
  entryName : String
  recordsFromCurrentBlock : List Record
  currentBlock : Option BlockRef
  filters : Filters
  onlyMetadata : Bool
  isInterrupted : Bool

namespace HistoricalQuery

def new (entryName : String) (startTime stopTime : Nat) (whenFilter : Option WhenFilter) (onlyMetadata : Bool) :
    HistoricalQuery :=
  { startTime, stopTime, entryName
    recordsFromCurrentBlock := []
    currentBlock := none
    filters := {
      timeRange := { start := startTime, stop := stopTime }
      recordState := { state := .finished }
      whenFilter }
    onlyMetadata
    isInterrupted := false }

variable [Codec]

def blockRange (query : HistoricalQuery) (manager : BlockManager) : List Nat × BlockManager :=
  let start := match query.currentBlock with
    | some ref => (manager.heap ref).latestRecordTime
    | none => query.startTime
  let (firstBlock, manager) :=
    match manager.findBlock start with
    | (.ok ref, manager) => ((manager.heap ref).blockId, manager)
    | (.error _, manager) => (0, manager)
  if firstBlock > query.stopTime then ([], manager)
  else
    (manager.blockIndex.activeTree.filter fun blockId => firstBlock ≤ blockId ∧ blockId < query.stopTime, manager)

def filterRecordsFromBlock (query : HistoricalQuery) (block : Block) :
    Except ReductError (List Record) × HistoricalQuery :=
  match query.filters.applyAll (block.recordIndex.toList.map Prod.snd) with
  | (.error failure, filters) => (.error failure, { query with filters })
  | (.ok (found, interrupted), filters) =>
    (.ok found, { query with filters, isInterrupted := query.isInterrupted || interrupted })

def scanBlock (query : HistoricalQuery) (manager : BlockManager) (ref : BlockRef) :
    Except ReductError Unit × HistoricalQuery :=
  match { query with currentBlock := some ref }.filterRecordsFromBlock (manager.heap ref) with
  | (.error failure, query) => (.error failure, query)
  | (.ok found, query) =>
    let sorted := found.insertionSort fun first second => first.timestamp ≤ second.timestamp
    (.ok (), { query with recordsFromCurrentBlock := query.recordsFromCurrentBlock ++ sorted })

def scanBlocks : List Nat → HistoricalQuery → BlockManager → Except ReductError Unit × HistoricalQuery × BlockManager
  | [], query, manager => (.ok (), query, manager)
  | blockId :: blockIds, query, manager =>
    match manager.loadBlock blockId with
    | (.error failure, manager) =>
      if failure.status = .tooEarly ∨ failure.status = .notFound then scanBlocks blockIds query manager
      else (.error failure, query, manager)
    | (.ok ref, manager) =>
      match query.scanBlock manager ref with
      | (.error failure, query) => (.error failure, query, manager)
      | (.ok (), query) =>
        if query.recordsFromCurrentBlock = [] then scanBlocks blockIds query manager
        else (.ok (), query, manager)

def fill (query : HistoricalQuery) (manager : BlockManager) :
    Except ReductError Unit × HistoricalQuery × BlockManager :=
  if query.recordsFromCurrentBlock = [] ∧ query.isInterrupted = false then
    let (blockIds, manager) := query.blockRange manager
    scanBlocks blockIds query manager
  else (.ok (), query, manager)

def noContent : ReductError := { status := .noContent, message := "No content" }

def take (query : HistoricalQuery) (manager : BlockManager) : Except ReductError RecordReader × HistoricalQuery :=
  match query.recordsFromCurrentBlock with
  | [] => (.error noContent, query)
  | record :: records =>
    let query := { query with recordsFromCurrentBlock := records }
    match query.currentBlock with
    | none => (.error unwrapNone, query)
    | some ref =>
      if query.onlyMetadata then (.ok (RecordReader.formRecord query.entryName record), query)
      else (RecordReader.tryNew manager ref record.timestamp (some record), query)

def next (query : HistoricalQuery) (manager : BlockManager) :
    Except ReductError RecordReader × HistoricalQuery × BlockManager :=
  match query.fill manager with
  | (.error failure, query, manager) => (.error failure, query, manager)
  | (.ok (), query, manager) =>
    let (result, query) := query.take manager
    (result, query, manager)

def collect : Nat → HistoricalQuery → BlockManager → List RecordReader × Option ReductError
  | 0, _, _ => ([], none)
  | calls + 1, query, manager =>
    match query.next manager with
    | (.error failure, _, _) => ([], some failure)
    | (.ok reader, query, manager) =>
      let (readers, ended) := collect calls query manager
      (reader :: readers, ended)

end HistoricalQuery

end ReductStore
