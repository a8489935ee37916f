import ReductStore.Query.Historical
import ReductStore.Storage.RemoveRecords

set_option autoImplicit false

namespace ReductStore

namespace HistoricalQuery

inductive NextStage where
  | idle
  | find (start : Nat)
  | scan (blockIds : List Nat)
  | take
  deriving DecidableEq

def NextStage.searched : NextStage → Option Nat
  | .scan (blockId :: _) => some blockId
  | _ => none

def searchStart (query : HistoricalQuery) (manager : BlockManager) : Nat :=
  match query.currentBlock with
  | some ref => (manager.heap ref).latestRecordTime
  | none => query.startTime

variable [Codec]

def blockRangeFrom (query : HistoricalQuery) (start : Nat) (manager : BlockManager) : List Nat × BlockManager :=
  let (firstBlock, manager) :=
    match manager.findBlock start with
    | (.ok ref, manager) => ((manager.heap ref).blockId, manager)
    | (.error _, manager) => (0, manager)
  if firstBlock > query.stopTime then ([], manager)
  else
    (manager.blockIndex.activeTree.filter fun blockId => firstBlock ≤ blockId ∧ blockId < query.stopTime, manager)

structure Call where
  stage : NextStage
  query : HistoricalQuery
  manager : BlockManager

def nextSection (call : Call) : Option (Except ReductError RecordReader) × Call :=
  match call.stage with
  | .idle =>
    let stage :=
      if call.query.recordsFromCurrentBlock = [] ∧ call.query.isInterrupted = false then
        .find (call.query.searchStart call.manager)
      else .take
    (none, { call with stage })
  | .find start =>
    let (blockIds, manager) := call.query.blockRangeFrom start call.manager
    (none, { call with stage := .scan blockIds, manager })
  | .scan [] => (none, { call with stage := .take })
  | .scan (blockId :: blockIds) =>
    match call.manager.loadBlock blockId with
    | (.error failure, manager) =>
      if failure.status = .tooEarly ∨ failure.status = .notFound then
        (none, { call with stage := .scan blockIds, manager })
      else (some (.error failure), { call with stage := .idle, manager })
    | (.ok ref, manager) =>
      match call.query.scanBlock manager ref with
      | (.error failure, query) => (some (.error failure), { stage := .idle, query, manager })
      | (.ok (), query) =>
        (none, { stage := if query.recordsFromCurrentBlock = [] then .scan blockIds else .take, query, manager })
  | .take =>
    let (result, query) := call.query.take call.manager
    (some result, { call with stage := .idle, query })

end HistoricalQuery

structure OpenReader where
  reader : RecordReader
  position : Nat
  deriving DecidableEq

namespace OpenReader

def readChunk (state : OpenReader) (path : String) (file : Option File) (limit : Nat) :
    Option (Except ReductError (List UInt8)) × OpenReader :=
  let size := min (state.reader.contentSize - state.position) maxIoBufferSize
  if size = 0 then (none, state)
  else
    match state.reader.file, file with
    | none, _ => (some (.error (internalServerError "Failed to read record chunk: EOF")), state)
    | some _, none =>
      (some (.error (internalServerError
        ("Failed to read record chunk: [InternalServerError] File " ++ path ++ " does not exist"))), state)
    | some _, some content =>
      let start := state.reader.offset + state.position
      let bytes := (File.range content start (start + size)).take (limit + 1)
      if bytes.length = 0 then (some (.error (internalServerError "Failed to read record chunk: EOF")), state)
      else (some (.ok bytes), { state with position := state.position + bytes.length })

theorem readChunk_ok {state : OpenReader} {path : String} {file : Option File} {limit : Nat} {bytes : List UInt8}
    (read : (state.readChunk path file limit).1 = some (.ok bytes)) :
    ∃ content, file = some content ∧ state.position + bytes.length ≤ state.reader.contentSize ∧
      bytes = File.range content (state.reader.offset + state.position)
        (state.reader.offset + state.position + bytes.length) := by
  unfold readChunk at read
  simp only at read
  split_ifs at read with done
  split at read
  · simp at read
  · simp at read
  · rename_i content _
    split_ifs at read with ended
    · simp at read
    · obtain rfl := Except.ok.inj (Option.some.inj read)
      refine ⟨content, rfl, ?_, ?_⟩
      · simp only [List.length_take, File.range, List.length_drop]
        omega
      · rw [File.take_range, File.range_exact]

end OpenReader

end ReductStore
