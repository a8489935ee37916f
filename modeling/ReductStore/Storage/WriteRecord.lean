import ReductStore.Storage.Lifecycle

set_option autoImplicit false

namespace ReductStore

structure EntrySettings where
  maxBlockSize : Nat
  maxBlockRecords : Nat
  deriving DecidableEq

structure WriteCall where
  settings : EntrySettings
  time : Nat
  contentSize : Nat
  contentType : String
  labels : List Label
  deriving DecidableEq

structure WriteContext where
  blockId : Nat
  recordTimestamp : Nat
  offset : Nat
  contentSize : Nat
  deriving DecidableEq

inductive RecordType where
  | belated
  | belatedFirst
  deriving DecidableEq

def Block.isBelated (block : Block) (time : Nat) : Bool := block.recordCount > 0 && block.latestRecordTime ≥ time

def Block.isFull (block : Block) (call : WriteCall) : Bool :=
  let hasNoSpace := block.size + call.contentSize > call.settings.maxBlockSize
  let hasTooManyRecords := block.recordCount + 1 > call.settings.maxBlockRecords
  hasNoSpace || hasTooManyRecords

def Record.isReplaceable (record : Record) (contentSize : Nat) : Bool :=
  record.state = .errored && record.length = contentSize

def Record.overwritten (record : Record) (call : WriteCall) : Record :=
  { record with labels := call.labels, state := .started, contentType := call.contentType }

def alreadyExists (time : Nat) : ReductError :=
  conflict ("A record with timestamp " ++ toString time ++ " already exists")

-- a call that unwraps `None` ends there
def unwrapNone : ReductError := internalServerError "called `Option::unwrap()` on a `None` value"

namespace BlockManager

variable [Codec]

def selectBlock (manager : BlockManager) (call : WriteCall) : Except ReductError BlockRef × BlockManager :=
  match manager.blockIndex.activeTree.getLast? with
  | none =>
    let (ref, manager) := manager.startNewBlock call.time call.settings.maxBlockSize
    (.ok ref, manager)
  | some blockId => manager.loadBlock blockId

def locateBlock (manager : BlockManager) (call : WriteCall) :
    Except ReductError (RecordType × BlockRef) × BlockManager :=
  match manager.blockIndex.activeTree.head? with
  | none => (.error unwrapNone, manager)
  | some first =>
    if first > call.time then
      let (ref, manager) := manager.startNewBlock call.time call.settings.maxBlockSize
      (.ok (.belatedFirst, ref), manager)
    else
      match manager.findBlock call.time with
      | (.error failure, manager) => (.error failure, manager)
      | (.ok ref, manager) => (.ok (.belated, ref), manager)

def overwriteRecord (manager : BlockManager) (call : WriteCall) (ref : BlockRef) (record : Record) : BlockManager :=
  manager.setBlock ref ((manager.heap ref).insertOrUpdateRecord (record.overwritten call))

def rotateBlock (manager : BlockManager) (call : WriteCall) (ref : BlockRef) : BlockRef × BlockManager :=
  (manager.finishBlock ref).startNewBlock call.time call.settings.maxBlockSize

def prepareBlockForWriting (manager : BlockManager) (call : WriteCall) (ref : BlockRef) : BlockManager :=
  manager.setBlock ref ((manager.heap ref).prepareForWriting call.time call.contentSize call.contentType call.labels)

def registerBlock (manager : BlockManager) (ref : BlockRef) (time : Nat) : Except ReductError Nat × BlockManager :=
  let block := manager.heap ref
  let manager := manager.indexBlock block
  match block.getRecord time with
  | none => (.error unwrapNone, manager)
  | some record => (.ok record.beginPos, manager.saveBlock ref)

def writeContext (manager : BlockManager) (ref : BlockRef) (time offset : Nat) : Except ReductError WriteContext :=
  let block := manager.heap ref
  match block.getRecord time with
  | none => .error unwrapNone
  | some record =>
    .ok { blockId := block.blockId, recordTimestamp := time, offset, contentSize := record.length }

def openWriter (manager : BlockManager) (ref : BlockRef) (time : Nat) :
    Except ReductError WriteContext × BlockManager :=
  match manager.registerBlock ref time with
  | (.error failure, manager) => (.error failure, manager)
  | (.ok offset, manager) => (manager.writeContext ref time offset, manager)

def appendRecord (manager : BlockManager) (call : WriteCall) (ref : BlockRef) :
    Except ReductError WriteContext × BlockManager :=
  let (ref, manager) := if (manager.heap ref).isFull call then manager.rotateBlock call ref else (ref, manager)
  (manager.prepareBlockForWriting call ref).openWriter ref call.time

def beginWrite (manager : BlockManager) (call : WriteCall) : Except ReductError WriteContext × BlockManager :=
  match manager.selectBlock call with
  | (.error failure, manager) => (.error failure, manager)
  | (.ok ref, manager) =>
    if (manager.heap ref).isBelated call.time then
      match manager.locateBlock call with
      | (.error failure, manager) => (.error failure, manager)
      | (.ok (.belatedFirst, ref), manager) => manager.appendRecord call ref
      | (.ok (.belated, ref), manager) =>
        match (manager.heap ref).getRecord call.time with
        | none => manager.appendRecord call ref
        | some record =>
          if record.isReplaceable call.contentSize then
            (manager.overwriteRecord call ref record).openWriter ref call.time
          else (.error (alreadyExists call.time), manager)
    else manager.appendRecord call ref

end BlockManager

end ReductStore
