import ReductStore.Storage.Lifecycle

set_option autoImplicit false

namespace ReductStore

open TreeMap

def maxIoBufferSize : Nat := 1024 * 512

structure ReadFailure where
  unexpectedEof : Bool
  failure : ReductError
  deriving DecidableEq

namespace BlockManager

def dataPath (manager : BlockManager) (blockId : Nat) : String :=
  "\"" ++ manager.path ++ "/" ++ toString blockId ++ ".blk\""

section Copy

variable (path : String) (file : Option File)

def readInChunks (offset contentSize readBytes : Nat) : Except ReadFailure (List UInt8 × Nat) :=
  let chunkSize := min (contentSize - readBytes) maxIoBufferSize
  match file with
  | none =>
    .error { unexpectedEof := false, failure := internalServerError ("File " ++ path ++ " does not exist") }
  | some content =>
    let bytes := File.range content (offset + readBytes) (offset + readBytes + chunkSize)
    if bytes.length = 0 then
      .error { unexpectedEof := true, failure := internalServerError ("Failed to read record chunk from " ++ path ++ ": EOF") }
    else .ok (File.setLen bytes chunkSize, bytes.length)

def copyRecord (offset contentSize : Nat) : Nat → Nat → List (List UInt8) × Except ReadFailure Nat
  | 0, readBytes => ([], .ok readBytes)
  | turns + 1, readBytes =>
    if readBytes < contentSize then
      match readInChunks path file offset contentSize readBytes with
      | .error failure => ([], .error failure)
      | .ok (buffer, read) =>
        let (buffers, result) := copyRecord offset contentSize turns (readBytes + read)
        (buffer :: buffers, result)
    else ([], .ok readBytes)

def copyRecords : List Record → Nat → List (List UInt8) × Except ReadFailure (List (Nat × Nat × Nat))
  | [], _ => ([], .ok [])
  | record :: rest, totalOffset =>
    match copyRecord path file record.beginPos record.length record.length 0 with
    | (buffers, .error failure) => (buffers, .error failure)
    | (buffers, .ok readBytes) =>
      let (more, result) := copyRecords rest (totalOffset + readBytes)
      (buffers ++ more, result.map ((record.timestamp, totalOffset, totalOffset + readBytes) :: ·))

end Copy

inductive RemovalStep where
  | dropRecord (timestamp : Nat)
  | logRemoval (timestamp : Nat)
  | logBlockRemoval
  | removeBlockData
  | removeBlockDescriptor
  | removeIndexEntry
  | removeCached
  | openTemp
  | writeTemp (position : Nat) (buffer : List UInt8)
  | abandon (unexpectedEof : Bool)
  | moveRecords (positions : List (Nat × Nat × Nat))
  | removeData
  | renameTemp
  | openData
  | writeDescriptor
  | indexDescriptor
  | saveIndex
  | removeLog
  deriving DecidableEq

def writeTemps : Nat → List (List UInt8) → List RemovalStep
  | _, [] => []
  | position, buffer :: rest => .writeTemp position buffer :: writeTemps (position + buffer.length) rest

variable [Codec]

def runRemoval (ref : BlockRef) (blockId : Nat) (manager : BlockManager) : RemovalStep → BlockManager
  | .dropRecord timestamp => manager.setBlock ref ((manager.heap ref).removeRecord timestamp)
  | .logRemoval timestamp => manager.walAppend blockId (.removeRecord timestamp)
  | .logBlockRemoval => manager.walAppend blockId .removeBlock
  | .removeBlockData => { manager with disk := { manager.disk with data := manager.disk.data.erase blockId } }
  -- `remove_records` has decompressed the block, so that only the descriptor is there
  | .removeBlockDescriptor =>
    { manager with disk := { manager.disk with
        desc := manager.disk.desc.erase blockId
        compressedData := manager.disk.compressedData.erase blockId
        compressedDesc := manager.disk.compressedDesc.erase blockId } }
  | .removeIndexEntry => { manager with blockIndex := manager.blockIndex.erase blockId }
  | .removeCached => manager.removeCached blockId
  -- the temporary file is not truncated when it is opened
  | .openTemp =>
    { manager with disk := { manager.disk with
        temp := manager.disk.temp.insert blockId (manager.disk.temp[blockId]?.getD []) } }
  | .writeTemp position buffer =>
    { manager with disk := { manager.disk with
        temp := manager.disk.temp.insert blockId (File.writeAt (manager.disk.temp[blockId]?.getD []) position buffer) } }
  | .abandon unexpectedEof =>
    let manager := { manager with disk := { manager.disk with temp := manager.disk.temp.erase blockId } }
    if unexpectedEof then manager.markBlockCorrupted blockId else manager
  | .moveRecords positions => manager.setBlock ref ((manager.heap ref).reposition positions)
  | .removeData => { manager with disk := { manager.disk with data := manager.disk.data.erase blockId } }
  | .renameTemp =>
    { manager with disk := { manager.disk with
        data := manager.disk.data.insert blockId (manager.disk.temp[blockId]?.getD [])
        temp := manager.disk.temp.erase blockId } }
  | .openData => manager.modifyData blockId id
  | .writeDescriptor => manager.writeDescriptor (manager.snapshot ref)
  | .indexDescriptor => manager.indexDescriptor (manager.snapshot ref)
  | .saveIndex => manager.saveIndex
  | .removeLog => manager.walRemove blockId

def dropSteps (times : List Nat) : List RemovalStep := times.flatMap (fun time => [.dropRecord time, .logRemoval time])

def removeBlockSteps : List RemovalStep :=
  [.logBlockRemoval, .removeBlockData, .removeBlockDescriptor, .removeIndexEntry, .saveIndex, .removeCached, .removeLog]

def replaceSteps (positions : List (Nat × Nat × Nat)) : List RemovalStep :=
  [.moveRecords positions, .removeData, .renameTemp, .openData, .writeDescriptor, .indexDescriptor, .saveIndex,
    .removeLog]

def retained (block : Block) (times : List Nat) : Block := times.foldl Block.removeRecord block

def compactSteps (manager : BlockManager) (block : Block) : List RemovalStep :=
  let (buffers, result) :=
    copyRecords (manager.dataPath block.blockId) manager.disk.data[block.blockId]? block.records 0
  .openTemp :: writeTemps 0 buffers ++
    match result with
    | .ok positions => replaceSteps positions
    | .error failure => [.abandon failure.unexpectedEof]

def removalSteps (manager : BlockManager) (ref : BlockRef) (times : List Nat) : List RemovalStep :=
  let block := retained (manager.heap ref) times
  dropSteps times ++ if block.recordCount = 0 then removeBlockSteps else manager.compactSteps block

def removalResult (manager : BlockManager) (block : Block) : Except ReductError Unit :=
  if block.recordCount = 0 then .ok ()
  else
    match (copyRecords (manager.dataPath block.blockId) manager.disk.data[block.blockId]? block.records 0).2 with
    | .ok _ => .ok ()
    | .error failure => .error failure.failure

def removeRecords (manager : BlockManager) (blockId : Nat) (times : List Nat) :
    Except ReductError Unit × BlockManager :=
  match manager.loadBlock blockId with
  | (.error failure, manager) => (.error failure, manager)
  | (.ok ref, manager) =>
    (manager.removalResult (retained (manager.heap ref) times),
      (manager.removalSteps ref times).foldl (runRemoval ref blockId) manager)

end BlockManager

end ReductStore
