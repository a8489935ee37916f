import ReductStore.Storage.BlockManager

set_option autoImplicit false

namespace ReductStore.BlockManager

open Std TreeMap

variable [Codec]

def markBlockCorrupted (manager : BlockManager) (blockId : Nat) : BlockManager :=
  let manager := { manager with blockIndex := manager.blockIndex.markCorrupted blockId }
  let manager := manager.removeCached blockId
  let manager :=
    match manager.disk.desc[blockId]? with
    | some proto =>
      { manager with disk := { manager.disk with
          desc := manager.disk.desc.insert blockId { proto with corrupted := some true } } }
    | none => manager
  manager.saveIndex

def findBlockId (manager : BlockManager) (start : Nat) : Except ReductError Nat :=
  let activeTree := manager.blockIndex.activeTree
  let below := (activeTree.filter (· < start)).getLast?
  let missing := notFound
    ("Record " ++ toString start ++ " not found in entry " ++ manager.bucket ++ "/" ++ manager.entry)
  match activeTree.find? (start ≤ ·) with
  | some blockId => if start ≥ blockId then .ok blockId else below.elim (.error missing) .ok
  | none => below.elim (.error missing) .ok

def adopt (manager : BlockManager) (blockId : Nat) (proto : BlockProto) : Except ReductError BlockRef × BlockManager :=
  let (ref, manager) := manager.allocate (Block.ofProto proto)
  (.ok ref, manager.insertRead blockId ref)

def loadBlock (manager : BlockManager) (blockId : Nat) : Except ReductError BlockRef × BlockManager :=
  let descriptor := "Block descriptor " ++ manager.descPath blockId
  match manager.getRead blockId with
  | some ref => (.ok ref, manager.insertRead blockId ref)
  | none =>
    match manager.disk.desc[blockId]? with
    | none =>
      let message := descriptor ++ " can't be read: [InternalServerError] File " ++ manager.descPath blockId ++
        " does not exist"
      (.error (internalServerError message), manager.markBlockCorrupted blockId)
    | some proto =>
      match manager.blockIndex[blockId]? with
      | none => (.error (internalServerError (descriptor ++ " is not in the index")), manager)
      | some entry =>
        -- an index entry without a checksum is not compared with the descriptor
        if entry.crc64 = none ∨ entry.crc64 = some proto.crc then manager.adopt blockId proto
        else if proto.version.getD 0 > entry.version.getD 0 then
          let manager := { manager with
            blockIndex := manager.blockIndex.insertOrUpdateWithCrc (BlockEntry.ofProto proto) proto.crc }
          manager.saveIndex.adopt blockId proto
        else (.error (internalServerError (descriptor ++ " is corrupted")), manager.markBlockCorrupted blockId)

def findBlock (manager : BlockManager) (start : Nat) : Except ReductError BlockRef × BlockManager :=
  match manager.findBlockId start with
  | .ok blockId => manager.loadBlock blockId
  | .error failure => (.error failure, manager)

def startNewBlock (manager : BlockManager) (blockId maxBlockSize : Nat) : BlockRef × BlockManager :=
  let block := Block.new blockId
  let manager := manager.modifyData blockId
    (if manager.backendType = .filesystem then (File.setLen · maxBlockSize) else id)
  let manager := manager.indexBlock block
  let (ref, manager) := manager.allocate block
  (ref, manager.saveBlock ref)

def finishBlock (manager : BlockManager) (ref : BlockRef) : BlockManager :=
  let block := manager.heap ref
  let manager := manager.modifyData block.blockId (File.setLen · block.size)
  manager.saveMetaOnDisk ref

def removeBlockFiles (manager : BlockManager) (blockId : Nat) : BlockManager :=
  { manager with disk := { manager.disk with
      data := manager.disk.data.erase blockId
      desc := manager.disk.desc.erase blockId
      compressedData := manager.disk.compressedData.erase blockId
      compressedDesc := manager.disk.compressedDesc.erase blockId } }

def removeBlock (manager : BlockManager) (blockId : Nat) : BlockManager :=
  let manager := manager.walAppend blockId .removeBlock
  let manager := manager.removeBlockFiles blockId
  let manager := { manager with blockIndex := manager.blockIndex.erase blockId }
  let manager := manager.saveIndex
  let manager := manager.removeCached blockId
  manager.walRemove blockId

def updateRecords (manager : BlockManager) (blockId : Nat) (records : List Record) :
    Except ReductError Unit × BlockManager :=
  match manager.loadBlock blockId with
  | (.error failure, manager) => (.error failure, manager)
  | (.ok ref, manager) =>
    let manager := records.foldl (fun current record => current.walAppend blockId (.updateRecord record)) manager
    let manager := manager.setBlock ref (records.foldl Block.insertOrUpdateRecord (manager.heap ref))
    (.ok (), manager.saveBlock ref)

def blockToFinish (manager : BlockManager) (blockId : Nat) : Except ReductError BlockRef × BlockManager :=
  match manager.getWrite blockId with
  | some ref => if (manager.heap ref).blockId = blockId then (.ok ref, manager) else manager.loadBlock blockId
  | none => manager.loadBlock blockId

def finishWriteRecord (manager : BlockManager) (blockId : Nat) (state : RecordState) (timestamp : Nat) :
    Except ReductError Unit × BlockManager :=
  match manager.blockToFinish blockId with
  | (.error failure, manager) => (.error failure, manager)
  | (.ok ref, manager) =>
    match (manager.heap ref).changeRecordState timestamp state with
    | .error failure => (.error failure, manager)
    | .ok block =>
      let manager := manager.setBlock ref block
      let manager :=
        match block.getRecord timestamp with
        | some record => manager.walAppend blockId (.writeRecord record)
        | none => manager
      (.ok (), manager.saveBlock ref)

end ReductStore.BlockManager
