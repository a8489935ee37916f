import ReductStore.Storage.Wal

set_option autoImplicit false

namespace ReductStore

open Std TreeMap

inductive CompressionAlgorithm where
  | none
  | zstd
  deriving DecidableEq

structure BlockEntry where
  blockId : Nat
  size : Nat
  recordCount : Nat
  metadataSize : Nat
  latestRecordTime : Nat
  crc64 : Option UInt64
  compression : Option CompressionAlgorithm
  corrupted : Option Bool
  version : Option Nat
  deriving DecidableEq

def BlockEntry.ofProto (proto : BlockProto) : BlockEntry :=
  { blockId := proto.beginTime
    size := proto.size
    recordCount := proto.recordCount
    metadataSize := proto.metadataSize
    latestRecordTime := proto.latestRecordTime
    crc64 := none
    compression := none
    corrupted := proto.corrupted
    version := proto.version }

def BlockEntry.ofBlock (block : Block) : BlockEntry :=
  { blockId := block.blockId
    size := block.size
    recordCount := block.recordCount
    metadataSize := block.metadataSize
    latestRecordTime := block.latestRecordTime
    crc64 := none
    compression := none
    corrupted := none
    version := none }

abbrev BlockIndex := ExtTreeMap Nat BlockEntry

namespace BlockIndex

def insertOrUpdate (index : BlockIndex) (entry : BlockEntry) : BlockIndex := index.insert entry.blockId entry

def insertOrUpdateWithCrc (index : BlockIndex) (entry : BlockEntry) (crc : UInt64) : BlockIndex :=
  index.insertOrUpdate { entry with crc64 := some crc }

def isCorrupted (index : BlockIndex) (blockId : Nat) : Bool :=
  match index[blockId]? with
  | some entry => entry.corrupted == some true
  | none => false

def markCorrupted (index : BlockIndex) (blockId : Nat) : BlockIndex :=
  match index[blockId]? with
  | some entry => index.insert blockId { entry with corrupted := some true }
  | none => index

def activeTree (index : BlockIndex) : List Nat := index.keys.filter (fun blockId => !index.isCorrupted blockId)

theorem mem_activeTree (index : BlockIndex) (blockId : Nat) :
    blockId ∈ index.activeTree ↔ ∃ entry, index[blockId]? = some entry ∧ entry.corrupted ≠ some true := by
  rw [activeTree, List.mem_filter, mem_keys_iff]
  constructor
  · rintro ⟨⟨entry, found⟩, kept⟩
    exact ⟨entry, found, by simpa [isCorrupted, found] using kept⟩
  · rintro ⟨entry, found, kept⟩
    exact ⟨⟨entry, found⟩, by simpa [isCorrupted, found] using kept⟩

theorem activeTree_sorted (index : BlockIndex) : index.activeTree.Pairwise (· < ·) :=
  (keys_sorted index).filter _

end BlockIndex

/-- The files of an entry. Descriptors, logs and the index are kept as the messages they encode. -/
structure Disk where
  data : ExtTreeMap Nat File
  desc : ExtTreeMap Nat BlockProto
  compressedData : ExtTreeMap Nat File
  compressedDesc : ExtTreeMap Nat BlockProto
  temp : ExtTreeMap Nat File
  wal : ExtTreeMap Nat (List WalEntry)
  index : Option BlockIndex

inductive BackendType where
  | filesystem
  | remote
  deriving DecidableEq

abbrev BlockRef := Nat

/-- `BlockManager` with the blocks behind its references. Each insertion into a cache takes the next element of
    `evictions` as the keys that leave the cache besides the inserted one. -/
structure BlockManager where
  path : String
  bucket : String
  entry : String
  backendType : BackendType
  blockIndex : BlockIndex
  writeCache : ExtTreeMap Nat BlockRef
  readCache : ExtTreeMap Nat BlockRef
  heap : BlockRef → Block
  next : BlockRef
  evictions : List (List Nat)
  disk : Disk

namespace BlockManager

def build (path : String) (index : BlockIndex) (bucket entry : String) (backendType : BackendType)
    (evictions : List (List Nat)) (disk : Disk) : BlockManager :=
  { path, bucket, entry, backendType
    blockIndex := index
    writeCache := ∅
    readCache := ∅
    heap := Block.new
    next := 0
    evictions, disk }

def created (path bucket entry : String) (backendType : BackendType) (evictions : List (List Nat)) : BlockManager :=
  build path ∅ bucket entry backendType evictions
    { data := ∅, desc := ∅, compressedData := ∅, compressedDesc := ∅, temp := ∅, wal := ∅, index := some ∅ }

def setBlock (manager : BlockManager) (ref : BlockRef) (block : Block) : BlockManager :=
  { manager with heap := Function.update manager.heap ref block }

def allocate (manager : BlockManager) (block : Block) : BlockRef × BlockManager :=
  (manager.next, { manager.setBlock manager.next block with next := manager.next + 1 })

def discard (cache : ExtTreeMap Nat BlockRef) (keys : List Nat) : ExtTreeMap Nat BlockRef := keys.foldl (·.erase ·) cache

def getWrite (manager : BlockManager) (blockId : Nat) : Option BlockRef := manager.writeCache[blockId]?

def getRead (manager : BlockManager) (blockId : Nat) : Option BlockRef :=
  manager.writeCache[blockId]?.or manager.readCache[blockId]?

def evicted (manager : BlockManager) (blockId : Nat) : List Nat :=
  ((manager.evictions.headD []).filter (· ≠ blockId)).dedup

def insertRead (manager : BlockManager) (blockId : Nat) (ref : BlockRef) : BlockManager :=
  { manager with
    readCache := discard (manager.readCache.insert blockId ref) (manager.evicted blockId)
    evictions := manager.evictions.tail }

def insertWrite (manager : BlockManager) (blockId : Nat) (ref : BlockRef) : List BlockRef × BlockManager :=
  let cache := manager.writeCache.insert blockId ref
  let evicted := manager.evicted blockId
  (evicted.filterMap (cache[·]?),
    { manager with writeCache := discard cache evicted, evictions := manager.evictions.tail })

def removeCached (manager : BlockManager) (blockId : Nat) : BlockManager :=
  { manager with writeCache := manager.writeCache.erase blockId, readCache := manager.readCache.erase blockId }

def indexBlock (manager : BlockManager) (block : Block) : BlockManager :=
  { manager with blockIndex := manager.blockIndex.insertOrUpdate (BlockEntry.ofBlock block) }

def saveIndex (manager : BlockManager) : BlockManager :=
  { manager with disk := { manager.disk with index := some manager.blockIndex } }

def walAppend (manager : BlockManager) (blockId : Nat) (entry : WalEntry) : BlockManager :=
  { manager with disk := { manager.disk with
      wal := manager.disk.wal.insert blockId (manager.disk.wal[blockId]?.getD [] ++ [entry]) } }

def walRemove (manager : BlockManager) (blockId : Nat) : BlockManager :=
  { manager with disk := { manager.disk with wal := manager.disk.wal.erase blockId } }

def modifyData (manager : BlockManager) (blockId : Nat) (change : File → File) : BlockManager :=
  { manager with disk := { manager.disk with
      data := manager.disk.data.insert blockId (change (manager.disk.data[blockId]?.getD [])) } }

def dataOf (manager : BlockManager) (blockId : Nat) : File := manager.disk.data[blockId]?.getD []

def descPath (manager : BlockManager) (blockId : Nat) : String :=
  "\"" ++ manager.path ++ "/" ++ toString blockId ++ ".meta\""

section Saving

variable [Codec]

def nextVersion (manager : BlockManager) (blockId : Nat) : Nat :=
  (manager.blockIndex[blockId]?.bind BlockEntry.version).getD 0 + 1

def snapshot (manager : BlockManager) (ref : BlockRef) : BlockProto :=
  { (manager.heap ref).toProto with
    version := some (manager.nextVersion (manager.heap ref).blockId)
    corrupted := none }

def writeDescriptor (manager : BlockManager) (proto : BlockProto) : BlockManager :=
  { manager with disk := { manager.disk with desc := manager.disk.desc.insert proto.beginTime proto } }

def indexDescriptor (manager : BlockManager) (proto : BlockProto) : BlockManager :=
  let entry := BlockEntry.ofProto { proto with metadataSize := (Codec.encodeBlock proto).length }
  { manager with blockIndex := manager.blockIndex.insertOrUpdateWithCrc entry proto.crc }

def saveMetaOnDisk (manager : BlockManager) (ref : BlockRef) : BlockManager :=
  let proto := manager.snapshot ref
  let manager := manager.writeDescriptor proto
  let manager := manager.indexDescriptor proto
  let manager := manager.saveIndex
  manager.walRemove proto.beginTime

def saveBlock (manager : BlockManager) (ref : BlockRef) : BlockManager :=
  let (evicted, manager) := manager.insertWrite (manager.heap ref).blockId ref
  evicted.foldl saveMetaOnDisk manager

def saveCacheOnDisk (manager : BlockManager) : BlockManager :=
  (manager.writeCache.toList.map Prod.snd).foldl saveMetaOnDisk manager

def saveCacheMetadataOnDisk (manager : BlockManager) : BlockManager :=
  let blocksWithWal := manager.disk.wal.keys
  if blocksWithWal.isEmpty then manager
  else
    (manager.writeCache.toList.map Prod.snd).foldl (fun current ref =>
      if (current.heap ref).blockId ∈ blocksWithWal then current.saveMetaOnDisk ref else current) manager

end Saving

end BlockManager

end ReductStore
