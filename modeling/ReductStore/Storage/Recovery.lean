import ReductStore.Storage.Persistence
import ReductStore.Storage.Replay

set_option autoImplicit false

namespace ReductStore

open TreeMap

variable [Codec]

def BlockProto.migrate (proto : BlockProto) : BlockProto :=
  if proto.recordCount = 0 then
    let proto := { proto with recordCount := proto.records.length }
    { proto with metadataSize := (Codec.encodeBlock proto).length }
  else proto

def Disk.rebuildIndex (disk : Disk) : BlockIndex × Disk :=
  let protos := disk.desc.toList.map (fun (blockId, proto) => (blockId, proto.migrate))
  let index : BlockIndex :=
    protos.foldl (fun index (_, proto) => index.insertOrUpdateWithCrc (BlockEntry.ofProto proto) proto.crc) ∅
  (index, { disk with
    desc := protos.foldl (fun desc (blockId, proto) => desc.insert blockId proto) ∅
    index := some index })

def Disk.openIndex (disk : Disk) : BlockIndex × Disk :=
  match disk.index with
  | some index => (index, disk)
  | none => disk.rebuildIndex

namespace BlockManager

def reopen (manager : BlockManager) (evictions : List (List Nat)) : BlockManager :=
  let (index, disk) := manager.disk.openIndex
  build manager.path index manager.bucket manager.entry manager.backendType evictions disk

@[simp] theorem beginTime_migrate (proto : BlockProto) : proto.migrate.beginTime = proto.beginTime := by
  unfold BlockProto.migrate
  split <;> rfl

def entryOf (proto : BlockProto) : BlockEntry := { BlockEntry.ofProto proto with crc64 := some proto.crc }

end BlockManager

end ReductStore
