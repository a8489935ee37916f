import ReductStore.Storage.RecordWriter
import ReductStore.Storage.Wire

set_option autoImplicit false

namespace ReductStore

class Zstd where
  compress : List UInt8 → List UInt8
  decodeAll : List UInt8 → Except String (List UInt8)

def Zstd.Inverts [Zstd] : Prop := ∀ bytes, Zstd.decodeAll (Zstd.compress bytes) = .ok bytes

namespace BlockManager

open Std TreeMap

def blockIsCompressed (manager : BlockManager) (blockId : Nat) : Bool :=
  (manager.blockIndex[blockId]?.bind BlockEntry.compression).getD .none != .none

def filePath (manager : BlockManager) (blockId : Nat) (extension : String) : String :=
  "\"" ++ manager.path ++ "/" ++ toString blockId ++ extension ++ "\""

def fileMissing (path : String) : ReductError := internalServerError ("File " ++ path ++ " does not exist")

inductive CompressStep where
  | renameData
  | renameDescriptor
  | saveIndex
  | removeData
  | removeDescriptor
  deriving DecidableEq

inductive DecompressStep where
  | writeData (content : List UInt8)
  | writeDescriptor (proto : BlockProto)
  | removeData
  | removeDescriptor
  | saveIndex

def compressSteps : List CompressStep := [.renameData, .renameDescriptor, .saveIndex, .removeData, .removeDescriptor]

def decompressSteps (content : List UInt8) (proto : BlockProto) : List DecompressStep :=
  [.writeData content, .writeDescriptor proto, .removeData, .removeDescriptor, .saveIndex]

variable [Codec] [Zstd]

def compressedLen (proto : BlockProto) : Nat := (Zstd.compress (Codec.encodeBlock proto)).length

omit [Codec] [Zstd] in
def compressedEntry (dataSize descSize : Nat) (entry : BlockEntry) : BlockEntry :=
  { entry with size := dataSize, metadataSize := descSize, compression := some .zstd }

omit [Zstd] in
def decompressedEntry (file : File) (proto : BlockProto) (entry : BlockEntry) : BlockEntry :=
  { entry with
    size := file.length
    metadataSize := (Codec.encodeBlock proto).length
    crc64 := some proto.crc
    compression := none
    version := proto.version
    corrupted := proto.corrupted }

def changeEntry (manager : BlockManager) (blockId : Nat) (change : BlockEntry → BlockEntry) : BlockManager :=
  match manager.blockIndex[blockId]? with
  | none => manager
  | some entry => saveIndex { manager with blockIndex := manager.blockIndex.insert blockId (change entry) }

def runCompress (blockId : Nat) (manager : BlockManager) : CompressStep → BlockManager
  | .renameData =>
    { manager with disk := { manager.disk with
        compressedData := manager.disk.compressedData.insert blockId (Zstd.compress (manager.dataOf blockId)) } }
  | .renameDescriptor =>
    match manager.disk.desc[blockId]? with
    | none => manager
    | some proto =>
      { manager with disk := { manager.disk with compressedDesc := manager.disk.compressedDesc.insert blockId proto } }
  | .saveIndex => manager.changeEntry blockId (compressedEntry (manager.disk.compressedData[blockId]?.getD []).length
      ((manager.disk.compressedDesc[blockId]?.map compressedLen).getD 0))
  | .removeData => { manager with disk := { manager.disk with data := manager.disk.data.erase blockId } }
  | .removeDescriptor => { manager with disk := { manager.disk with desc := manager.disk.desc.erase blockId } }

omit [Zstd] in
def runDecompress (blockId : Nat) (manager : BlockManager) : DecompressStep → BlockManager
  -- an older file is not truncated
  | .writeData content => manager.modifyData blockId (File.writeAt · 0 content)
  | .writeDescriptor proto =>
    { manager with disk := { manager.disk with desc := manager.disk.desc.insert blockId proto } }
  | .removeData =>
    { manager with disk := { manager.disk with compressedData := manager.disk.compressedData.erase blockId } }
  | .removeDescriptor =>
    { manager with disk := { manager.disk with compressedDesc := manager.disk.compressedDesc.erase blockId } }
  | .saveIndex =>
    match manager.disk.desc[blockId]? with
    | none => manager
    | some proto => manager.changeEntry blockId (decompressedEntry (manager.dataOf blockId) proto)

def alreadyCompressed (manager : BlockManager) (blockId : Nat) : ReductError :=
  conflict ("Block " ++ manager.bucket ++ "/" ++ manager.entry ++ "/" ++ toString blockId ++ " is already compressed")

def blockMissing (manager : BlockManager) (blockId : Nat) : ReductError :=
  notFound ("Block " ++ toString blockId ++ " not found in entry " ++ manager.bucket ++ "/" ++ manager.entry)

def compressBlock (manager : BlockManager) (blockId : Nat) (algorithm : CompressionAlgorithm) :
    Except ReductError Unit × BlockManager :=
  match manager.blockIndex[blockId]? with
  | none => (.error (manager.blockMissing blockId), manager)
  | some _ =>
    if manager.blockIsCompressed blockId then (.error (manager.alreadyCompressed blockId), manager)
    else
      match algorithm with
      | .none => (.ok (), manager)
      | .zstd =>
        match manager.disk.data[blockId]?, manager.disk.desc[blockId]? with
        | none, _ => (.error (fileMissing (manager.filePath blockId ".blk")), manager)
        | some _, none => (.error (fileMissing (manager.filePath blockId ".meta")), manager)
        | some _, some _ => (.ok (), compressSteps.foldl (runCompress blockId) manager)

def decompressBlock (manager : BlockManager) (blockId : Nat) : Except ReductError Unit × BlockManager :=
  if !manager.blockIsCompressed blockId then (.ok (), manager)
  else
    let path := manager.filePath blockId ".blk.zst"
    match manager.disk.compressedData[blockId]? with
    | none => (.error (fileMissing path), manager.markBlockCorrupted blockId)
    | some file =>
      match Zstd.decodeAll file with
      | .error failure =>
        (.error (internalServerError ("Failed to decompress file " ++ path ++ ": " ++ failure)),
          manager.markBlockCorrupted blockId)
      | .ok content =>
        match manager.disk.compressedDesc[blockId]? with
        | none =>
          (.error (fileMissing (manager.filePath blockId ".meta.zst")),
            (runDecompress blockId manager (.writeData content)).markBlockCorrupted blockId)
        | some proto => (.ok (), (decompressSteps content proto).foldl (runDecompress blockId) manager)

section RoundTrip

variable {manager : BlockManager} {blockId : Nat}

def packed (manager : BlockManager) (blockId : Nat) (file : File) (proto : BlockProto) (entry : BlockEntry) :
    BlockManager :=
  saveIndex { manager with
    blockIndex :=
      manager.blockIndex.insert blockId (compressedEntry (Zstd.compress file).length (compressedLen proto) entry)
    disk := { manager.disk with
      data := manager.disk.data.erase blockId
      desc := manager.disk.desc.erase blockId
      compressedData := manager.disk.compressedData.insert blockId (Zstd.compress file)
      compressedDesc := manager.disk.compressedDesc.insert blockId proto } }

theorem compressSteps_packed {file : File} {proto : BlockProto} {entry : BlockEntry}
    (data : manager.disk.data[blockId]? = some file) (desc : manager.disk.desc[blockId]? = some proto)
    (indexed : manager.blockIndex[blockId]? = some entry) :
    compressSteps.foldl (runCompress blockId) manager = manager.packed blockId file proto entry := by
  simp [compressSteps, runCompress, changeEntry, saveIndex, packed, dataOf, data, desc, indexed]

def unpacked (manager : BlockManager) (blockId : Nat) (file : File) (proto : BlockProto) (entry : BlockEntry) :
    BlockManager :=
  saveIndex { manager with
    blockIndex := manager.blockIndex.insert blockId (decompressedEntry file proto entry)
    disk := { manager.disk with
      data := manager.disk.data.insert blockId file
      desc := manager.disk.desc.insert blockId proto
      compressedData := manager.disk.compressedData.erase blockId
      compressedDesc := manager.disk.compressedDesc.erase blockId } }

omit [Zstd] in
theorem decompressSteps_unpacked {content : List UInt8} {proto : BlockProto} {entry : BlockEntry}
    (indexed : manager.blockIndex[blockId]? = some entry)
    (covers : File.writeAt (manager.dataOf blockId) 0 content = content) :
    (decompressSteps content proto).foldl (runDecompress blockId) manager = manager.unpacked blockId content proto entry := by
  rw [dataOf] at covers
  simp [decompressSteps, runDecompress, changeEntry, saveIndex, modifyData, dataOf, unpacked, indexed, covers]

theorem decompressBlock_unpacked {file : File} {content : List UInt8} {proto : BlockProto} {entry : BlockEntry}
    (indexed : manager.blockIndex[blockId]? = some entry) (compressed : entry.compression = some .zstd)
    (data : manager.disk.compressedData[blockId]? = some file) (decoded : Zstd.decodeAll file = .ok content)
    (desc : manager.disk.compressedDesc[blockId]? = some proto)
    (covers : File.writeAt (manager.dataOf blockId) 0 content = content) :
    manager.decompressBlock blockId = (.ok (), manager.unpacked blockId content proto entry) := by
  have marked : manager.blockIsCompressed blockId = true := by simp [blockIsCompressed, indexed, compressed]
  simp only [decompressBlock, marked, Bool.not_true, Bool.false_eq_true, if_false, data, decoded, desc]
  rw [decompressSteps_unpacked indexed covers]

theorem compressBlock_packed {file : File} {proto : BlockProto} {entry : BlockEntry}
    (indexed : manager.blockIndex[blockId]? = some entry) (plain : manager.blockIsCompressed blockId = false)
    (data : manager.disk.data[blockId]? = some file) (desc : manager.disk.desc[blockId]? = some proto) :
    manager.compressBlock blockId .zstd = (.ok (), manager.packed blockId file proto entry) := by
  simp only [compressBlock, indexed, plain, Bool.false_eq_true, if_false, data, desc]
  rw [compressSteps_packed data desc indexed]

theorem compressBlock_missing (plain : manager.blockIsCompressed blockId = false)
    (missing : manager.disk.data[blockId]? = none ∨ manager.disk.desc[blockId]? = none) :
    (manager.compressBlock blockId .zstd).2 = manager := by
  rw [compressBlock]
  cases manager.blockIndex[blockId]? with
  | none => rfl
  | some entry =>
    simp only [plain, Bool.false_eq_true, if_false]
    rcases missing with missing | missing
    · simp only [missing]
    · cases manager.disk.data[blockId]? <;> simp only [missing]

omit [Codec] [Zstd] in
theorem writeAt_empty (content : List UInt8) : File.writeAt [] 0 content = content := by
  simp [File.writeAt, File.setLen]

theorem decompress_packed (inverts : Zstd.Inverts) (file : File) (proto : BlockProto) (entry : BlockEntry) :
    (manager.packed blockId file proto entry).decompressBlock blockId =
      (.ok (), (manager.packed blockId file proto entry).unpacked blockId file proto
        (compressedEntry (Zstd.compress file).length (compressedLen proto) entry)) := by
  refine decompressBlock_unpacked (by simp [packed, saveIndex]) rfl ?_ (inverts file) ?_ ?_
  · simp [packed, saveIndex]
  · simp [packed, saveIndex]
  · simp [packed, saveIndex, dataOf, writeAt_empty]

structure Restores (before after : BlockEntry) : Prop where
  size : after.size = before.size
  metadataSize : after.metadataSize = before.metadataSize
  recordCount : after.recordCount = before.recordCount
  latestRecordTime : after.latestRecordTime = before.latestRecordTime
  crc64 : after.crc64 = before.crc64
  version : after.version = before.version
  compression : after.compression = before.compression

def Describes (manager : BlockManager) (blockId : Nat) (entry : BlockEntry) : Prop :=
  ∀ file ∈ manager.disk.data[blockId]?, ∀ proto ∈ manager.disk.desc[blockId]?,
    entry.size = file.length ∧ entry.metadataSize = (Codec.encodeBlock proto).length ∧ entry.crc64 = some proto.crc ∧
      entry.version = proto.version ∧ entry.compression = none

/-- The files of a block are restored, and its index entry is if it says what the files are. -/
theorem compress_decompress (inverts : Zstd.Inverts) (manager : BlockManager) (blockId : Nat) {entry : BlockEntry}
    (indexed : manager.blockIndex[blockId]? = some entry) (plain : manager.blockIsCompressed blockId = false) :
    let after := ((manager.compressBlock blockId .zstd).2.decompressBlock blockId).2
    (after.disk.data[blockId]? = manager.disk.data[blockId]? ∧ after.disk.desc[blockId]? = manager.disk.desc[blockId]? ∧
      ∃ restored, after.blockIndex[blockId]? = some restored ∧ Restores entry restored) ↔
      manager.Describes blockId entry := by
  intro after
  by_cases complete : manager.disk.data[blockId]? = none ∨ manager.disk.desc[blockId]? = none
  · have same : after = manager := by
      simp only [after, compressBlock_missing plain complete, decompressBlock, plain, Bool.not_false, if_true]
    have described : manager.Describes blockId entry := fun file data proto desc => by
      rcases complete with missing | missing
      · simp [missing] at data
      · simp [missing] at desc
    rw [same]
    exact ⟨fun _ => described, fun _ => ⟨rfl, rfl, entry, indexed, rfl, rfl, rfl, rfl, rfl, rfl, rfl⟩⟩
  · rw [not_or] at complete
    obtain ⟨file, data⟩ := Option.ne_none_iff_exists'.mp complete.1
    obtain ⟨proto, desc⟩ := Option.ne_none_iff_exists'.mp complete.2
    have result : after = (manager.packed blockId file proto entry).unpacked blockId file proto
        (compressedEntry (Zstd.compress file).length (compressedLen proto) entry) := by
      simp only [after, compressBlock_packed indexed plain data desc, decompress_packed inverts file proto entry]
    rw [result]
    constructor
    · rintro ⟨_, _, restored, found, same⟩ file' data' proto' desc'
      simp only [unpacked, saveIndex, get_insert, if_pos] at found
      cases Option.some.inj found
      cases Option.some.inj (data.symm.trans data')
      cases Option.some.inj (desc.symm.trans desc')
      exact ⟨same.size.symm, same.metadataSize.symm, same.crc64.symm, same.version.symm, same.compression.symm⟩
    · intro described
      obtain ⟨size, metadataSize, crc64, version, compression⟩ := described file data proto desc
      refine ⟨by simp [unpacked, saveIndex, data], by simp [unpacked, saveIndex, desc],
        decompressedEntry file proto (compressedEntry (Zstd.compress file).length (compressedLen proto) entry), ?_, ?_⟩
      · simp only [unpacked, saveIndex, get_insert, if_pos]
      · exact ⟨size.symm, metadataSize.symm, rfl, rfl, crc64.symm, version.symm, compression.symm⟩

end RoundTrip

end BlockManager

end ReductStore

namespace ReductStore

instance Wire.zstd : Zstd where
  compress := fun bytes => [0x28, 0xB5, 0x2F, 0xFD] ++ bytes
  decodeAll
    | 0x28 :: 0xB5 :: 0x2F :: 0xFD :: bytes => .ok bytes
    | _ => .error "Unknown frame descriptor"

theorem Wire.zstd_inverts : Zstd.Inverts := fun _ => rfl

namespace BlockManager

def oneByte (time : Nat) : WriteCall :=
  { settings := { maxBlockSize := 10, maxBlockRecords := 2 }, time, contentSize := 1, contentType := "text/plain", labels := [] }

def evictedBlock (backendType : BackendType) : BlockManager :=
  let manager := created "entry" "bucket" "entry" backendType [[], [], [], [], [1]]
  ((manager.writeRecord (oneByte 1) (contentOf [[5]])).2.beginWrite (oneByte 0)).2

instance (manager : BlockManager) (blockId : Nat) (entry : BlockEntry) : Decidable (manager.Describes blockId entry) := by
  unfold Describes
  infer_instance

theorem compress_decompress_remote : ∃ entry restored, (evictedBlock .remote).blockIndex[1]? = some entry ∧
    (((evictedBlock .remote).compressBlock 1 .zstd).2.decompressBlock 1).2.blockIndex[1]? = some restored ∧
    Restores entry restored := by
  have listed : ((evictedBlock .remote).blockIndex[1]?).isSome ∧ (evictedBlock .remote).blockIsCompressed 1 = false ∧
      ∀ entry ∈ (evictedBlock .remote).blockIndex[1]?, (evictedBlock .remote).Describes 1 entry := by decide +kernel
  obtain ⟨entry, found⟩ := Option.isSome_iff_exists.mp listed.1
  obtain ⟨_, _, restored, kept, same⟩ := (compress_decompress Wire.zstd_inverts (evictedBlock .remote) 1 found
    listed.2.1).mpr (listed.2.2 entry found)
  exact ⟨entry, restored, found, kept, same⟩

theorem compress_decompress_preallocated :
    (evictedBlock .filesystem).getWrite 1 = none ∧ (evictedBlock .filesystem).blockIsCompressed 1 = false ∧
      (evictedBlock .filesystem).blockIndex[1]?.map BlockEntry.size = some 1 ∧
      (((evictedBlock .filesystem).compressBlock 1 .zstd).2.decompressBlock 1).2.blockIndex[1]?.map BlockEntry.size =
        some 10 := by
  decide +kernel

end BlockManager

end ReductStore
