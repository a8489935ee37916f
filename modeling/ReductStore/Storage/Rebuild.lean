import ReductStore.Storage.Compression
import ReductStore.Storage.Recovery

set_option autoImplicit false

namespace ReductStore

open Std TreeMap BlockManager

inductive DescriptorName where
  | plain (blockId : Nat)
  | compressed (blockId : Nat)
  deriving DecidableEq

def DescriptorName.blockId : DescriptorName → Nat
  | .plain blockId => blockId
  | .compressed blockId => blockId

def DescriptorName.compression : DescriptorName → Option CompressionAlgorithm
  | .plain _ => none
  | .compressed _ => some .zstd

def DescriptorName.stored (disk : Disk) : DescriptorName → Option BlockProto
  | .plain blockId => disk.desc[blockId]?
  | .compressed blockId => disk.compressedDesc[blockId]?

structure Rebuilding where
  index : BlockIndex
  disk : Disk
  unframed : List Nat

variable [Codec] [Zstd]

def rebuildDescriptor (state : Rebuilding) : DescriptorName → Except ReductError Rebuilding
  | .plain blockId =>
    match state.disk.desc[blockId]? with
    | none => .error (internalServerError ("File " ++ toString blockId ++ ".meta does not exist"))
    | some proto =>
      let block := proto.migrate
      .ok { state with
        index := state.index.insertOrUpdateWithCrc (BlockEntry.ofProto block) block.crc
        disk := { state.disk with desc := state.disk.desc.insert blockId block } }
  | .compressed blockId =>
    match state.disk.compressedDesc[blockId]? with
    | none => .error (internalServerError ("File " ++ toString blockId ++ ".meta.zst does not exist"))
    | some proto =>
      if blockId ∈ state.unframed then
        .error (internalServerError ("Failed to decompress block descriptor " ++ toString blockId ++ ".meta.zst"))
      else
        let block := proto.migrate
        let index := state.index.insertOrUpdateWithCrc (BlockEntry.ofProto block) block.crc
        match state.disk.compressedData[block.beginTime]? with
        | none =>
          .ok { state with
            index := index.erase block.beginTime
            disk := { state.disk with
              compressedDesc := state.disk.compressedDesc.erase blockId
              compressedData := state.disk.compressedData.erase blockId } }
        | some file =>
          -- a migrated descriptor is written to the same path without compression
          let migrated := proto.recordCount = 0
          let length := if migrated then (Codec.encodeBlock block).length else compressedLen proto
          .ok {
            index := index.insert block.beginTime
              (compressedEntry file.length length { BlockEntry.ofProto block with crc64 := some block.crc })
            disk := { state.disk with compressedDesc := state.disk.compressedDesc.insert blockId block }
            unframed := if migrated then blockId :: state.unframed else state.unframed }

def restoreEntryFromBlocks (disk : Disk) (names : List DescriptorName) : Except ReductError Rebuilding := do
  let state ← names.foldlM rebuildDescriptor { index := ∅, disk, unframed := [] }
  pure { state with disk := { state.disk with index := some state.index } }

structure Matches (saved rebuilt : BlockEntry) : Prop where
  blockId : rebuilt.blockId = saved.blockId
  size : rebuilt.size = saved.size
  recordCount : rebuilt.recordCount = saved.recordCount
  metadataSize : rebuilt.metadataSize = saved.metadataSize
  latestRecordTime : rebuilt.latestRecordTime = saved.latestRecordTime
  crc64 : rebuilt.crc64 = saved.crc64
  compression : rebuilt.compression = saved.compression

omit [Codec] [Zstd] in
def Rebuilding.descriptor (state : Rebuilding) (blockId : Nat) (entry : BlockEntry) : Option BlockProto :=
  if entry.compression.getD .none = .none then state.disk.desc[blockId]?
  else if blockId ∈ state.unframed then none
  else state.disk.compressedDesc[blockId]?

omit [Zstd] in
def Rebuilding.Loadable (state : Rebuilding) (blockId : Nat) (entry : BlockEntry) : Prop :=
  ∃ proto, state.descriptor blockId entry = some proto ∧
    (entry.crc64 = none ∨ entry.crc64 = some proto.crc ∨ entry.version.getD 0 < proto.version.getD 0)

def Rebuilds (disk : Disk) (saved : BlockIndex) (names : List DescriptorName) : Prop :=
  ∃ state, restoreEntryFromBlocks disk names = .ok state ∧
    ∀ blockId : Nat, match saved[blockId]? with
      | none => state.index[blockId]? = none
      | some entry => ∃ rebuilt, state.index[blockId]? = some rebuilt ∧ Matches entry rebuilt ∧
          state.Loadable blockId rebuilt

omit [Zstd] in
def savedEntry (proto : BlockProto) : BlockEntry :=
  { BlockEntry.ofProto { proto with metadataSize := (Codec.encodeBlock proto).length } with crc64 := some proto.crc }

def Readable (disk : Disk) : DescriptorName → Prop
  | .plain blockId => ∃ proto, disk.desc[blockId]? = some proto ∧ proto.beginTime = blockId
  | .compressed blockId => ∃ proto file, disk.compressedDesc[blockId]? = some proto ∧ proto.beginTime = blockId ∧
      disk.compressedData[blockId]? = some file

inductive Written (disk : Disk) (blockId : Nat) : BlockEntry → Prop where
  | saved (proto : BlockProto) (counted : proto.recordCount = proto.records.length)
      (desc : ∀ stored ∈ disk.desc[blockId]?, stored = proto) : Written disk blockId (savedEntry proto)
  | compressed (proto : BlockProto) (file : File) (counted : proto.recordCount = proto.records.length)
      (desc : ∀ stored ∈ disk.compressedDesc[blockId]?, stored = proto)
      (data : ∀ content ∈ disk.compressedData[blockId]?, content = Zstd.compress file) :
      Written disk blockId (compressedEntry (Zstd.compress file).length (compressedLen proto) (savedEntry proto))
  | decompressed (proto : BlockProto) (file : File) (counted : proto.recordCount = proto.records.length)
      (desc : ∀ stored ∈ disk.desc[blockId]?, stored = proto) (data : ∀ content ∈ disk.data[blockId]?, content = file) :
      Written disk blockId (decompressedEntry file proto (savedEntry proto))
  | rebuilt (proto : BlockProto) (counted : proto.recordCount = proto.records.length)
      (desc : ∀ stored ∈ disk.desc[blockId]?, stored = proto) : Written disk blockId (entryOf proto)
  | pending (block : Block) : Written disk blockId (BlockEntry.ofBlock block)

/-- A directory as the program leaves it, also when it was stopped: a descriptor that is there is the one from which the entry
    of the saved index was made, but it can be missing, stand beside the descriptor of the other kind or have no entry. -/
structure WrittenEntry (disk : Disk) (saved : BlockIndex) : Prop where
  index : disk.index = some saved
  blocks : ∀ (blockId : Nat) (entry : BlockEntry), saved[blockId]? = some entry → Written disk blockId entry
  readable : ∀ name : DescriptorName, (name.stored disk).isSome = true → Readable disk name

omit [Codec] [Zstd] in
structure Lists (disk : Disk) (names : List DescriptorName) : Prop where
  nodup : names.Nodup
  listed : ∀ name : DescriptorName, name ∈ names ↔ (name.stored disk).isSome = true

omit [Codec] [Zstd] in
/-- A descriptor is there if and only if it is the one of a block of the index, of the kind that its entry says. -/
def Named (disk : Disk) (saved : BlockIndex) : Prop :=
  ∀ name : DescriptorName,
    (name.stored disk).isSome = true ↔ saved[name.blockId]?.map BlockEntry.compression = some name.compression

/-- The index entry of a block is what its descriptor says, and a compressed block has records. -/
def Stable (disk : Disk) (blockId : Nat) (entry : BlockEntry) : Prop :=
  entry.crc64.isSome = true ∧
  (∀ proto, disk.desc[blockId]? = some proto →
    (proto.recordCount ≠ 0 → entry.metadataSize = proto.metadataSize) ∧
      (proto.recordCount = 0 →
        entry.metadataSize = (Codec.encodeBlock proto).length ∧ proto.migrate.crc = proto.crc) ∧
      entry.size = proto.size) ∧
  ∀ proto, disk.compressedDesc[blockId]? = some proto → proto.recordCount ≠ 0

section Loop

variable {disk : Disk}

def rebuiltCompressed (proto : BlockProto) (file : File) : BlockEntry :=
  BlockManager.compressedEntry file.length
    (if proto.recordCount = 0 then (Codec.encodeBlock proto.migrate).length else BlockManager.compressedLen proto)
    { BlockEntry.ofProto proto.migrate with crc64 := some proto.migrate.crc }

def DescriptorName.entry (disk : Disk) : DescriptorName → Option BlockEntry
  | .plain blockId => disk.desc[blockId]?.map fun proto => entryOf proto.migrate
  | .compressed blockId =>
    disk.compressedDesc[blockId]?.bind fun proto => disk.compressedData[blockId]?.map (rebuiltCompressed proto)

/-- What the loop has done. A block with two descriptors has the entry of the one listed last. -/
structure Rebuilt (disk : Disk) (names : List DescriptorName) (state : Rebuilding) : Prop where
  index : ∀ blockId : Nat,
    state.index[blockId]? = (names.filter (·.blockId = blockId)).getLast?.bind (DescriptorName.entry disk)
  desc : ∀ blockId : Nat, state.disk.desc[blockId]? =
    if .plain blockId ∈ names then disk.desc[blockId]?.map BlockProto.migrate else disk.desc[blockId]?
  compressedDesc : ∀ blockId : Nat, state.disk.compressedDesc[blockId]? =
    if .compressed blockId ∈ names then disk.compressedDesc[blockId]?.map BlockProto.migrate
    else disk.compressedDesc[blockId]?
  unframed : ∀ blockId : Nat, blockId ∈ state.unframed ↔
    .compressed blockId ∈ names ∧ ∃ proto ∈ disk.compressedDesc[blockId]?, proto.recordCount = 0
  data : state.disk.compressedData = disk.compressedData

theorem rebuildDescriptor_plain {state : Rebuilding} (blockId : Nat) {proto : BlockProto}
    (found : state.disk.desc[blockId]? = some proto) (title : proto.beginTime = blockId) :
    rebuildDescriptor state (.plain blockId) = .ok { state with
      index := state.index.insert blockId (entryOf proto.migrate)
      disk := { state.disk with desc := state.disk.desc.insert blockId proto.migrate } } := by
  have key : proto.migrate.beginTime = blockId := (beginTime_migrate proto).trans title
  simp only [rebuildDescriptor, found, BlockIndex.insertOrUpdateWithCrc, BlockIndex.insertOrUpdate, entryOf]
  rw [show (BlockEntry.ofProto proto.migrate).blockId = blockId from key]

theorem rebuildDescriptor_compressed {state : Rebuilding} (blockId : Nat) {proto : BlockProto} {file : File}
    (found : state.disk.compressedDesc[blockId]? = some proto) (title : proto.beginTime = blockId)
    (data : state.disk.compressedData[blockId]? = some file) (framed : blockId ∉ state.unframed) :
    ∃ index : BlockIndex,
      (∀ other : Nat, index[other]? = if other = blockId then some (rebuiltCompressed proto file)
        else state.index[other]?) ∧
      rebuildDescriptor state (.compressed blockId) = .ok {
        index
        disk := { state.disk with compressedDesc := state.disk.compressedDesc.insert blockId proto.migrate }
        unframed := if proto.recordCount = 0 then blockId :: state.unframed else state.unframed } := by
  have key : proto.migrate.beginTime = blockId := (beginTime_migrate proto).trans title
  refine ⟨(state.index.insertOrUpdateWithCrc (BlockEntry.ofProto proto.migrate) proto.migrate.crc).insert blockId
    (rebuiltCompressed proto file), fun other => ?_, ?_⟩
  · have keyed : (BlockEntry.ofProto proto.migrate).blockId = blockId := key
    simp only [BlockIndex.insertOrUpdateWithCrc, BlockIndex.insertOrUpdate, keyed, get_insert]
    split <;> rfl
  · simp only [rebuildDescriptor, found, if_neg framed, key, data]
    rfl

omit [Codec] [Zstd] in
theorem last_appended (names : List DescriptorName) (name : DescriptorName) (blockId : Nat) :
    ((names ++ [name]).filter (·.blockId = blockId)).getLast? =
      if blockId = name.blockId then some name else (names.filter (·.blockId = blockId)).getLast? := by
  by_cases same : blockId = name.blockId
  · simp [List.filter_append, same]
  · simp [List.filter_append, same, Ne.symm same]

theorem rebuilt_step {names : List DescriptorName} {state : Rebuilding} (rebuilt : Rebuilt disk names state)
    {name : DescriptorName} (new : name ∉ names) (readable : Readable disk name) :
    ∃ after, rebuildDescriptor state name = .ok after ∧ Rebuilt disk (names ++ [name]) after := by
  cases name with
  | plain blockId =>
    obtain ⟨proto, found, title⟩ := readable
    refine ⟨_, rebuildDescriptor_plain blockId (by rw [rebuilt.desc, if_neg new, found]) title, ?_⟩
    refine ⟨fun other => ?_, fun other => ?_, ?_, ?_, rebuilt.data⟩
    · rw [last_appended]
      by_cases same : other = blockId
      · simp [same, DescriptorName.blockId, DescriptorName.entry, found]
      · simpa [same, DescriptorName.blockId] using rebuilt.index other
    · by_cases same : other = blockId
      · simp [same, found]
      · simpa [same] using rebuilt.desc other
    · simpa using rebuilt.compressedDesc
    · simpa using rebuilt.unframed
  | compressed blockId =>
    obtain ⟨proto, file, found, title, content⟩ := readable
    have framed : blockId ∉ state.unframed := fun spoiled => new ((rebuilt.unframed blockId).mp spoiled).1
    obtain ⟨index, lookups, done⟩ := rebuildDescriptor_compressed blockId
      (by rw [rebuilt.compressedDesc, if_neg new, found]) title (by rw [rebuilt.data]; exact content) framed
    refine ⟨_, done, fun other => ?_, ?_, fun other => ?_, fun other => ?_, rebuilt.data⟩
    · rw [last_appended, lookups]
      by_cases same : other = blockId
      · simp [same, DescriptorName.blockId, DescriptorName.entry, found, content]
      · simpa [same, DescriptorName.blockId] using rebuilt.index other
    · simpa using rebuilt.desc
    · by_cases same : other = blockId
      · simp [same, found]
      · simpa [same] using rebuilt.compressedDesc other
    · dsimp only
      by_cases same : other = blockId
      · subst same
        by_cases empty : proto.recordCount = 0 <;> simp [found, empty, framed]
      · have old := rebuilt.unframed other
        split <;> simpa [same] using old

theorem rebuilt_run {done names : List DescriptorName} {state : Rebuilding} (rebuilt : Rebuilt disk done state)
    (nodup : (done ++ names).Nodup) (readable : ∀ name ∈ names, Readable disk name) :
    ∃ after, names.foldlM rebuildDescriptor state = .ok after ∧ Rebuilt disk (done ++ names) after := by
  induction names generalizing done state with
  | nil => exact ⟨state, rfl, by simpa using rebuilt⟩
  | cons name names ih =>
    have new : name ∉ done := fun member => (List.nodup_append.mp nodup).2.2 _ member _ List.mem_cons_self rfl
    obtain ⟨next, step, later⟩ := rebuilt_step rebuilt new (readable name List.mem_cons_self)
    obtain ⟨after, run, final⟩ := ih later (by simpa using nodup)
      fun other member => readable other (List.mem_cons_of_mem name member)
    refine ⟨after, ?_, by simpa using final⟩
    rw [List.foldlM_cons, step]
    exact run

end Loop

section Comparison

variable {disk : Disk} {saved : BlockIndex} {names : List DescriptorName}

omit [Codec] [Zstd] in
theorem DescriptorName.same {first second : DescriptorName} (block : first.blockId = second.blockId)
    (kind : first.compression = second.compression) : first = second := by
  cases first <;> cases second <;> simp_all [DescriptorName.blockId, DescriptorName.compression]

omit [Codec] [Zstd] in
theorem Named.present (named : Named disk saved) (name : DescriptorName) {entry : BlockEntry}
    (indexed : saved[name.blockId]? = some entry) (kind : entry.compression = name.compression) :
    (name.stored disk).isSome = true := (named name).mpr (by rw [indexed, Option.map_some, kind])

omit [Codec] [Zstd] in
theorem Named.missing (named : Named disk saved) (name : DescriptorName) {entry : BlockEntry}
    (indexed : saved[name.blockId]? = some entry) (kind : entry.compression ≠ name.compression) :
    name.stored disk = none := by
  rw [← Option.not_isSome_iff_eq_none, named name, indexed]
  exact fun same => kind (Option.some.inj same)

omit [Codec] [Zstd] in
theorem Named.last (named : Named disk saved) (lists : Lists disk names) {name : DescriptorName}
    (present : (name.stored disk).isSome = true) : (names.filter (·.blockId = name.blockId)).getLast? = some name := by
  cases last : (names.filter (·.blockId = name.blockId)).getLast? with
  | none =>
    rw [List.getLast?_eq_none_iff, List.filter_eq_nil_iff] at last
    exact absurd (decide_eq_true rfl) (last name ((lists.listed name).mpr present))
  | some other =>
    obtain ⟨listed, same⟩ := List.mem_filter.mp (List.mem_of_getLast? last)
    have block : other.blockId = name.blockId := of_decide_eq_true same
    have kind := (named other).mp ((lists.listed other).mp listed)
    rw [block, (named name).mp present] at kind
    rw [DescriptorName.same block (Option.some.inj kind).symm]

theorem Rebuilt.indexed {state : Rebuilding} (rebuilt : Rebuilt disk names state) (named : Named disk saved)
    (lists : Lists disk names) {name : DescriptorName} (present : (name.stored disk).isSome = true) :
    state.index[name.blockId]? = name.entry disk := by
  rw [rebuilt.index, named.last lists present, Option.bind_some]

theorem restoreEntryFromBlocks_rebuilt (lists : Lists disk names)
    (readable : ∀ name : DescriptorName, (name.stored disk).isSome = true → Readable disk name) :
    ∃ state, restoreEntryFromBlocks disk names =
        .ok { state with disk := { state.disk with index := some state.index } } ∧ Rebuilt disk names state := by
  have start : Rebuilt disk [] { index := ∅, disk, unframed := [] } :=
    ⟨by simp, by simp, by simp, by simp, rfl⟩
  obtain ⟨state, run, rebuilt⟩ := rebuilt_run start lists.nodup
    fun name member => readable name ((lists.listed name).mp member)
  refine ⟨state, ?_, rebuilt⟩
  rw [restoreEntryFromBlocks, run]
  rfl

omit [Zstd] in
theorem migrate_counted {proto : BlockProto} (counted : proto.recordCount = proto.records.length) :
    proto.migrate = if proto.recordCount = 0 then { proto with metadataSize := (Codec.encodeBlock proto).length }
      else proto := by
  have same : { proto with recordCount := proto.records.length } = proto := by rw [← counted]
  rw [BlockProto.migrate, same]

omit [Zstd] in
theorem matches_plain_iff {proto : BlockProto} (counted : proto.recordCount = proto.records.length)
    (size metadataSize : Nat) :
    Matches { entryOf proto with size, metadataSize } (entryOf proto.migrate) ↔
      (proto.recordCount ≠ 0 → metadataSize = proto.metadataSize) ∧
        (proto.recordCount = 0 → metadataSize = (Codec.encodeBlock proto).length ∧ proto.migrate.crc = proto.crc) ∧
        size = proto.size := by
  have migrated := migrate_counted counted
  by_cases empty : proto.recordCount = 0
  · rw [if_pos empty] at migrated
    constructor
    · intro same
      have length := same.metadataSize
      have sizes := same.size
      rw [migrated] at length sizes
      exact ⟨fun contrary => absurd empty contrary, fun _ => ⟨length.symm, by simpa [entryOf] using same.crc64⟩,
        sizes.symm⟩
    · rintro ⟨-, equal, sizes⟩
      obtain ⟨length, crc⟩ := equal empty
      have sum : (entryOf proto.migrate).crc64 = some proto.crc := congrArg some crc
      rw [migrated] at sum ⊢
      exact ⟨rfl, sizes.symm, rfl, length.symm, rfl, sum, rfl⟩
  · rw [if_neg empty] at migrated
    rw [migrated]
    constructor
    · exact fun same => ⟨fun _ => same.metadataSize.symm, fun contrary => absurd contrary empty, same.size.symm⟩
    · rintro ⟨length, -, sizes⟩
      exact ⟨rfl, sizes.symm, rfl, (length empty).symm, rfl, rfl, rfl⟩

theorem matches_compressed {proto : BlockProto} (filled : proto.recordCount ≠ 0) (file : File) :
    Matches (compressedEntry file.length (compressedLen proto) (savedEntry proto)) (rebuiltCompressed proto file) := by
  have migrated : proto.migrate = proto := by rw [BlockProto.migrate, if_neg filled]
  unfold rebuiltCompressed
  rw [migrated, if_neg filled]
  exact ⟨rfl, rfl, rfl, rfl, rfl, rfl, rfl⟩

section Blocks

variable {state : Rebuilding} {blockId : Nat} {proto : BlockProto}

def Restored (state : Rebuilding) (blockId : Nat) (entry : BlockEntry) : Prop :=
  ∃ rebuilt, state.index[blockId]? = some rebuilt ∧ Matches entry rebuilt ∧ state.Loadable blockId rebuilt

theorem Rebuilt.plain_iff (rebuilt : Rebuilt disk names state) (named : Named disk saved) (lists : Lists disk names)
    (size metadataSize : Nat) (indexed : saved[blockId]? = some { entryOf proto with size, metadataSize })
    (counted : proto.recordCount = proto.records.length) (same : ∀ stored ∈ disk.desc[blockId]?, stored = proto) :
    Restored state blockId { entryOf proto with size, metadataSize } ↔
      Stable disk blockId { entryOf proto with size, metadataSize } := by
  have present := named.present (.plain blockId) indexed rfl
  obtain ⟨stored, desc⟩ := Option.isSome_iff_exists.mp present
  obtain rfl := same stored desc
  have alone : disk.compressedDesc[blockId]? = none :=
    named.missing (.compressed blockId) indexed (by simp [entryOf, BlockEntry.ofProto, DescriptorName.compression])
  change disk.desc[blockId]? = some stored at desc
  have found : state.index[blockId]? = some (entryOf stored.migrate) :=
    (rebuilt.indexed named lists present).trans (by simp [DescriptorName.entry, desc])
  have message : state.disk.desc[blockId]? = some stored.migrate := by
    rw [rebuilt.desc, if_pos ((lists.listed _).mpr present), desc]
    rfl
  have stable : Stable disk blockId { entryOf stored with size, metadataSize } ↔
      (stored.recordCount ≠ 0 → metadataSize = stored.metadataSize) ∧
        (stored.recordCount = 0 → metadataSize = (Codec.encodeBlock stored).length ∧ stored.migrate.crc = stored.crc) ∧
        size = stored.size := by
    simp [Stable, desc, alone, entryOf]
  rw [stable, ← matches_plain_iff counted size metadataSize, Restored, found]
  constructor
  · rintro ⟨_, same, fields, -⟩
    cases Option.some.inj same
    exact fields
  · exact fun fields => ⟨_, rfl, fields, stored.migrate, message, .inr (.inl rfl)⟩

theorem Rebuilt.compressed_iff (rebuilt : Rebuilt disk names state) (named : Named disk saved) (lists : Lists disk names)
    {entry : BlockEntry} (indexed : saved[blockId]? = some entry) (kind : entry.compression = some .zstd) {file : File}
    (found : disk.compressedDesc[blockId]? = some proto) (kept : disk.compressedData[blockId]? = some file) :
    Restored state blockId (compressedEntry file.length (compressedLen proto) (savedEntry proto)) ↔
      Stable disk blockId (compressedEntry file.length (compressedLen proto) (savedEntry proto)) := by
  have present := named.present (.compressed blockId) indexed kind
  have alone : disk.desc[blockId]? = none :=
    named.missing (.plain blockId) indexed (by simp [kind, DescriptorName.compression])
  have listed := (lists.listed _).mpr present
  have made : state.index[blockId]? = some (rebuiltCompressed proto file) :=
    (rebuilt.indexed named lists present).trans (by simp [DescriptorName.entry, found, kept])
  have message : state.disk.compressedDesc[blockId]? = some proto.migrate := by
    rw [rebuilt.compressedDesc, if_pos listed, found]
    rfl
  have framing : blockId ∈ state.unframed ↔ proto.recordCount = 0 := by simp [rebuilt.unframed, listed, found]
  have stable : Stable disk blockId (compressedEntry file.length (compressedLen proto) (savedEntry proto)) ↔
      proto.recordCount ≠ 0 := by
    simp [Stable, found, alone, compressedEntry, savedEntry]
  rw [stable, Restored, made]
  constructor
  · rintro ⟨_, same, -, message, read, -⟩ empty
    cases Option.some.inj same
    have spoiled := framing.mpr empty
    simp [Rebuilding.descriptor, rebuiltCompressed, compressedEntry, spoiled] at read
  · intro filled
    refine ⟨_, rfl, matches_compressed filled _, proto.migrate, ?_, .inr (.inl rfl)⟩
    have framed : blockId ∉ state.unframed := fun spoiled => filled (framing.mp spoiled)
    simp [Rebuilding.descriptor, rebuiltCompressed, compressedEntry, framed, message]

theorem Rebuilt.block_iff (rebuilt : Rebuilt disk names state) (named : Named disk saved) (lists : Lists disk names)
    (readable : ∀ name : DescriptorName, (name.stored disk).isSome = true → Readable disk name) {entry : BlockEntry}
    (indexed : saved[blockId]? = some entry) (written : Written disk blockId entry) :
    Restored state blockId entry ↔ Stable disk blockId entry := by
  cases written with
  | saved proto counted desc => exact rebuilt.plain_iff named lists proto.size _ indexed counted desc
  | decompressed proto file counted desc data => exact rebuilt.plain_iff named lists file.length _ indexed counted desc
  | rebuilt proto counted desc => exact rebuilt.plain_iff named lists proto.size proto.metadataSize indexed counted desc
  | pending block =>
    refine ⟨?_, fun stable => absurd stable.1 (by simp [BlockEntry.ofBlock])⟩
    rintro ⟨entry, found, same, -⟩
    -- the loop gives every entry a checksum
    have bare : entry.crc64 = none := same.crc64
    have made := found.symm.trans (rebuilt.indexed named lists (named.present (.plain blockId) indexed rfl))
    obtain ⟨proto, -, rfl⟩ := Option.map_eq_some_iff.mp made.symm
    simp [entryOf] at bare
  | compressed proto file counted desc data =>
    obtain ⟨stored, content, found, -, kept⟩ :=
      readable (.compressed blockId) (named.present (.compressed blockId) indexed rfl)
    obtain rfl := desc stored found
    obtain rfl := data content kept
    exact rebuilt.compressed_iff named lists indexed rfl found kept

end Blocks

omit [Codec] [Zstd] in
def Disk.descriptorNames (disk : Disk) : List DescriptorName :=
  disk.desc.keys.map .plain ++ disk.compressedDesc.keys.map .compressed

omit [Codec] [Zstd] in
theorem lists_descriptorNames (disk : Disk) : Lists disk disk.descriptorNames := by
  have plainKeys : disk.desc.keys.Nodup := disk.desc.nodup_keys
  have compressedKeys : disk.compressedDesc.keys.Nodup := disk.compressedDesc.nodup_keys
  refine ⟨?_, fun name => ?_⟩
  · refine (plainKeys.map ?_).append (compressedKeys.map ?_) ?_
    · exact fun first second same => DescriptorName.plain.inj same
    · exact fun first second same => DescriptorName.compressed.inj same
    · intro name left right
      obtain ⟨_, -, rfl⟩ := List.mem_map.mp left
      obtain ⟨_, -, contrary⟩ := List.mem_map.mp right
      cases contrary
  · cases name <;> simp [Disk.descriptorNames, DescriptorName.stored]

omit [Codec] [Zstd] in
theorem Lists.last (lists : Lists disk names) {name : DescriptorName} (present : (name.stored disk).isSome = true) :
    Lists disk (names.erase name ++ [name]) := by
  have order : (names.erase name ++ [name]).Perm names :=
    List.perm_append_comm.trans (List.perm_cons_erase ((lists.listed name).mpr present)).symm
  exact ⟨order.nodup_iff.mpr lists.nodup, fun other => order.mem_iff.trans (lists.listed other)⟩

theorem Rebuilt.rebuilds {state : Rebuilding} (rebuilt : Rebuilt disk names state)
    (run : restoreEntryFromBlocks disk names = .ok { state with disk := { state.disk with index := some state.index } })
    (rebuilds : Rebuilds disk saved names) (blockId : Nat) :
    saved[blockId]?.map BlockEntry.compression =
      ((names.filter (·.blockId = blockId)).getLast?.bind (DescriptorName.entry disk)).map BlockEntry.compression := by
  obtain ⟨result, same, all⟩ := rebuilds
  rw [run] at same
  obtain rfl := Except.ok.inj same
  have block := all blockId
  rw [← rebuilt.index]
  cases indexed : saved[blockId]? with
  | none =>
    rw [indexed] at block
    rw [block]
  | some entry =>
    rw [indexed] at block
    obtain ⟨made, found, fields, -⟩ := block
    rw [found, Option.map_some, Option.map_some, fields.compression]

theorem Readable.compression {name : DescriptorName} (readable : Readable disk name) :
    (name.entry disk).map BlockEntry.compression = some name.compression := by
  cases name with
  | plain blockId =>
    obtain ⟨proto, found, -⟩ := readable
    simp [DescriptorName.entry, found, entryOf, BlockEntry.ofProto, DescriptorName.compression]
  | compressed blockId =>
    obtain ⟨proto, file, found, -, data⟩ := readable
    simp [DescriptorName.entry, found, data, rebuiltCompressed, compressedEntry, DescriptorName.compression]

/-- If every listing restores the index, the descriptors are the ones that the index names. -/
theorem named_of_rebuilds (readable : ∀ name : DescriptorName, (name.stored disk).isSome = true → Readable disk name)
    (all : ∀ names, Lists disk names → Rebuilds disk saved names) : Named disk saved := by
  have listed := lists_descriptorNames disk
  have forward (name : DescriptorName) (present : (name.stored disk).isSome = true) :
      saved[name.blockId]?.map BlockEntry.compression = some name.compression := by
    obtain ⟨state, run, rebuilt⟩ := restoreEntryFromBlocks_rebuilt (listed.last present) readable
    rw [rebuilt.rebuilds run (all _ (listed.last present)), last_appended, if_pos rfl]
    exact (readable name present).compression
  refine fun name => ⟨forward name, fun kind => ?_⟩
  obtain ⟨state, run, rebuilt⟩ := restoreEntryFromBlocks_rebuilt listed readable
  have made := (rebuilt.rebuilds run (all _ listed) name.blockId).symm.trans kind
  cases last : (disk.descriptorNames.filter (·.blockId = name.blockId)).getLast? with
  | none => simp [last] at made
  | some other =>
    obtain ⟨member, same⟩ := List.mem_filter.mp (List.mem_of_getLast? last)
    have block : other.blockId = name.blockId := of_decide_eq_true same
    have present := (listed.listed other).mp member
    have kinds := forward other present
    rw [block, kind] at kinds
    rwa [DescriptorName.same block (Option.some.inj kinds).symm] at present

/-- A rebuild restores the saved index and leaves the descriptors loadable, in whatever order the directory is listed, if and
    only if the descriptors are the ones that the index names, each says what the index says and no compressed block is
    empty. -/
theorem rebuild_restores_iff (disk : Disk) (saved : BlockIndex) (written : WrittenEntry disk saved) :
    (∀ names, Lists disk names → Rebuilds disk saved names) ↔
      Named disk saved ∧
        ∀ (blockId : Nat) (entry : BlockEntry), saved[blockId]? = some entry → Stable disk blockId entry := by
  have listing (named : Named disk saved) (names : List DescriptorName) (lists : Lists disk names) :
      Rebuilds disk saved names ↔
        ∀ (blockId : Nat) (entry : BlockEntry), saved[blockId]? = some entry → Stable disk blockId entry := by
    obtain ⟨state, run, rebuilt⟩ := restoreEntryFromBlocks_rebuilt lists written.readable
    have block := fun blockId entry (indexed : saved[blockId]? = some entry) =>
      rebuilt.block_iff named lists written.readable indexed (written.blocks blockId entry indexed)
    constructor
    · rintro ⟨result, same, all⟩ blockId entry indexed
      rw [run] at same
      cases Except.ok.inj same
      have here := all blockId
      rw [indexed] at here
      exact (block blockId entry indexed).mp here
    · intro stable
      refine ⟨_, run, fun blockId => ?_⟩
      cases indexed : saved[blockId]? with
      | some entry => exact (block blockId entry indexed).mpr (stable blockId entry indexed)
      | none =>
        have none : names.filter (·.blockId = blockId) = [] := List.filter_eq_nil_iff.mpr fun name member same => by
          have kind := (named name).mp ((lists.listed name).mp member)
          rw [of_decide_eq_true same, indexed] at kind
          cases kind
        exact (rebuilt.index blockId).trans (by rw [none]; rfl)
  constructor
  · intro all
    have named := named_of_rebuilds written.readable all
    exact ⟨named, (listing named _ (lists_descriptorNames disk)).mp (all _ (lists_descriptorNames disk))⟩
  · exact fun ⟨named, stable⟩ names lists => (listing named names lists).mpr stable

end Comparison

section Program

variable {manager : BlockManager} {blockId : Nat} {file : File} {proto : BlockProto} {entry : BlockEntry}

theorem written_saveMeta (manager : BlockManager) (ref : BlockRef)
    (counted : (manager.heap ref).recordCount = (manager.heap ref).recordIndex.size) :
    (manager.saveMetaOnDisk ref).blockIndex[(manager.heap ref).blockId]? = some (savedEntry (manager.snapshot ref)) ∧
      (manager.saveMetaOnDisk ref).disk.desc[(manager.heap ref).blockId]? = some (manager.snapshot ref) ∧
      Written (manager.saveMetaOnDisk ref).disk (manager.heap ref).blockId (savedEntry (manager.snapshot ref)) := by
  have title : (manager.snapshot ref).beginTime = (manager.heap ref).blockId := rfl
  have desc : (manager.saveMetaOnDisk ref).disk.desc[(manager.heap ref).blockId]? = some (manager.snapshot ref) := by
    simp [saveMetaOnDisk, walRemove, saveIndex, indexDescriptor, writeDescriptor, title]
  refine ⟨?_, desc, .saved _ ?_ (by simp [desc])⟩
  · simp [saveMetaOnDisk, walRemove, saveIndex, indexDescriptor, writeDescriptor, BlockIndex.insertOrUpdateWithCrc,
      BlockIndex.insertOrUpdate, savedEntry, BlockEntry.ofProto, title]
  · simpa [snapshot, Block.toProto, Block.records] using counted

theorem written_packed (written : Written manager.disk blockId entry) (plain : entry.compression = none)
    (clean : entry.crc64.isSome = true) (desc : manager.disk.desc[blockId]? = some proto) :
    Written (manager.packed blockId file proto entry).disk blockId
      (compressedEntry (Zstd.compress file).length (compressedLen proto) entry) := by
  have packs : proto.recordCount = proto.records.length →
      Written (manager.packed blockId file proto entry).disk blockId
        (compressedEntry (Zstd.compress file).length (compressedLen proto) (savedEntry proto)) := fun counted =>
    .compressed proto file counted (by simp [packed, saveIndex]) (by simp [packed, saveIndex])
  cases written with
  | saved _ counted found =>
    cases found proto desc
    exact packs counted
  | compressed => cases plain
  | decompressed _ _ counted found data =>
    cases found proto desc
    exact packs counted
  | rebuilt _ counted found =>
    cases found proto desc
    exact packs counted
  | pending => cases clean

omit [Codec] [Zstd] in
structure OnlyBlock (manager : BlockManager) (blockId : Nat) : Prop where
  index : manager.disk.index = some manager.blockIndex
  keys : manager.blockIndex.keys = [blockId]
  plain : ∀ pair ∈ manager.disk.desc.toList, pair.2.beginTime = pair.1
  compressed : ∀ pair ∈ manager.disk.compressedDesc.toList,
    pair.2.beginTime = pair.1 ∧ manager.disk.compressedData[pair.1]?.isSome = true

theorem OnlyBlock.writtenEntry (only : OnlyBlock manager blockId) (indexed : manager.blockIndex[blockId]? = some entry)
    (written : Written manager.disk blockId entry) : WrittenEntry manager.disk manager.blockIndex := by
  refine ⟨only.index, fun other found present => ?_, fun name present => ?_⟩
  · have member : other ∈ manager.blockIndex.keys :=
      ExtTreeMap.mem_keys.mpr (ExtTreeMap.mem_iff_isSome_getElem?.mpr (by simp [present]))
    rw [only.keys, List.mem_singleton] at member
    subst member
    cases Option.some.inj (indexed.symm.trans present)
    exact written
  · obtain ⟨proto, found⟩ := Option.isSome_iff_exists.mp present
    cases name with
    | plain other => exact ⟨proto, found, only.plain _ (ExtTreeMap.mem_toList_iff_getElem?_eq_some.mpr found)⟩
    | compressed other =>
      obtain ⟨title, data⟩ := only.compressed _ (ExtTreeMap.mem_toList_iff_getElem?_eq_some.mpr found)
      obtain ⟨file, content⟩ := Option.isSome_iff_exists.mp data
      exact ⟨proto, file, found, title, content⟩

omit [Codec] [Zstd] in
theorem named_of_lists {disk : Disk} {saved : BlockIndex}
    (listed : ∀ name ∈ disk.descriptorNames, saved[name.blockId]?.map BlockEntry.compression = some name.compression)
    (indexed : ∀ pair ∈ saved.toList, ∀ name ∈ [DescriptorName.plain pair.1, .compressed pair.1],
      pair.2.compression = name.compression → (name.stored disk).isSome = true) : Named disk saved := by
  refine fun name => ⟨fun present => listed name (((lists_descriptorNames disk).listed name).mpr present), fun kind => ?_⟩
  obtain ⟨entry, found, same⟩ := Option.map_eq_some_iff.mp kind
  refine indexed _ (ExtTreeMap.mem_toList_iff_getElem?_eq_some.mpr found) name ?_ same
  cases name <;> simp [DescriptorName.blockId]

end Program

end ReductStore

namespace ReductStore

open Std BlockManager

def oneRecord : BlockManager :=
  ((created "entry" "bucket" "entry" .remote []).writeRecord (oneByte 1) (contentOf [[5]])).2

def savedBlock (manager : BlockManager) : BlockManager := manager.saveMetaOnDisk 0

def compressedBlock (manager : BlockManager) : BlockManager := ((savedBlock manager).compressBlock 1 .zstd).2

theorem writtenEntry_saved {manager : BlockManager} (title : (manager.heap 0).blockId = 1)
    (counted : (manager.heap 0).recordCount = (manager.heap 0).recordIndex.size) (only : OnlyBlock (savedBlock manager) 1) :
    WrittenEntry (savedBlock manager).disk (savedBlock manager).blockIndex := by
  obtain ⟨indexed, -, written⟩ := written_saveMeta manager 0 counted
  rw [title] at indexed written
  exact only.writtenEntry indexed written

theorem writtenEntry_compressed {manager : BlockManager} (title : (manager.heap 0).blockId = 1)
    (counted : (manager.heap 0).recordCount = (manager.heap 0).recordIndex.size)
    (present : (savedBlock manager).disk.data[1]?.isSome = true) (only : OnlyBlock (compressedBlock manager) 1) :
    WrittenEntry (compressedBlock manager).disk (compressedBlock manager).blockIndex := by
  obtain ⟨indexed, desc, written⟩ := written_saveMeta manager 0 counted
  rw [title] at indexed desc written
  obtain ⟨file, data⟩ := Option.isSome_iff_exists.mp present
  have plain : (savedBlock manager).blockIsCompressed 1 = false := by
    simp [savedBlock, blockIsCompressed, indexed, savedEntry, BlockEntry.ofProto]
  have result : compressedBlock manager = (savedBlock manager).packed 1 file (manager.snapshot 0) _ :=
    congrArg Prod.snd (compressBlock_packed indexed plain data desc)
  have stored : (compressedBlock manager).blockIndex[1]? =
      some (compressedEntry (Zstd.compress file).length (compressedLen (manager.snapshot 0))
        (savedEntry (manager.snapshot 0))) := by
    simp [result, packed, saveIndex]
  refine only.writtenEntry stored ?_
  rw [result]
  exact written_packed written rfl rfl desc

theorem oneRecord_saved : WrittenEntry (savedBlock oneRecord).disk (savedBlock oneRecord).blockIndex :=
  writtenEntry_saved (by decide +kernel) (by decide +kernel) ⟨rfl, by decide +kernel, by decide +kernel, by decide +kernel⟩

theorem oneRecord_compressed : WrittenEntry (compressedBlock oneRecord).disk (compressedBlock oneRecord).blockIndex :=
  writtenEntry_compressed (by decide +kernel) (by decide +kernel) (by decide +kernel)
    ⟨rfl, by decide +kernel, by decide +kernel, by decide +kernel⟩

theorem rebuild_restores_compressed : Rebuilds (compressedBlock oneRecord).disk (compressedBlock oneRecord).blockIndex
    (compressedBlock oneRecord).disk.descriptorNames := by
  refine (rebuild_restores_iff _ _ oneRecord_compressed).mpr ⟨?_, fun blockId entry indexed => ?_⟩ _
    (lists_descriptorNames _)
  · exact named_of_lists (by decide +kernel) (by decide +kernel)
  have member := ExtTreeMap.mem_toList_iff_getElem?_eq_some.mpr indexed
  have stable : ∀ pair ∈ (compressedBlock oneRecord).blockIndex.toList, pair.2.crc64.isSome = true ∧
      (compressedBlock oneRecord).disk.desc[pair.1]? = none ∧
      ∀ proto ∈ (compressedBlock oneRecord).disk.compressedDesc[pair.1]?, proto.recordCount ≠ 0 := by
    decide +kernel
  obtain ⟨summed, alone, filled⟩ := stable _ member
  exact ⟨summed, fun proto found => by simp [alone] at found, filled⟩

theorem rebuild_loses_metadata_size :
    WrittenEntry (savedBlock oneRecord).disk (savedBlock oneRecord).blockIndex ∧
      Lists (savedBlock oneRecord).disk (savedBlock oneRecord).disk.descriptorNames ∧
      ¬ Rebuilds (savedBlock oneRecord).disk (savedBlock oneRecord).blockIndex
        (savedBlock oneRecord).disk.descriptorNames := by
  refine ⟨oneRecord_saved, lists_descriptorNames _, ?_⟩
  rintro ⟨state, run, all⟩
  have lengths : (savedBlock oneRecord).blockIndex[1]?.map BlockEntry.metadataSize = some 41 ∧
      (restoreEntryFromBlocks (savedBlock oneRecord).disk (savedBlock oneRecord).disk.descriptorNames).toOption.bind
        (fun state => state.index[1]?.map BlockEntry.metadataSize) = some 19 := by
    decide +kernel
  have block := all 1
  obtain ⟨entry, indexed, length⟩ := Option.map_eq_some_iff.mp lengths.1
  rw [indexed] at block
  obtain ⟨rebuilt, found, same, -⟩ := block
  have differs := lengths.2
  simp only [run, Except.toOption, Option.bind_some, found, Option.map_some, Option.some.injEq] at differs
  have equal := same.metadataSize
  rw [differs, length] at equal
  exact absurd equal (by decide)

end ReductStore
