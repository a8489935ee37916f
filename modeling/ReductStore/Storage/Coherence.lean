import ReductStore.Storage.Lifecycle

set_option autoImplicit false

namespace ReductStore.BlockManager

open Std TreeMap

theorem get_discard (cache : ExtTreeMap Nat BlockRef) (keys : List Nat) (key : Nat) :
    (discard cache keys)[key]? = if key ∈ keys then none else cache[key]? := by
  induction keys generalizing cache with
  | nil => simp [discard]
  | cons first rest ih =>
    change (discard (cache.erase first) rest)[key]? = _
    rw [ih, get_erase]
    by_cases later : key ∈ rest
    · simp [later]
    · by_cases same : key = first <;> simp [later, same]

theorem not_mem_evicted (manager : BlockManager) (blockId : Nat) : blockId ∉ manager.evicted blockId := by
  simp [evicted]

def Cached (manager : BlockManager) (blockId : Nat) (ref : BlockRef) : Prop :=
  manager.writeCache[blockId]? = some ref ∨ manager.readCache[blockId]? = some ref

def InService (manager : BlockManager) (blockId : Nat) : Prop := blockId ∈ manager.blockIndex.activeTree

theorem inService_iff (manager : BlockManager) (blockId : Nat) :
    manager.InService blockId ↔
      ∃ entry, manager.blockIndex[blockId]? = some entry ∧ entry.corrupted ≠ some true :=
  BlockIndex.mem_activeTree manager.blockIndex blockId

def Candidate (manager : BlockManager) (blockId : Nat) (block : Block) : Prop :=
  (∃ ref, manager.Cached blockId ref ∧ manager.heap ref = block) ∨
    (manager.writeCache[blockId]? = none ∧
      ∃ proto, manager.disk.desc[blockId]? = some proto ∧ Block.ofProto proto = block)

def Backed (manager : BlockManager) (blockId : Nat) : Prop :=
  (∃ ref, manager.writeCache[blockId]? = some ref) ∨ ∃ proto, manager.disk.desc[blockId]? = some proto

theorem Backed.candidate {manager : BlockManager} {blockId : Nat} (backed : manager.Backed blockId) :
    ∃ block, manager.Candidate blockId block := by
  cases write : manager.writeCache[blockId]? with
  | some ref => exact ⟨_, Or.inl ⟨ref, Or.inl write, rfl⟩⟩
  | none =>
    rcases backed with ⟨ref, found⟩ | ⟨proto, found⟩
    · simp [write] at found
    · exact ⟨_, Or.inr ⟨write, proto, found, rfl⟩⟩

variable [Codec]

structure Wired (manager : BlockManager) : Prop where
  fresh : ∀ blockId ref, manager.Cached blockId ref → ref < manager.next
  agree : ∀ blockId first second, manager.Cached blockId first → manager.Cached blockId second → first = second
  named : ∀ blockId ref, manager.Cached blockId ref → (manager.heap ref).blockId = blockId
  titled : ∀ (blockId : Nat) (proto : BlockProto), manager.disk.desc[blockId]? = some proto → proto.beginTime = blockId
  served : ∀ blockId ref, manager.Cached blockId ref → manager.InService blockId
  checked : ∀ (blockId : Nat) (entry : BlockEntry) (crc : UInt64), manager.blockIndex[blockId]? = some entry →
    entry.corrupted ≠ some true → entry.crc64 = some crc →
    ∃ proto, manager.disk.desc[blockId]? = some proto ∧ proto.crc = crc

theorem Wired.congr {manager other : BlockManager} (wired : manager.Wired) (heap : other.heap = manager.heap)
    (next : other.next = manager.next) (write : other.writeCache = manager.writeCache)
    (read : other.readCache = manager.readCache) (desc : other.disk.desc = manager.disk.desc)
    (index : other.blockIndex = manager.blockIndex) : other.Wired := by
  have cached : other.Cached = manager.Cached := by
    funext blockId ref
    simp only [Cached, write, read]
  have served : other.InService = manager.InService := by
    funext blockId
    simp only [InService, index]
  constructor
  · rw [cached, next]
    exact wired.fresh
  · rw [cached]
    exact wired.agree
  · rw [cached, heap]
    exact wired.named
  · rw [desc]
    exact wired.titled
  · rw [cached, served]
    exact wired.served
  · rw [index, desc]
    exact wired.checked

theorem Wired.getRead_iff {manager : BlockManager} (wired : manager.Wired) (blockId : Nat) (ref : BlockRef) :
    manager.getRead blockId = some ref ↔ manager.Cached blockId ref := by
  unfold getRead Cached
  cases write : manager.writeCache[blockId]? with
  | none => simp
  | some found =>
    constructor
    · intro same
      exact Or.inl (by simpa using same)
    · rintro (same | read)
      · simpa using same
      · have equal := wired.agree blockId found ref (Or.inl write) (Or.inr read)
        simp [equal]

theorem Wired.distinct {manager : BlockManager} (wired : manager.Wired) {first second ref : Nat}
    (left : manager.Cached first ref) (right : manager.Cached second ref) : first = second := by
  rw [← wired.named first ref left, wired.named second ref right]

theorem Wired.candidate_named {manager : BlockManager} (wired : manager.Wired) {blockId : Nat} {block : Block}
    (candidate : manager.Candidate blockId block) : block.blockId = blockId := by
  rcases candidate with ⟨ref, cached, rfl⟩ | ⟨_, proto, found, rfl⟩
  · exact wired.named blockId ref cached
  · exact wired.titled blockId proto found

section Memory

theorem Wired.setBlock {manager : BlockManager} (wired : manager.Wired) (ref : BlockRef) (block : Block)
    (same : block.blockId = (manager.heap ref).blockId) : (manager.setBlock ref block).Wired := by
  refine { wired with named := ?_ }
  intro blockId other cached
  have name := wired.named blockId other cached
  by_cases equal : other = ref
  · subst equal
    simpa [BlockManager.setBlock, same] using name
  · simpa [BlockManager.setBlock, Function.update_of_ne equal] using name

theorem candidate_setBlock {manager : BlockManager} (wired : manager.Wired) (ref : BlockRef) (block : Block)
    (blockId : Nat) (other : Block) (different : (manager.heap ref).blockId ≠ blockId)
    (candidate : (manager.setBlock ref block).Candidate blockId other) : manager.Candidate blockId other := by
  rcases candidate with ⟨found, cached, rfl⟩ | stored
  · have apart : found ≠ ref := by
      rintro rfl
      exact different (wired.named blockId found cached)
    exact Or.inl ⟨found, cached, by simp [BlockManager.setBlock, Function.update_of_ne apart]⟩
  · exact Or.inr stored

omit [Codec] in
theorem cached_insertRead {manager : BlockManager} {blockId other : Nat} {ref found : BlockRef}
    (present : (manager.insertRead blockId ref).Cached other found) :
    manager.Cached other found ∨ (other = blockId ∧ found = ref) := by
  rcases present with write | read
  · exact Or.inl (Or.inl write)
  · simp only [BlockManager.insertRead, get_discard, get_insert] at read
    split_ifs at read with _ same
    · exact Or.inr ⟨same, (Option.some.inj read).symm⟩
    · exact Or.inl (Or.inr read)

omit [Codec] in
theorem insertRead_cached (manager : BlockManager) (blockId : Nat) (ref : BlockRef) :
    (manager.insertRead blockId ref).Cached blockId ref := by
  refine Or.inr ?_
  simp [BlockManager.insertRead, get_discard, not_mem_evicted]

theorem Wired.insertRead {manager : BlockManager} (wired : manager.Wired) (blockId : Nat) (ref : BlockRef)
    (fresh : ref < manager.next) (name : (manager.heap ref).blockId = blockId) (served : manager.InService blockId)
    (only : ∀ other, manager.Cached blockId other → other = ref) : (manager.insertRead blockId ref).Wired := by
  refine { fresh := ?_, agree := ?_, named := ?_, titled := wired.titled, served := ?_
           checked := wired.checked }
  · intro other found present
    rcases cached_insertRead present with old | ⟨_, rfl⟩
    · exact wired.fresh other found old
    · exact fresh
  · intro other first second left right
    rcases cached_insertRead left with leftOld | ⟨rfl, rfl⟩ <;>
      rcases cached_insertRead right with rightOld | ⟨same, rfl⟩
    · exact wired.agree other first second leftOld rightOld
    · exact only first (same ▸ leftOld)
    · exact (only second rightOld).symm
    · rfl
  · intro other found present
    rcases cached_insertRead present with old | ⟨rfl, rfl⟩
    · exact wired.named other found old
    · exact name
  · intro other found present
    rcases cached_insertRead present with old | ⟨rfl, rfl⟩
    · exact wired.served other found old
    · exact served

omit [Codec] in
theorem inService_indexBlock (manager : BlockManager) (block : Block) (blockId : Nat) :
    (manager.indexBlock block).InService blockId ↔ manager.InService blockId ∨ blockId = block.blockId := by
  have entry : (manager.indexBlock block).blockIndex[blockId]? =
      if blockId = block.blockId then some (BlockEntry.ofBlock block) else manager.blockIndex[blockId]? := by
    simp [BlockManager.indexBlock, BlockIndex.insertOrUpdate, BlockEntry.ofBlock]
  rw [inService_iff, inService_iff, entry]
  by_cases same : blockId = block.blockId
  · simp [same, BlockEntry.ofBlock]
  · simp [same]

theorem Wired.indexBlock {manager : BlockManager} (wired : manager.Wired) (block : Block) :
    (manager.indexBlock block).Wired := by
  refine { fresh := wired.fresh, agree := wired.agree, named := wired.named, titled := wired.titled, served := ?_
           checked := ?_ }
  · intro blockId ref cached
    exact (inService_indexBlock manager block blockId).mpr (Or.inl (wired.served blockId ref cached))
  · intro blockId entry crc indexed sound sum
    simp only [BlockManager.indexBlock, BlockIndex.insertOrUpdate, get_insert] at indexed
    split_ifs at indexed
    · obtain rfl := Option.some.inj indexed
      simp [BlockEntry.ofBlock] at sum
    · exact wired.checked blockId entry crc indexed sound sum

theorem Wired.allocate {manager : BlockManager} (wired : manager.Wired) (block : Block) :
    (manager.allocate block).2.Wired := by
  have heap (ref : BlockRef) (old : ref < manager.next) : (manager.allocate block).2.heap ref = manager.heap ref := by
    simp [BlockManager.allocate, BlockManager.setBlock, Function.update_of_ne old.ne]
  refine { wired with fresh := ?_, named := ?_ }
  · intro blockId ref cached
    exact Nat.lt_succ_of_lt (wired.fresh blockId ref cached)
  · intro blockId ref cached
    rw [heap ref (wired.fresh blockId ref cached)]
    exact wired.named blockId ref cached

theorem candidate_allocate {manager : BlockManager} (wired : manager.Wired) (block : Block) (blockId : Nat)
    (other : Block) : (manager.allocate block).2.Candidate blockId other ↔ manager.Candidate blockId other := by
  have heap (ref : BlockRef) (cached : manager.Cached blockId ref) :
      (manager.allocate block).2.heap ref = manager.heap ref := by
    simp [BlockManager.allocate, BlockManager.setBlock, Function.update_of_ne (wired.fresh blockId ref cached).ne]
  refine or_congr ⟨?_, ?_⟩ Iff.rfl
  · rintro ⟨ref, cached, rfl⟩
    exact ⟨ref, cached, (heap ref cached).symm⟩
  · rintro ⟨ref, cached, rfl⟩
    exact ⟨ref, cached, heap ref cached⟩

end Memory

structure Loaded (manager after : BlockManager) (blockId : Nat) (ref : BlockRef) : Prop where
  wired : after.Wired
  fresh : ref < after.next
  name : (after.heap ref).blockId = blockId
  cached : after.Cached blockId ref
  origin : manager.Candidate blockId (after.heap ref)
  candidates : ∀ other block, after.Candidate other block → manager.Candidate other block
  index : after.blockIndex = manager.blockIndex
  disk : after.disk = manager.disk
  write : after.writeCache = manager.writeCache
  backend : after.backendType = manager.backendType
  grown : manager.next ≤ after.next
  heap : ∀ other, other < manager.next → after.heap other = manager.heap other

theorem Loaded.backed {manager after : BlockManager} {blockId : Nat} {ref : BlockRef}
    (loaded : Loaded manager after blockId ref) (other : Nat) : after.Backed other ↔ manager.Backed other := by
  simp only [Backed, loaded.write, loaded.disk]

theorem Loaded.inService {manager after : BlockManager} {blockId : Nat} {ref : BlockRef}
    (loaded : Loaded manager after blockId ref) (other : Nat) : after.InService other ↔ manager.InService other := by
  simp only [InService, loaded.index]

theorem loaded_cached {manager : BlockManager} (wired : manager.Wired) (blockId : Nat) (ref : BlockRef)
    (cached : manager.Cached blockId ref) : Loaded manager (manager.insertRead blockId ref) blockId ref := by
  have only (other : BlockRef) (found : manager.Cached blockId other) : other = ref :=
    wired.agree blockId other ref found cached
  have fresh := wired.fresh blockId ref cached
  have name := wired.named blockId ref cached
  refine { wired := wired.insertRead blockId ref fresh name (wired.served blockId ref cached) only
           fresh := fresh, name := name, cached := insertRead_cached manager blockId ref
           origin := Or.inl ⟨ref, cached, rfl⟩, candidates := ?_
           index := rfl, disk := rfl, write := rfl, backend := rfl, grown := le_rfl, heap := fun _ _ => rfl }
  · rintro other block (⟨found, present, rfl⟩ | stored)
    · rcases cached_insertRead present with old | ⟨rfl, rfl⟩
      · exact Or.inl ⟨found, old, rfl⟩
      · exact Or.inl ⟨found, cached, rfl⟩
    · exact Or.inr stored

theorem loaded_adopt {manager : BlockManager} (wired : manager.Wired) (blockId : Nat) (proto : BlockProto)
    (served : manager.InService blockId) (absent : ∀ ref, ¬ manager.Cached blockId ref)
    (found : manager.disk.desc[blockId]? = some proto) :
    ∃ ref after, manager.adopt blockId proto = (.ok ref, after) ∧ Loaded manager after blockId ref := by
  set allocated := (manager.allocate (Block.ofProto proto)).2 with allocatedEq
  have stored : allocated.heap manager.next = Block.ofProto proto := by
    simp [allocatedEq, BlockManager.allocate, BlockManager.setBlock]
  have name : (allocated.heap manager.next).blockId = blockId := by
    rw [stored]
    exact wired.titled blockId proto found
  have missing : manager.writeCache[blockId]? = none := by
    cases write : manager.writeCache[blockId]? with
    | none => rfl
    | some ref => exact absurd (Or.inl write) (absent ref)
  have only (other : BlockRef) (cached : allocated.Cached blockId other) : other = manager.next :=
    absurd cached (absent other)
  have origin : manager.Candidate blockId (allocated.heap manager.next) := by
    rw [stored]
    exact Or.inr ⟨missing, proto, found, rfl⟩
  refine ⟨manager.next, allocated.insertRead blockId manager.next, rfl, ?_⟩
  refine { wired := (wired.allocate _).insertRead blockId _ (Nat.lt_succ_self _) name served only
           fresh := Nat.lt_succ_self _, name := name, cached := insertRead_cached allocated blockId _
           origin := origin, candidates := ?_
           index := rfl, disk := rfl, write := rfl, backend := rfl, grown := Nat.le_succ _, heap := ?_ }
  · rintro other block (⟨ref, cached, rfl⟩ | candidate)
    · rcases cached_insertRead cached with old | ⟨rfl, rfl⟩
      · exact (candidate_allocate wired _ other _).mp (Or.inl ⟨ref, old, rfl⟩)
      · exact origin
    · exact Or.inr candidate
  · intro other old
    simp [allocatedEq, BlockManager.allocate, BlockManager.setBlock, BlockManager.insertRead, Function.update_of_ne old.ne]

theorem loadBlock_loaded {manager : BlockManager} (wired : manager.Wired) (blockId : Nat)
    (served : manager.InService blockId) (backed : manager.Backed blockId) :
    ∃ ref after, manager.loadBlock blockId = (.ok ref, after) ∧ Loaded manager after blockId ref := by
  unfold loadBlock
  cases cached : manager.getRead blockId with
  | some ref => exact ⟨ref, _, rfl, loaded_cached wired blockId ref ((wired.getRead_iff blockId ref).mp cached)⟩
  | none =>
    have absent (ref : BlockRef) (present : manager.Cached blockId ref) : False := by
      simp [(wired.getRead_iff blockId ref).mpr present] at cached
    obtain ⟨entry, indexed, sound⟩ := (inService_iff manager blockId).mp served
    obtain ⟨proto, found⟩ : ∃ proto, manager.disk.desc[blockId]? = some proto := by
      rcases backed with ⟨ref, write⟩ | stored
      · exact absurd (Or.inl write) (absent ref)
      · exact stored
    have valid : entry.crc64 = none ∨ entry.crc64 = some proto.crc := by
      cases crc : entry.crc64 with
      | none => exact Or.inl rfl
      | some value =>
        obtain ⟨other, same, sum⟩ := wired.checked blockId entry value indexed sound crc
        rw [Option.some.inj (found.symm.trans same), sum]
        exact Or.inr rfl
    simp only [found, indexed, if_pos valid]
    exact loaded_adopt wired blockId proto served absent found

end ReductStore.BlockManager
