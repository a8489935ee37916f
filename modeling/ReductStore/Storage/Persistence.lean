import ReductStore.Storage.Coherence

set_option autoImplicit false

namespace ReductStore.BlockManager

open Std TreeMap

def Untouched (before after : BlockManager) (blockId : Nat) : Prop :=
  after.disk.desc[blockId]? = before.disk.desc[blockId]? ∧ after.disk.wal[blockId]? = before.disk.wal[blockId]? ∧
    after.blockIndex[blockId]? = before.blockIndex[blockId]?

structure SameMemory (before after : BlockManager) : Prop where
  heap : after.heap = before.heap
  next : after.next = before.next
  write : after.writeCache = before.writeCache
  read : after.readCache = before.readCache
  data : after.disk.data = before.disk.data
  temp : after.disk.temp = before.disk.temp
  backend : after.backendType = before.backendType

theorem SameMemory.trans {first second third : BlockManager} (left : SameMemory first second)
    (right : SameMemory second third) : SameMemory first third :=
  { heap := right.heap.trans left.heap
    next := right.next.trans left.next
    write := right.write.trans left.write
    read := right.read.trans left.read
    data := right.data.trans left.data
    temp := right.temp.trans left.temp
    backend := right.backend.trans left.backend }

variable [Codec]

def Saved (manager : BlockManager) (blockId : Nat) (block : Block) : Prop :=
  ∃ proto entry, manager.disk.desc[blockId]? = some proto ∧ Block.ofProto proto = block ∧ proto.beginTime = blockId ∧
    manager.blockIndex[blockId]? = some entry ∧ entry.corrupted = none ∧ entry.crc64 = some proto.crc ∧
    manager.disk.wal[blockId]? = none

theorem Saved.congr {before after : BlockManager} {blockId : Nat} {block : Block} (saved : before.Saved blockId block)
    (untouched : Untouched before after blockId) : after.Saved blockId block := by
  obtain ⟨proto, entry, desc, content, title, indexed, sound, crc, wal⟩ := saved
  exact ⟨proto, entry, untouched.1.trans desc, content, title, untouched.2.2.trans indexed, sound, crc,
    untouched.2.1.trans wal⟩

theorem saveMeta_memory (manager : BlockManager) (ref : BlockRef) : SameMemory manager (manager.saveMetaOnDisk ref) :=
  { heap := rfl, next := rfl, write := rfl, read := rfl, data := rfl, temp := rfl, backend := rfl }

theorem saveMeta_untouched (manager : BlockManager) (ref : BlockRef) (blockId : Nat)
    (different : (manager.heap ref).blockId ≠ blockId) : Untouched manager (manager.saveMetaOnDisk ref) blockId := by
  have other : blockId ≠ (manager.snapshot ref).beginTime := different.symm
  refine ⟨?_, ?_, ?_⟩
  · simp [saveMetaOnDisk, walRemove, saveIndex, indexDescriptor, writeDescriptor, other]
  · simp [saveMetaOnDisk, walRemove, saveIndex, indexDescriptor, writeDescriptor, other]
  · have entry : blockId ≠ (BlockEntry.ofProto { manager.snapshot ref with
        metadataSize := (Codec.encodeBlock (manager.snapshot ref)).length }).blockId := other
    simp [saveMetaOnDisk, walRemove, saveIndex, indexDescriptor, writeDescriptor, BlockIndex.insertOrUpdateWithCrc,
      BlockIndex.insertOrUpdate, entry]

theorem saveMeta_saved (manager : BlockManager) (ref : BlockRef) :
    (manager.saveMetaOnDisk ref).Saved (manager.heap ref).blockId (manager.heap ref) := by
  have title : (manager.snapshot ref).beginTime = (manager.heap ref).blockId := rfl
  refine ⟨manager.snapshot ref, { BlockEntry.ofProto { manager.snapshot ref with
      metadataSize := (Codec.encodeBlock (manager.snapshot ref)).length } with crc64 := some (manager.snapshot ref).crc },
    ?_, Block.ofProto_toProto _ _ _, title, ?_, rfl, rfl, ?_⟩
  · simp [saveMetaOnDisk, walRemove, saveIndex, indexDescriptor, writeDescriptor, title]
  · simp [saveMetaOnDisk, walRemove, saveIndex, indexDescriptor, writeDescriptor, BlockIndex.insertOrUpdateWithCrc,
      BlockIndex.insertOrUpdate, BlockEntry.ofProto, title]
  · simp [saveMetaOnDisk, walRemove, title]

theorem saveMeta_index (manager : BlockManager) (ref : BlockRef) :
    (manager.saveMetaOnDisk ref).disk.index = some (manager.saveMetaOnDisk ref).blockIndex := rfl

def saveMetas (manager : BlockManager) (refs : List BlockRef) : BlockManager := refs.foldl saveMetaOnDisk manager

theorem saveMetas_memory (refs : List BlockRef) (manager : BlockManager) :
    SameMemory manager (manager.saveMetas refs) := by
  induction refs generalizing manager with
  | nil => exact { heap := rfl, next := rfl, write := rfl, read := rfl, data := rfl, temp := rfl, backend := rfl }
  | cons ref rest ih => exact (saveMeta_memory manager ref).trans (ih (manager.saveMetaOnDisk ref))

theorem saveMetas_untouched (refs : List BlockRef) (manager : BlockManager) (blockId : Nat)
    (different : ∀ ref ∈ refs, (manager.heap ref).blockId ≠ blockId) :
    Untouched manager (manager.saveMetas refs) blockId := by
  induction refs generalizing manager with
  | nil => exact ⟨rfl, rfl, rfl⟩
  | cons ref rest ih =>
    have head := saveMeta_untouched manager ref blockId (different ref (by simp))
    have tail := ih (manager.saveMetaOnDisk ref) (fun other member => different other (List.mem_cons_of_mem _ member))
    exact ⟨tail.1.trans head.1, tail.2.1.trans head.2.1, tail.2.2.trans head.2.2⟩

theorem saveMetas_saved (refs : List BlockRef) (manager : BlockManager) (blockId : Nat) (ref : BlockRef)
    (member : ref ∈ refs) (name : (manager.heap ref).blockId = blockId) :
    ∃ last ∈ refs, (manager.heap last).blockId = blockId ∧ (manager.saveMetas refs).Saved blockId (manager.heap last) := by
  induction refs generalizing manager ref with
  | nil => simp at member
  | cons head rest ih =>
    by_cases later : ∃ other ∈ rest, (manager.heap other).blockId = blockId
    · obtain ⟨other, present, same⟩ := later
      obtain ⟨last, found, title, saved⟩ := ih (manager.saveMetaOnDisk head) other present same
      exact ⟨last, List.mem_cons_of_mem _ found, title, saved⟩
    · have different : ∀ other ∈ rest, (manager.heap other).blockId ≠ blockId := by simpa using later
      obtain rfl : ref = head := by
        rcases List.mem_cons.mp member with same | found
        · exact same
        · exact absurd name (different ref found)
      subst name
      exact ⟨ref, by simp, rfl, (saveMeta_saved manager ref).congr
        (saveMetas_untouched rest (manager.saveMetaOnDisk ref) _ different)⟩

theorem saveMetas_index (refs : List BlockRef) (manager : BlockManager) :
    refs = [] ∨ (manager.saveMetas refs).disk.index = some (manager.saveMetas refs).blockIndex := by
  induction refs generalizing manager with
  | nil => exact Or.inl rfl
  | cons ref rest ih =>
    rcases ih (manager.saveMetaOnDisk ref) with rfl | index
    · exact Or.inr (saveMeta_index manager ref)
    · exact Or.inr index

structure SaveEffect (before after : BlockManager) (ref : BlockRef) : Prop where
  heap : after.heap = before.heap
  next : after.next = before.next
  read : after.readCache = before.readCache
  data : after.disk.data = before.disk.data
  temp : after.disk.temp = before.disk.temp
  backend : after.backendType = before.backendType
  index : after.disk.index = before.disk.index ∨ after.disk.index = some after.blockIndex
  target : after.writeCache[(before.heap ref).blockId]? = some ref
  at_id : ∀ blockId : Nat,
    (after.writeCache[blockId]? = (before.writeCache.insert (before.heap ref).blockId ref)[blockId]? ∧
        Untouched before after blockId) ∨
      (after.writeCache[blockId]? = none ∧
        ∃ other, (before.writeCache.insert (before.heap ref).blockId ref)[blockId]? = some other ∧
          after.Saved blockId (before.heap other))

theorem saveBlock_target (manager : BlockManager) (ref : BlockRef) :
    (manager.saveBlock ref).writeCache[(manager.heap ref).blockId]? = some ref := by
  change ((manager.insertWrite (manager.heap ref).blockId ref).2.saveMetas _).writeCache[_]? = _
  rw [(saveMetas_memory _ _).write]
  change (discard _ _)[_]? = _
  rw [get_discard, if_neg (not_mem_evicted manager _), get_insert, if_pos rfl]

theorem saveBlock_effect {manager : BlockManager} (ref : BlockRef)
    (title : ∀ (blockId : Nat) (other : BlockRef), manager.writeCache[blockId]? = some other →
      (manager.heap other).blockId = blockId) :
    SaveEffect manager (manager.saveBlock ref) ref := by
  set cache := manager.writeCache.insert (manager.heap ref).blockId ref with cacheEq
  set evicted := manager.evicted (manager.heap ref).blockId with evictedEq
  set inserted := (manager.insertWrite (manager.heap ref).blockId ref).2 with insertedEq
  set refs := evicted.filterMap (cache[·]?) with refsEq
  have result : manager.saveBlock ref = inserted.saveMetas refs := rfl
  have memory := saveMetas_memory refs inserted
  have named (blockId : Nat) (found : BlockRef) (present : cache[blockId]? = some found) :
      (manager.heap found).blockId = blockId := by
    rw [cacheEq, get_insert] at present
    split_ifs at present with same
    · obtain rfl := Option.some.inj present
      exact same.symm
    · exact title blockId found present
  have listed (found : BlockRef) : found ∈ refs ↔ ∃ blockId ∈ evicted, cache[blockId]? = some found := by
    simp [refsEq, List.mem_filterMap]
  have write (blockId : Nat) : (manager.saveBlock ref).writeCache[blockId]? =
      if blockId ∈ evicted then none else cache[blockId]? := by
    rw [result, memory.write]
    exact get_discard cache evicted blockId
  rw [result] at write ⊢
  refine { heap := memory.heap, next := memory.next, read := memory.read, data := memory.data, temp := memory.temp
           backend := memory.backend, index := ?_, target := saveBlock_target manager ref, at_id := ?_ }
  · rcases saveMetas_index refs inserted with none | saved
    · exact Or.inl (by rw [none]; rfl)
    · exact Or.inr saved
  · intro blockId
    by_cases leaves : blockId ∈ evicted ∧ ∃ other, cache[blockId]? = some other
    · obtain ⟨member, other, present⟩ := leaves
      obtain ⟨last, found, title, saved⟩ := saveMetas_saved refs inserted blockId other
        ((listed other).mpr ⟨blockId, member, present⟩) (named blockId other present)
      obtain ⟨lastId, _, lastPresent⟩ := (listed last).mp found
      obtain rfl : lastId = blockId := (named lastId last lastPresent).symm.trans title
      obtain rfl : last = other := Option.some.inj (lastPresent.symm.trans present)
      exact Or.inr ⟨by rw [write, if_pos member], last, present, saved⟩
    · refine Or.inl ⟨?_, ?_⟩
      · rw [write]
        split_ifs with member
        · cases present : cache[blockId]? with
          | none => rfl
          | some other => exact absurd ⟨member, other, present⟩ leaves
        · rfl
      · have unsaved : ∀ other ∈ refs, (inserted.heap other).blockId ≠ blockId := by
          intro other member same
          obtain ⟨otherId, gone, present⟩ := (listed other).mp member
          obtain rfl : otherId = blockId := (named otherId other present).symm.trans same
          exact leaves ⟨gone, other, present⟩
        exact saveMetas_untouched refs inserted blockId unsaved

section Effect

variable {before after : BlockManager} {ref : BlockRef}

theorem SaveEffect.cached (effect : SaveEffect before after ref)
    (only : ∀ other, before.readCache[(before.heap ref).blockId]? = some other → other = ref)
    {blockId : Nat} {other : BlockRef} (present : after.Cached blockId other) :
    (blockId ≠ (before.heap ref).blockId ∧ before.Cached blockId other) ∨
      (blockId = (before.heap ref).blockId ∧ other = ref) := by
  by_cases same : blockId = (before.heap ref).blockId
  · refine Or.inr ⟨same, ?_⟩
    rcases present with write | read
    · rcases effect.at_id blockId with ⟨kept, _⟩ | ⟨gone, _⟩
      · rw [kept, get_insert, if_pos same] at write
        exact (Option.some.inj write).symm
      · simp [gone] at write
    · rw [effect.read, same] at read
      exact only other read
  · refine Or.inl ⟨same, ?_⟩
    rcases present with write | read
    · rcases effect.at_id blockId with ⟨kept, _⟩ | ⟨gone, _⟩
      · rw [kept, get_insert, if_neg same] at write
        exact Or.inl write
      · simp [gone] at write
    · rw [effect.read] at read
      exact Or.inr read

theorem SaveEffect.inService (effect : SaveEffect before after ref) (wired : before.Wired)
    (served : before.InService (before.heap ref).blockId) (blockId : Nat) :
    after.InService blockId ↔ before.InService blockId := by
  rcases effect.at_id blockId with ⟨_, _, _, same⟩ | ⟨_, other, present, proto, entry, _, _, _, indexed, sound, _⟩
  · rw [inService_iff, inService_iff, same]
  · have now : after.InService blockId := (inService_iff after blockId).mpr ⟨entry, indexed, by simp [sound]⟩
    have then_ : before.InService blockId := by
      rw [get_insert] at present
      split_ifs at present with equal
      · exact equal ▸ served
      · exact wired.served blockId other (Or.inl present)
    exact ⟨fun _ => then_, fun _ => now⟩

theorem SaveEffect.wired (effect : SaveEffect before after ref) (wired : before.Wired) (fresh : ref < before.next)
    (served : before.InService (before.heap ref).blockId)
    (only : ∀ other, before.readCache[(before.heap ref).blockId]? = some other → other = ref) : after.Wired := by
  refine { fresh := ?_, agree := ?_, named := ?_, titled := ?_, served := ?_, checked := ?_ }
  · intro blockId other cached
    rw [effect.next]
    rcases effect.cached only cached with ⟨_, old⟩ | ⟨_, rfl⟩
    · exact wired.fresh blockId other old
    · exact fresh
  · intro blockId first second left right
    rcases effect.cached only left with ⟨apart, leftOld⟩ | ⟨same, rfl⟩ <;>
      rcases effect.cached only right with ⟨rightApart, rightOld⟩ | ⟨rightSame, rfl⟩
    · exact wired.agree blockId first second leftOld rightOld
    · exact absurd rightSame apart
    · exact absurd same rightApart
    · rfl
  · intro blockId other cached
    rw [effect.heap]
    rcases effect.cached only cached with ⟨_, old⟩ | ⟨rfl, rfl⟩
    · exact wired.named blockId other old
    · rfl
  · intro blockId proto found
    rcases effect.at_id blockId with ⟨_, same, _⟩ | ⟨_, _, _, saved, entry, desc, _, title, _⟩
    · exact wired.titled blockId proto (same ▸ found)
    · obtain rfl := Option.some.inj (found.symm.trans desc)
      exact title
  · intro blockId other cached
    rw [effect.inService wired served]
    rcases effect.cached only cached with ⟨_, old⟩ | ⟨rfl, _⟩
    · exact wired.served blockId other old
    · exact served
  · intro blockId entry crc indexed sound sum
    rcases effect.at_id blockId with ⟨_, desc, _, same⟩ | ⟨_, _, _, proto, saved, desc, _, _, found, _, match_, _⟩
    · rw [desc]
      exact wired.checked blockId entry crc (same ▸ indexed) sound sum
    · obtain rfl := Option.some.inj (found.symm.trans indexed)
      exact ⟨proto, desc, Option.some.inj (match_.symm.trans sum)⟩

theorem SaveEffect.backed (effect : SaveEffect before after ref) (blockId : Nat)
    (backed : blockId ≠ (before.heap ref).blockId → before.Backed blockId) : after.Backed blockId := by
  rcases effect.at_id blockId with ⟨write, same, _⟩ | ⟨_, _, _, proto, entry, desc, _⟩
  · unfold Backed
    rw [write, same, get_insert]
    split_ifs with equal
    · exact Or.inl ⟨ref, rfl⟩
    · exact backed equal
  · exact Or.inr ⟨proto, desc⟩

theorem SaveEffect.candidate (effect : SaveEffect before after ref)
    (only : ∀ other, before.readCache[(before.heap ref).blockId]? = some other → other = ref) (blockId : Nat)
    (block : Block) (candidate : after.Candidate blockId block) :
    (blockId = (before.heap ref).blockId ∧ block = before.heap ref) ∨
      (blockId ≠ (before.heap ref).blockId ∧ before.Candidate blockId block) := by
  rcases candidate with ⟨other, cached, rfl⟩ | ⟨gone, proto, desc, rfl⟩
  · rw [effect.heap]
    rcases effect.cached only cached with ⟨apart, old⟩ | ⟨same, rfl⟩
    · exact Or.inr ⟨apart, Or.inl ⟨other, old, rfl⟩⟩
    · exact Or.inl ⟨same, rfl⟩
  · rcases effect.at_id blockId with ⟨write, untouched, _⟩ | ⟨_, other, present, saved, _, found, content, _⟩
    · rw [gone, get_insert] at write
      split_ifs at write with same
      exact Or.inr ⟨same, Or.inr ⟨write.symm, proto, by rw [← untouched, desc], rfl⟩⟩
    · obtain rfl := Option.some.inj (found.symm.trans desc)
      rw [get_insert] at present
      split_ifs at present with same
      · obtain rfl := Option.some.inj present
        exact Or.inl ⟨same, content⟩
      · exact Or.inr ⟨same, Or.inl ⟨other, Or.inl present, content.symm⟩⟩

end Effect

end ReductStore.BlockManager
