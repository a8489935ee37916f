import ReductStore.Storage.Transitions
import ReductStore.Storage.Replay

set_option autoImplicit false

namespace ReductStore.BlockManager

open Std TreeMap

def dropRead (manager : BlockManager) (blockIds : List Nat) : BlockManager :=
  { manager with readCache := discard manager.readCache blockIds }

def appendLog (manager : BlockManager) (blockId : Nat) (entries : List WalEntry) : BlockManager :=
  entries.foldl (fun current entry => current.walAppend blockId entry) manager

theorem appendLog_memory (entries : List WalEntry) (manager : BlockManager) (blockId : Nat) :
    SameMemory manager (manager.appendLog blockId entries) ∧
      (manager.appendLog blockId entries).disk.desc = manager.disk.desc ∧
      (manager.appendLog blockId entries).disk.index = manager.disk.index ∧
      (manager.appendLog blockId entries).blockIndex = manager.blockIndex := by
  induction entries generalizing manager with
  | nil =>
    exact ⟨{ heap := rfl, next := rfl, write := rfl, read := rfl, data := rfl, temp := rfl, backend := rfl },
      rfl, rfl, rfl⟩
  | cons entry rest ih =>
    obtain ⟨memory, desc, saved, index⟩ := ih (manager.walAppend blockId entry)
    refine ⟨SameMemory.trans ?_ memory, desc, saved, index⟩
    exact { heap := rfl, next := rfl, write := rfl, read := rfl, data := rfl, temp := rfl, backend := rfl }

theorem appendLog_wal (entries : List WalEntry) (manager : BlockManager) (blockId other : Nat) :
    ((manager.appendLog blockId entries).disk.wal[other]?).getD [] =
      (manager.disk.wal[other]?).getD [] ++ if other = blockId then entries else [] := by
  induction entries generalizing manager with
  | nil => simp [appendLog]
  | cons entry rest ih =>
    change (((manager.walAppend blockId entry).appendLog blockId rest).disk.wal[other]?).getD [] = _
    rw [ih]
    by_cases same : other = blockId
    · simp [walAppend, same]
    · simp [walAppend, same]

variable [Codec]

omit [Codec] in
theorem appendLog_other (entries : List WalEntry) (manager : BlockManager) (blockId other : Nat)
    (different : other ≠ blockId) : (manager.appendLog blockId entries).disk.wal[other]? = manager.disk.wal[other]? := by
  induction entries generalizing manager with
  | nil => rfl
  | cons entry rest ih =>
    change ((manager.walAppend blockId entry).appendLog blockId rest).disk.wal[other]? = _
    rw [ih]
    simp [walAppend, different]

def committing (manager : BlockManager) (ref : BlockRef) (block : Block) (entries : List WalEntry)
    (indexed : Bool) : BlockManager :=
  let changed := (manager.appendLog block.blockId entries).setBlock ref block
  if indexed then changed.indexBlock block else changed

def commit (manager : BlockManager) (ref : BlockRef) (block : Block) (entries : List WalEntry) (indexed : Bool) :
    BlockManager :=
  (manager.committing ref block entries indexed).saveBlock ref

omit [Codec] in
theorem committing_edited (manager : BlockManager) (ref : BlockRef) (block : Block) (entries : List WalEntry)
    (indexed : Bool) : Edited manager (manager.committing ref block entries indexed) ref block := by
  obtain ⟨memory, desc, _, index⟩ := appendLog_memory entries manager block.blockId
  have heap : ((manager.appendLog block.blockId entries).setBlock ref block).heap =
      Function.update manager.heap ref block := by
    simp only [setBlock, memory.heap]
  cases indexed with
  | false =>
    exact { heap := heap, next := memory.next, write := memory.write, read := memory.read, desc := desc
            index := Or.inl index }
  | true =>
    refine { heap := heap, next := memory.next, write := memory.write, read := memory.read, desc := desc
             index := Or.inr ?_ }
    simp only [committing, if_true, indexBlock, setBlock, index]

inductive Primitive : BlockManager → BlockManager → Prop where
  | load {before after : BlockManager} {blockId : Nat} {ref : BlockRef} (loaded : Loaded before after blockId ref) :
      Primitive before after
  | start {before : BlockManager} (blockId maxBlockSize : Nat) (uncached : before.readCache[blockId]? = none)
      (empty : ∀ block, before.view blockId = some block → ¬ block.Occupied) :
      Primitive before (before.startNewBlock blockId maxBlockSize).2
  | finish {before : BlockManager} {blockId : Nat} {ref : BlockRef} (cached : before.Cached blockId ref) :
      Primitive before (before.finishBlock ref)
  | save {before : BlockManager} {blockId : Nat} {ref : BlockRef} (cached : before.Cached blockId ref) :
      Primitive before (before.saveMetaOnDisk ref)
  | commit {before : BlockManager} {blockId : Nat} {ref : BlockRef} (cached : before.Cached blockId ref)
      (block : Block) (name : block.blockId = blockId) (entries : List WalEntry) (kept : .removeBlock ∉ entries)
      (logged : (replay (before.heap ref) entries).1.finished = block.finished)
      (accounted : (before.heap ref).Accounted → block.Accounted) (indexed : Bool) :
      Primitive before (before.commit ref block entries indexed)
  | write {before : BlockManager} (blockId : Nat) (change : File → File) : Primitive before (before.modifyData blockId change)
  | drop {before : BlockManager} (blockIds : List Nat) : Primitive before (before.dropRead blockIds)

omit [Codec] in
theorem cached_dropRead {manager : BlockManager} {blockIds : List Nat} {blockId : Nat} {ref : BlockRef}
    (cached : (manager.dropRead blockIds).Cached blockId ref) : manager.Cached blockId ref := by
  rcases cached with write | read
  · exact Or.inl write
  · simp only [dropRead, get_discard] at read
    split_ifs at read
    exact Or.inr read

theorem Steady.drop {manager : BlockManager} (steady : manager.Steady) (blockIds : List Nat) :
    (manager.dropRead blockIds).Steady ∧ (manager.dropRead blockIds).view = manager.view := by
  have candidate (blockId : Nat) (block : Block) (present : (manager.dropRead blockIds).Candidate blockId block) :
      manager.Candidate blockId block := by
    rcases present with ⟨ref, cached, rfl⟩ | stored
    · exact Or.inl ⟨ref, cached_dropRead cached, rfl⟩
    · exact Or.inr stored
  have after : (manager.dropRead blockIds).Steady := by
    refine { fresh := ?_, agree := ?_, named := ?_, titled := steady.titled, served := ?_, checked := steady.checked
             backed := steady.backed, settled := ?_ }
    · exact fun blockId ref cached => steady.fresh blockId ref (cached_dropRead cached)
    · exact fun blockId first second left right =>
        steady.agree blockId first second (cached_dropRead left) (cached_dropRead right)
    · exact fun blockId ref cached => steady.named blockId ref (cached_dropRead cached)
    · exact fun blockId ref cached => steady.served blockId ref (cached_dropRead cached)
    · exact fun blockId first second left right =>
        steady.settled blockId first second (candidate blockId first left) (candidate blockId second right)
  exact ⟨after, view_same steady after (fun _ => Iff.rfl) candidate⟩

theorem Primitive.steady {before after : BlockManager} (step : Primitive before after) (steady : before.Steady) :
    after.Steady := by
  cases step with
  | load loaded => exact loaded.steady steady
  | start blockId maxBlockSize uncached empty => exact (steady.start blockId maxBlockSize uncached).1
  | finish cached => exact (steady.finish cached).1
  | save cached => exact (steady.saveMeta cached).1
  | commit cached block name entries kept logged accounted indexed =>
    exact (steady.commit cached name (committing_edited before _ block entries indexed)).1
  | write blockId change => exact (steady.modifyData blockId change).1
  | drop blockIds => exact (steady.drop blockIds).1

structure Sound (manager : BlockManager) : Prop extends Steady manager where
  accounted : ∀ blockId block, manager.view blockId = some block → block.Accounted

theorem Primitive.sound {before after : BlockManager} (step : Primitive before after) (sound : before.Sound) :
    after.Sound := by
  refine { step.steady sound.toSteady with accounted := ?_ }
  have updated (target : Nat) (block : Block) (view : after.view = Function.update before.view target (some block))
      (counted : block.Accounted) (blockId : Nat) (found : Block) (seen : after.view blockId = some found) :
      found.Accounted := by
    rw [view] at seen
    by_cases same : blockId = target
    · rw [same, Function.update_self] at seen
      exact Option.some.inj seen ▸ counted
    · rw [Function.update_of_ne same] at seen
      exact sound.accounted blockId found seen
  cases step with
  | load loaded =>
    rw [loaded.view sound.toSteady]
    exact sound.accounted
  | start blockId maxBlockSize uncached empty =>
    exact updated blockId _ (sound.toSteady.start blockId maxBlockSize uncached).2.2 (Block.layout_new blockId).toAccounted
  | finish cached =>
    rw [(sound.toSteady.finish cached).2]
    exact sound.accounted
  | save cached =>
    rw [(sound.toSteady.saveMeta cached).2]
    exact sound.accounted
  | commit cached block name entries kept logged accounted indexed =>
    have view := (sound.toSteady.commit cached name (committing_edited before _ block entries indexed)).2.2
    exact updated _ block view (accounted (sound.accounted _ _ (sound.toSteady.cached_view cached)))
  | write blockId change => exact sound.accounted
  | drop blockIds =>
    rw [(sound.toSteady.drop blockIds).2]
    exact sound.accounted

abbrev Reaches : BlockManager → BlockManager → Prop := Relation.ReflTransGen Primitive

theorem Reaches.sound {before after : BlockManager} (run : Reaches before after) (sound : before.Sound) : after.Sound := by
  induction run with
  | refl => exact sound
  | tail _ step ih => exact step.sound ih

end ReductStore.BlockManager
