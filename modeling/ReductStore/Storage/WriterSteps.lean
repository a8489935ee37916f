import ReductStore.Storage.RecordUpdates

set_option autoImplicit false

namespace ReductStore

def Record.SamePlace (first second : Record) : Prop :=
  first.beginPos = second.beginPos ∧ first.endPos = second.endPos

namespace BlockManager

open TreeMap

variable [Codec]

inductive WriterStep : BlockManager → BlockManager → Prop where
  | load {before after : BlockManager} {blockId : Nat} {ref : BlockRef} (loaded : Loaded before after blockId ref) :
      WriterStep before after
  | start {before : BlockManager} (blockId maxBlockSize : Nat) (uncached : before.readCache[blockId]? = none)
      (empty : ∀ block, before.view blockId = some block → ¬ block.Occupied) :
      WriterStep before (before.startNewBlock blockId maxBlockSize).2
  | finish {before : BlockManager} {blockId : Nat} {ref : BlockRef} (cached : before.Cached blockId ref) :
      WriterStep before (before.finishBlock ref)
  | save {before : BlockManager} {blockId : Nat} {ref : BlockRef} (cached : before.Cached blockId ref) :
      WriterStep before (before.saveMetaOnDisk ref)
  | begin {before : BlockManager} {blockId : Nat} {ref : BlockRef} (cached : before.Cached blockId ref)
      (name : (before.heap ref).blockId = blockId) (record : Record) (started : record.state = .started)
      (replaced : ∀ old, (before.heap ref).getRecord record.timestamp = some old →
        old.state ≠ .finished ∧ old.SamePlace record) :
      WriterStep before (before.commit ref ((before.heap ref).insertOrUpdateRecord record) [] true)
  | conclude {before : BlockManager} {blockId : Nat} {ref : BlockRef} (cached : before.Cached blockId ref)
      (name : (before.heap ref).blockId = blockId) (time : Nat) (state : RecordState) (record : Record)
      (found : (before.heap ref).getRecord time = some record) :
      WriterStep before (before.commit ref
        ((before.heap ref).modifyRecord time (Record.withState state) (Record.timestamp_withState state))
        [.writeRecord (record.withState state)] false)
  | write {before : BlockManager} (blockId : Nat) (change : File → File) :
      WriterStep before (before.modifyData blockId change)

abbrev WriterRun : BlockManager → BlockManager → Prop := Relation.ReflTransGen WriterStep

variable {before after : BlockManager}

theorem WriterStep.primitive (step : WriterStep before after) : Primitive before after := by
  cases step with
  | load loaded => exact .load loaded
  | start blockId maxBlockSize uncached empty => exact .start blockId maxBlockSize uncached empty
  | finish cached => exact .finish cached
  | save cached => exact .save cached
  | begin cached name record started replaced =>
    have logged := Block.finished_insert_unfinished (before.heap _) record (by simp [started])
      fun old found => (replaced old found).1
    exact .commit cached _ ((Block.blockId_insertOrUpdate _ record).trans name) [] (by simp) logged.symm
      (fun counted => counted.insertOrUpdate record) true
  | conclude cached name time state record found =>
    exact .commit cached _ ((Block.blockId_modifyRecord ..).trans name) [.writeRecord (record.withState state)] (by simp)
      (finished_withState _ time state record found)
      (fun counted => counted.modifyRecord time _ (Record.timestamp_withState state) fun _ _ => rfl) false
  | write blockId change => exact .write blockId change

theorem WriterRun.reaches (run : WriterRun before after) : Reaches before after := by
  induction run with
  | refl => exact .refl
  | tail _ step ih => exact ih.tail step.primitive

theorem Sound.finishWriteRecord_steps {manager : BlockManager} (sound : manager.Sound) {blockId : Nat} {block : Block}
    (seen : manager.view blockId = some block) (state : RecordState) {time : Nat} {record : Record}
    (found : block.getRecord time = some record) :
    ∃ after, manager.finishWriteRecord blockId state time = (.ok (), after) ∧ WriterRun manager after ∧
      after.view = Function.update manager.view blockId
        (some (block.modifyRecord time (Record.withState state) (Record.timestamp_withState state))) ∧
      after.disk.data = manager.disk.data := by
  obtain ⟨ref, middle, loaded, content, result⟩ := sound.finishWriteRecord_commit seen state found
  have step := WriterStep.conclude loaded.cached loaded.name time state record (by rw [content]; exact found)
  rw [content] at step
  have steady := loaded.steady sound.toSteady
  have name : (block.modifyRecord time (Record.withState state) (Record.timestamp_withState state)).blockId = blockId :=
    (Block.blockId_modifyRecord ..).trans (sound.toSteady.view_named seen)
  refine ⟨_, result, Relation.ReflTransGen.tail (.single (.load loaded)) step, ?_, ?_⟩
  · rw [← loaded.view sound.toSteady]
    exact (steady.commit loaded.cached name (committing_edited ..)).2.2
  · rw [← loaded.disk]
    exact (saveMetas_memory _ _).data.trans (appendLog_memory _ middle _).1.data

section Save

theorem Sound.saveCached {manager : BlockManager} (sound : manager.Sound) (keep : BlockManager → BlockRef → Bool)
    (refs : List BlockRef) (cached : ∀ ref ∈ refs, ∃ blockId, manager.Cached blockId ref) :
    let after := refs.foldl (fun current ref => if keep current ref then current.saveMetaOnDisk ref else current) manager
    WriterRun manager after ∧ after.view = manager.view ∧ after.disk.data = manager.disk.data := by
  induction refs generalizing manager with
  | nil => exact ⟨.refl, rfl, rfl⟩
  | cons ref rest ih =>
    have later : ∀ other ∈ rest, ∃ blockId, manager.Cached blockId other :=
      fun other member => cached other (List.mem_cons_of_mem _ member)
    cases kept : keep manager ref with
    | false => simpa only [List.foldl_cons, kept, Bool.false_eq_true, if_false] using ih sound later
    | true =>
      obtain ⟨blockId, present⟩ := cached ref (by simp)
      have step := WriterStep.save present
      have after := ih (step.primitive.sound sound) later
      simp only [List.foldl_cons, kept, if_true]
      exact ⟨.head step after.1, after.2.1.trans (sound.toSteady.saveMeta present).2, after.2.2⟩

omit [Codec] in
theorem cached_writeCache (manager : BlockManager) (ref : BlockRef)
    (member : ref ∈ manager.writeCache.toList.map Prod.snd) : ∃ blockId, manager.Cached blockId ref := by
  obtain ⟨⟨blockId, _⟩, present, rfl⟩ := List.mem_map.mp member
  exact ⟨blockId, Or.inl ((mem_toList _ _).mp present)⟩

theorem Sound.saveCacheOnDisk {manager : BlockManager} (sound : manager.Sound) :
    WriterRun manager manager.saveCacheOnDisk ∧ manager.saveCacheOnDisk.view = manager.view ∧
      manager.saveCacheOnDisk.disk.data = manager.disk.data := by
  simpa [BlockManager.saveCacheOnDisk] using sound.saveCached (fun _ _ => true) _ manager.cached_writeCache

theorem Sound.saveCacheMetadataOnDisk {manager : BlockManager} (sound : manager.Sound) :
    WriterRun manager manager.saveCacheMetadataOnDisk ∧ manager.saveCacheMetadataOnDisk.view = manager.view ∧
      manager.saveCacheMetadataOnDisk.disk.data = manager.disk.data := by
  have saved := sound.saveCached (fun current ref => decide ((current.heap ref).blockId ∈ manager.disk.wal.keys)) _
    manager.cached_writeCache
  simp only [decide_eq_true_eq] at saved
  unfold BlockManager.saveCacheMetadataOnDisk
  by_cases idle : manager.disk.wal.keys.isEmpty
  · simpa only [idle, if_true, and_self, and_true] using Relation.ReflTransGen.refl
  · simpa only [idle, Bool.false_eq_true, if_false] using saved

end Save

end BlockManager

end ReductStore
