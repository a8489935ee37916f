import ReductStore.Storage.Primitives

set_option autoImplicit false

namespace ReductStore.BlockManager

open TreeMap

variable [Codec]

structure Changed (before after : BlockManager) (blockId : Nat) (block : Block) : Prop where
  run : Reaches before after
  view : after.view = Function.update before.view blockId (some block)
  data : after.disk.data = before.disk.data

theorem Sound.change {before middle : BlockManager} (sound : before.Sound) {blockId : Nat} {ref : BlockRef}
    (loaded : Loaded before middle blockId ref) (block : Block) (name : block.blockId = blockId)
    (entries : List WalEntry) (kept : .removeBlock ∉ entries)
    (logged : (replay (middle.heap ref) entries).1.finished = block.finished)
    (accounted : (middle.heap ref).Accounted → block.Accounted) :
    Changed before (middle.commit ref block entries false) blockId block := by
  have load := Primitive.load loaded
  have middleSound := load.sound sound
  have step := Primitive.commit loaded.cached block name entries kept logged accounted false
  have edited := committing_edited middle ref block entries false
  refine ⟨Relation.ReflTransGen.tail (.single load) step, ?_, ?_⟩
  · rw [← loaded.view sound.toSteady]
    exact (middleSound.toSteady.commit loaded.cached name edited).2.2
  · rw [← loaded.disk]
    exact (saveMetas_memory _ _).data.trans (appendLog_memory entries middle block.blockId).1.data

section Update

theorem accounted_updates (records : List Record) {block : Block} (accounted : block.Accounted) :
    (records.foldl Block.insertOrUpdateRecord block).Accounted := by
  induction records generalizing block with
  | nil => exact accounted
  | cons record rest ih => exact ih (accounted.insertOrUpdate record)

theorem Sound.updateRecords {manager : BlockManager} (sound : manager.Sound) {blockId : Nat} {block : Block}
    (seen : manager.view blockId = some block) (records : List Record) :
    ∃ after, manager.updateRecords blockId records = (.ok (), after) ∧
      Changed manager after blockId (records.foldl Block.insertOrUpdateRecord block) := by
  have served := ((sound.toSteady.view_iff blockId block).mp seen).1
  obtain ⟨ref, middle, result, loaded⟩ := sound.toSteady.load blockId served
  have content : middle.heap ref = block := by
    have view := (loaded.steady sound.toSteady).cached_view loaded.cached
    rwa [loaded.view sound.toSteady, seen, Option.some.injEq, eq_comm] at view
  have replayed := replay_updates block records
  have name : (records.foldl Block.insertOrUpdateRecord block).blockId = blockId := by
    have same := replay_blockId block (records.map .updateRecord)
    rw [replayed] at same
    exact same.trans (sound.toSteady.view_named seen)
  refine ⟨_, ?_, sound.change loaded _ name (records.map .updateRecord) (by simp) ?_ ?_⟩
  · have appended : records.foldl (fun current record => current.walAppend blockId (.updateRecord record)) middle =
        middle.appendLog blockId (records.map .updateRecord) := by
      rw [appendLog, List.foldl_map]
    have heap := (appendLog_memory (records.map .updateRecord) middle blockId).1.heap
    simp only [BlockManager.updateRecords, result, appended, heap, content]
    rw [commit, committing, name]
    rfl
  · rw [content, replayed]
  · rw [content]
    exact accounted_updates records

end Update

section Finish

theorem finished_withState (block : Block) (time : Nat) (state : RecordState) (record : Record)
    (found : block.getRecord time = some record) :
    (block.insertOrUpdateRecord (record.withState state)).finished =
      (block.modifyRecord time (Record.withState state) (Record.timestamp_withState state)).finished := by
  funext other
  have stamped : (record.withState state).timestamp = time :=
    (Record.timestamp_withState state record).trans (Block.getRecord_timestamp found)
  unfold Block.finished
  rw [Block.getRecord_insertOrUpdate, Block.getRecord_modifyRecord, stamped]
  by_cases same : other = time
  · simp [same, found]
  · simp [same]

theorem Sound.blockToFinish {manager : BlockManager} (sound : manager.Sound) {blockId : Nat}
    (served : manager.InService blockId) :
    ∃ ref after, manager.blockToFinish blockId = (.ok ref, after) ∧ Loaded manager after blockId ref := by
  unfold BlockManager.blockToFinish
  cases write : manager.getWrite blockId with
  | none => exact sound.toSteady.load blockId served
  | some ref =>
    have cached : manager.Cached blockId ref := Or.inl write
    have name := sound.named blockId ref cached
    refine ⟨ref, manager, by simp [name], ?_⟩
    exact { wired := sound.toWired, fresh := sound.fresh blockId ref cached, name := name, cached := cached
            origin := Or.inl ⟨ref, cached, rfl⟩, candidates := fun _ _ candidate => candidate
            index := rfl, disk := rfl, write := rfl, backend := rfl, grown := le_rfl, heap := fun _ _ => rfl }

theorem Sound.blockToFinish_content {manager : BlockManager} (sound : manager.Sound) {blockId : Nat} {block : Block}
    (seen : manager.view blockId = some block) :
    ∃ ref middle, manager.blockToFinish blockId = (.ok ref, middle) ∧ Loaded manager middle blockId ref ∧
      middle.heap ref = block := by
  have served := ((sound.toSteady.view_iff blockId block).mp seen).1
  obtain ⟨ref, middle, result, loaded⟩ := sound.blockToFinish served
  have view := (loaded.steady sound.toSteady).cached_view loaded.cached
  rw [loaded.view sound.toSteady, seen, Option.some.injEq] at view
  exact ⟨ref, middle, result, loaded, view.symm⟩

theorem Sound.finishWriteRecord_commit {manager : BlockManager} (sound : manager.Sound) {blockId : Nat} {block : Block}
    (seen : manager.view blockId = some block) (state : RecordState) {time : Nat} {record : Record}
    (found : block.getRecord time = some record) :
    ∃ ref middle, Loaded manager middle blockId ref ∧ middle.heap ref = block ∧
      manager.finishWriteRecord blockId state time = (.ok (), middle.commit ref
        (block.modifyRecord time (Record.withState state) (Record.timestamp_withState state))
        [.writeRecord (record.withState state)] false) := by
  obtain ⟨ref, middle, result, loaded, content⟩ := sound.blockToFinish_content seen
  set changed := block.modifyRecord time (Record.withState state) (Record.timestamp_withState state) with changedEq
  have name : changed.blockId = blockId := by
    rw [changedEq, Block.blockId_modifyRecord]
    exact sound.toSteady.view_named seen
  have stored : changed.getRecord time = some (record.withState state) := by simp [changedEq, found]
  refine ⟨ref, middle, loaded, content, ?_⟩
  simp only [BlockManager.finishWriteRecord, result, content, Block.changeRecordState, found, ← changedEq, stored]
  rw [commit, committing, name]
  rfl

theorem Sound.finishWriteRecord {manager : BlockManager} (sound : manager.Sound) {blockId : Nat} {block : Block}
    (seen : manager.view blockId = some block) (state : RecordState) (time : Nat) :
    (∃ record after, block.getRecord time = some record ∧
        manager.finishWriteRecord blockId state time = (.ok (), after) ∧
        Changed manager after blockId
          (block.modifyRecord time (Record.withState state) (Record.timestamp_withState state))) ∨
      ∃ ref after, block.getRecord time = none ∧
        manager.finishWriteRecord blockId state time = (.error (notFound "Record not found"), after) ∧
        Loaded manager after blockId ref := by
  cases found : block.getRecord time with
  | none =>
    obtain ⟨ref, middle, result, loaded, content⟩ := sound.blockToFinish_content seen
    refine Or.inr ⟨ref, middle, rfl, ?_, loaded⟩
    simp only [BlockManager.finishWriteRecord, result, content, Block.changeRecordState, found]
  | some record =>
    obtain ⟨ref, middle, loaded, content, result⟩ := sound.finishWriteRecord_commit seen state found
    have name := (Block.blockId_modifyRecord block time (Record.withState state) (Record.timestamp_withState state)).trans
      (sound.toSteady.view_named seen)
    refine Or.inl ⟨record, _, rfl, result,
      sound.change loaded _ name [.writeRecord (record.withState state)] (by simp) ?_ ?_⟩
    · rw [content]
      exact finished_withState block time state record found
    · rw [content]
      exact fun accounted => accounted.modifyRecord time _ (Record.timestamp_withState state) (fun _ _ => rfl)

end Finish

end ReductStore.BlockManager
