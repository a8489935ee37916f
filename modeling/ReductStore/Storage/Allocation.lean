import ReductStore.Storage.Durability
import ReductStore.Storage.Removal

set_option autoImplicit false

namespace ReductStore.BlockManager

open TreeMap

variable [Codec]

section Updates

def Obtained (block : Block) (records : List Record) : Prop :=
  ∀ record ∈ records, ∃ old, block.getRecord record.timestamp = some old ∧
    record.beginPos = old.beginPos ∧ record.endPos = old.endPos

theorem layout_updates (records : List Record) {block : Block} (layout : block.Layout)
    (obtained : Obtained block records) : (records.foldl Block.insertOrUpdateRecord block).Layout := by
  induction records generalizing block with
  | nil => exact layout
  | cons record rest ih =>
    obtain ⟨old, found, first, last⟩ := obtained record (by simp)
    refine ih (layout.replace record old found first last) ?_
    intro other member
    obtain ⟨was, present, begins, ends⟩ := obtained other (by simp [member])
    rw [Block.getRecord_insertOrUpdate]
    split_ifs with same
    · -- the record was replaced by one at the same place
      obtain rfl : was = old := Option.some.inj (present.symm.trans (same ▸ found))
      exact ⟨record, rfl, begins.trans first.symm, ends.trans last.symm⟩
    · exact ⟨was, present, begins, ends⟩

end Updates

structure Laid (manager : BlockManager) : Prop where
  heap : ∀ ref, (manager.heap ref).Layout
  desc : ∀ (blockId : Nat) (proto : BlockProto), manager.disk.desc[blockId]? = some proto → (Block.ofProto proto).Layout

namespace Laid

variable {manager : BlockManager}

omit [Codec] in
theorem congr {other : BlockManager} (laid : manager.Laid) (heap : other.heap = manager.heap)
    (desc : other.disk.desc = manager.disk.desc) : other.Laid :=
  ⟨fun ref => by rw [heap]; exact laid.heap ref, fun blockId proto found => laid.desc blockId proto (desc ▸ found)⟩

omit [Codec] in
theorem setBlock (laid : manager.Laid) (ref : BlockRef) {block : Block} (layout : block.Layout) :
    (manager.setBlock ref block).Laid := by
  refine ⟨fun other => ?_, laid.desc⟩
  by_cases same : other = ref
  · simpa [BlockManager.setBlock, same] using layout
  · simpa [BlockManager.setBlock, Function.update_of_ne same] using laid.heap other

omit [Codec] in
theorem allocate (laid : manager.Laid) {block : Block} (layout : block.Layout) : (manager.allocate block).2.Laid :=
  (laid.setBlock manager.next layout).congr rfl rfl

theorem saveMeta (laid : manager.Laid) (ref : BlockRef) : (manager.saveMetaOnDisk ref).Laid := by
  refine ⟨laid.heap, fun blockId proto found => ?_⟩
  by_cases same : blockId = (manager.heap ref).blockId
  · obtain ⟨saved, _, desc, content, _⟩ := saveMeta_saved manager ref
    rw [← same, found, Option.some.injEq] at desc
    rw [desc, content]
    exact laid.heap ref
  · rw [(saveMeta_untouched manager ref blockId (Ne.symm same)).1] at found
    exact laid.desc blockId proto found

theorem saveMetas (refs : List BlockRef) (laid : manager.Laid) : (manager.saveMetas refs).Laid := by
  induction refs generalizing manager with
  | nil => exact laid
  | cons ref rest ih => exact ih (laid.saveMeta ref)

theorem saveBlock (laid : manager.Laid) (ref : BlockRef) : (manager.saveBlock ref).Laid :=
  saveMetas _ (laid.congr rfl rfl)

omit [Codec] in
theorem markBlockCorrupted (laid : manager.Laid) (blockId : Nat) : (manager.markBlockCorrupted blockId).Laid := by
  unfold BlockManager.markBlockCorrupted
  cases found : manager.disk.desc[blockId]? with
  | none =>
    simp only [removeCached, found]
    exact laid.congr rfl rfl
  | some proto =>
    simp only [removeCached, found]
    refine ⟨laid.heap, fun other stored present => ?_⟩
    simp only [saveIndex, get_insert] at present
    split_ifs at present with same
    · rw [← Option.some.inj present]
      exact laid.desc blockId proto found
    · exact laid.desc other stored present

omit [Codec] in
theorem adopt (laid : manager.Laid) (blockId : Nat) {proto : BlockProto} (layout : (Block.ofProto proto).Layout) :
    (manager.adopt blockId proto).2.Laid :=
  (laid.allocate layout).congr rfl rfl

theorem loadBlock (laid : manager.Laid) (blockId : Nat) : (manager.loadBlock blockId).2.Laid := by
  unfold BlockManager.loadBlock
  cases manager.getRead blockId with
  | some ref => exact laid.congr rfl rfl
  | none =>
    cases found : manager.disk.desc[blockId]? with
    | none => exact laid.markBlockCorrupted blockId
    | some proto =>
      have layout := laid.desc blockId proto found
      cases manager.blockIndex[blockId]? with
      | none => exact laid
      | some entry =>
        simp only
        split_ifs
        · exact laid.adopt blockId layout
        · refine adopt ?_ blockId layout
          exact laid.congr rfl rfl
        · exact laid.markBlockCorrupted blockId

theorem startNewBlock (laid : manager.Laid) (blockId maxBlockSize : Nat) :
    (manager.startNewBlock blockId maxBlockSize).2.Laid := by
  rw [startNewBlock_eq]
  refine saveBlock ?_ manager.next
  exact ((laid.congr rfl rfl).allocate (Block.layout_new blockId)).congr rfl rfl

theorem finishBlock (laid : manager.Laid) (ref : BlockRef) : (manager.finishBlock ref).Laid := by
  refine saveMeta ?_ ref
  exact laid.congr rfl rfl

section Write

variable (call : WriteCall)

theorem selectBlock (laid : manager.Laid) : (manager.selectBlock call).2.Laid := by
  unfold BlockManager.selectBlock
  cases manager.blockIndex.activeTree.getLast? with
  | none => exact laid.startNewBlock call.time call.settings.maxBlockSize
  | some blockId => exact laid.loadBlock blockId

theorem openWriter (laid : manager.Laid) (ref : BlockRef) (time : Nat) : (manager.openWriter ref time).2.Laid := by
  have indexed : (manager.indexBlock (manager.heap ref)).Laid := laid.congr rfl rfl
  unfold BlockManager.openWriter registerBlock
  cases found : (manager.heap ref).getRecord time with
  | none => simpa only [found] using indexed
  | some record => simpa only [found] using indexed.saveBlock ref

theorem appendRecord (laid : manager.Laid) (ref : BlockRef) (vacant : (manager.heap ref).getRecord call.time = none) :
    (manager.appendRecord call ref).2.Laid := by
  unfold BlockManager.appendRecord prepareBlockForWriting
  cases (manager.heap ref).isFull call with
  | false => exact (laid.setBlock ref ((laid.heap ref).prepareForWriting _ _ _ _ vacant)).openWriter ref call.time
  | true =>
    have rotated := (laid.finishBlock ref).startNewBlock call.time call.settings.maxBlockSize
    have content := startNewBlock_heap (manager.finishBlock ref) call.time call.settings.maxBlockSize
    simp only [if_true, rotateBlock]
    generalize (manager.finishBlock ref).startNewBlock call.time call.settings.maxBlockSize = reply at rotated content ⊢
    refine (rotated.setBlock _ ((rotated.heap _).prepareForWriting _ _ _ _ ?_)).openWriter _ call.time
    rw [content, Block.getRecord_new]

theorem locateBlock (laid : manager.Laid) : (manager.locateBlock call).2.Laid ∧
    ∀ ref, (manager.locateBlock call).1 = .ok (.belatedFirst, ref) →
      (manager.locateBlock call).2.heap ref = Block.new call.time := by
  unfold BlockManager.locateBlock findBlock
  cases manager.blockIndex.activeTree.head? with
  | none => exact ⟨laid, fun ref success => by cases success⟩
  | some first =>
    simp only
    split_ifs
    · refine ⟨laid.startNewBlock call.time call.settings.maxBlockSize, fun ref success => ?_⟩
      obtain rfl := (Prod.mk.inj (Except.ok.inj success)).2
      exact startNewBlock_heap manager call.time call.settings.maxBlockSize
    · cases manager.findBlockId call.time with
      | error failure => exact ⟨laid, fun ref success => by cases success⟩
      | ok blockId =>
        have loaded := laid.loadBlock blockId
        simp only
        generalize manager.loadBlock blockId = reply at loaded ⊢
        rcases reply with ⟨_ | ref, after⟩
        · exact ⟨loaded, fun ref success => by cases success⟩
        · exact ⟨loaded, fun other success => by cases success⟩

theorem beginWrite (laid : manager.Laid) : (manager.beginWrite call).2.Laid := by
  have selected := laid.selectBlock call
  unfold BlockManager.beginWrite
  generalize manager.selectBlock call = reply at selected ⊢
  rcases reply with ⟨_ | ref, middle⟩
  · exact selected
  cases belated : (middle.heap ref).isBelated call.time with
  | false =>
    simp only [belated, Bool.false_eq_true, if_false]
    refine appendRecord call selected ref ?_
    cases found : (middle.heap ref).getRecord call.time with
    | none => rfl
    | some record =>
      have before := before_of_not_belated (selected.heap ref).toAccounted belated call.time record found
      exact absurd before (Nat.lt_irrefl _)
  | true =>
    simp only [belated, if_true]
    obtain ⟨located, fresh⟩ := locateBlock call selected
    generalize middle.locateBlock call = reply at located fresh ⊢
    rcases reply with ⟨_ | ⟨_ | _, place⟩, after⟩
    · exact located
    · cases found : (after.heap place).getRecord call.time with
      | none =>
        simp only [found]
        exact appendRecord call located place found
      | some record =>
        simp only [found]
        split_ifs
        · have stamped := Block.getRecord_timestamp found
          refine openWriter (located.setBlock place ?_) place call.time
          exact (located.heap place).replace (record.overwritten call) record
            (by rw [show (record.overwritten call).timestamp = call.time from stamped]; exact found) rfl rfl
        · exact located
    · refine appendRecord call located place ?_
      rw [fresh place rfl, Block.getRecord_new]

end Write

section Change

omit [Codec] in
theorem edited {changed : BlockManager} {ref : BlockRef} {block : Block} (laid : manager.Laid)
    (edited : Edited manager changed ref block) (layout : block.Layout) : changed.Laid :=
  (laid.setBlock ref layout).congr edited.heap edited.desc

theorem finishWriteRecord (laid : manager.Laid) (blockId : Nat) (state : RecordState) (timestamp : Nat) :
    (manager.finishWriteRecord blockId state timestamp).2.Laid := by
  have found : (manager.blockToFinish blockId).2.Laid := by
    unfold blockToFinish
    cases manager.getWrite blockId with
    | none => exact laid.loadBlock blockId
    | some ref =>
      simp only
      split_ifs
      · exact laid
      · exact laid.loadBlock blockId
  unfold BlockManager.finishWriteRecord
  generalize manager.blockToFinish blockId = reply at found ⊢
  rcases reply with ⟨_ | ref, middle⟩
  · exact found
  simp only
  cases changed : (middle.heap ref).changeRecordState timestamp state with
  | error failure => exact found
  | ok block =>
    have next := found.setBlock ref ((found.heap ref).changeState timestamp state changed)
    simp only
    refine saveBlock ?_ ref
    cases block.getRecord timestamp with
    | none => exact next
    | some record => exact next.congr rfl rfl

theorem updateRecords (laid : manager.Laid) (blockId : Nat) (records : List Record)
    (obtained : ∀ ref after, manager.loadBlock blockId = (.ok ref, after) → Obtained (after.heap ref) records) :
    (manager.updateRecords blockId records).2.Laid := by
  have loaded := laid.loadBlock blockId
  unfold BlockManager.updateRecords
  rcases result : manager.loadBlock blockId with ⟨_ | ref, middle⟩ <;> rw [result] at loaded
  · exact loaded
  have memory := appendLog_memory (records.map .updateRecord) middle blockId
  have layout := layout_updates records (loaded.heap ref) (obtained ref middle result)
  have appended : records.foldl (fun current record => current.walAppend blockId (.updateRecord record)) middle =
      middle.appendLog blockId (records.map .updateRecord) := by
    rw [appendLog, List.foldl_map]
  simp only [appended, memory.1.heap]
  exact ((loaded.congr memory.1.heap memory.2.1).setBlock ref layout).saveBlock ref

omit [Codec] in
theorem removeBlock (laid : manager.Laid) (blockId : Nat) : (manager.removeBlock blockId).Laid := by
  refine ⟨laid.heap, fun other proto found => ?_⟩
  have kept : (manager.disk.desc.erase blockId)[other]? = some proto := found
  rw [get_erase] at kept
  split_ifs at kept
  exact laid.desc other proto kept

theorem removeRecords (laid : manager.Laid) (blockId : Nat) (times : List Nat)
    (success : (manager.removeRecords blockId times).1 = .ok ()) : (manager.removeRecords blockId times).2.Laid := by
  have loaded := laid.loadBlock blockId
  unfold BlockManager.removeRecords at success ⊢
  generalize manager.loadBlock blockId = reply at loaded success ⊢
  rcases reply with ⟨_ | ref, middle⟩
  · exact loaded
  dsimp only at success loaded ⊢
  have accounted := accounted_retained times (loaded.heap ref).toAccounted
  by_cases empty : (retained (middle.heap ref) times).recordCount = 0
  · rw [run_removal_emptied middle ref times empty]
    exact (loaded.edited (dropped_edited middle ref blockId times) (accounted.layout_empty empty)).removeBlock blockId
  rcases copied : copyRecords (middle.dataPath (retained (middle.heap ref) times).blockId)
    middle.disk.data[(retained (middle.heap ref) times).blockId]? (retained (middle.heap ref) times).records 0
    with ⟨buffers, failure | positions⟩
  · simp only [removalResult, if_neg empty, copied, reduceCtorEq] at success
  have place : positions = (retained (middle.heap ref) times).newPositions := copyRecords_ok _ _ _ _ _ _ copied
  rw [run_removal_copied blockId middle ref times empty buffers _ copied]
  subst place
  have compacted := loaded.edited (replaced_edited middle ref blockId times
    (buffers.flatten ++ (middle.disk.temp[blockId]?.getD []).drop buffers.flatten.length) _) accounted.layout_compact
  exact (compacted.saveMeta ref).congr rfl rfl

end Change

end Laid

section Runs

inductive BlockOperation where
  | beginWrite (call : WriteCall)
  | writeChunk (blockId position : Nat) (chunk : List UInt8)
  | finishWriteRecord (blockId : Nat) (state : RecordState) (timestamp : Nat)
  | updateRecords (blockId : Nat) (records : List Record)
  | removeRecords (blockId : Nat) (times : List Nat)

def operate (manager : BlockManager) : BlockOperation → BlockManager
  | .beginWrite call => (manager.beginWrite call).2
  | .writeChunk blockId position chunk => manager.modifyData blockId (File.writeAt · position chunk)
  | .finishWriteRecord blockId state timestamp => (manager.finishWriteRecord blockId state timestamp).2
  | .updateRecords blockId records => (manager.updateRecords blockId records).2
  | .removeRecords blockId times => (manager.removeRecords blockId times).2

def Succeeds (manager : BlockManager) : BlockOperation → Prop
  | .beginWrite call => (manager.beginWrite call).1.isOk
  | .writeChunk _ _ _ => True
  | .finishWriteRecord blockId state timestamp => (manager.finishWriteRecord blockId state timestamp).1 = .ok ()
  | .updateRecords blockId records =>
    (manager.updateRecords blockId records).1 = .ok () ∧
      ∀ ref after, manager.loadBlock blockId = (.ok ref, after) → Obtained (after.heap ref) records
  | .removeRecords blockId times => (manager.removeRecords blockId times).1 = .ok ()

theorem Laid.operate {manager : BlockManager} (laid : manager.Laid) (operation : BlockOperation)
    (succeeds : manager.Succeeds operation) : (manager.operate operation).Laid := by
  cases operation with
  | beginWrite call => exact laid.beginWrite call
  | writeChunk blockId position chunk => exact laid.congr rfl rfl
  | finishWriteRecord blockId state timestamp => exact laid.finishWriteRecord blockId state timestamp
  | updateRecords blockId records => exact laid.updateRecords blockId records succeeds.2
  | removeRecords blockId times => exact laid.removeRecords blockId times succeeds

omit [Codec] in
theorem laid_created (path bucket entry : String) (backendType : BackendType) (evictions : List (List Nat)) :
    (created path bucket entry backendType evictions).Laid :=
  ⟨Block.layout_new, fun blockId proto found => by simp [created, build] at found⟩

/-- After every operation, the block that an id stands for has its records side by side. -/
theorem loaded_layout (path bucket entry : String) (backendType : BackendType) (evictions : List (List Nat))
    (manager : BlockManager) (run : Runs operate Succeeds (created path bucket entry backendType evictions) manager)
    (blockId : Nat) (ref : BlockRef) (after : BlockManager) (loaded : manager.loadBlock blockId = (.ok ref, after)) :
    (after.heap ref).Layout := by
  have laid := run.invariant Laid (laid_created path bucket entry backendType evictions)
    (fun current operation laid succeeds => laid.operate operation succeeds)
  have held := laid.loadBlock blockId
  rw [loaded] at held
  exact held.heap ref

end Runs

end ReductStore.BlockManager

namespace ReductStore.BlockManager

def compactedEntry : BlockManager :=
  ((((smallEntry.operate (.beginWrite (smallWrite 1 4))).operate (.beginWrite (smallWrite 3 5))).operate
    (.finishWriteRecord 1 .finished 3)).operate (.writeChunk 1 4 [7, 7])).operate (.removeRecords 1 [1])

theorem loaded_layout_after_removal :
    compactedEntry.loadBlock 1 = (.ok 0, (compactedEntry.loadBlock 1).2) ∧
      ((compactedEntry.loadBlock 1).2.heap 0).Layout := by
  have first : smallEntry.Succeeds (.beginWrite (smallWrite 1 4)) := by
    show (smallEntry.beginWrite (smallWrite 1 4)).1.isOk = true
    decide +kernel
  have second : (smallEntry.operate (.beginWrite (smallWrite 1 4))).Succeeds (.beginWrite (smallWrite 3 5)) := by
    show ((smallEntry.beginWrite (smallWrite 1 4)).2.beginWrite (smallWrite 3 5)).1.isOk = true
    decide +kernel
  have third : ((smallEntry.operate (.beginWrite (smallWrite 1 4))).operate (.beginWrite (smallWrite 3 5))).Succeeds
      (.finishWriteRecord 1 .finished 3) := by
    show (((smallEntry.operate _).operate _).finishWriteRecord 1 .finished 3).1 = .ok ()
    decide +kernel
  have fourth : ((((smallEntry.operate (.beginWrite (smallWrite 1 4))).operate (.beginWrite (smallWrite 3 5))).operate
      (.finishWriteRecord 1 .finished 3)).operate (.writeChunk 1 4 [7, 7])).Succeeds (.removeRecords 1 [1]) := by
    show (BlockManager.removeRecords _ 1 [1]).1 = .ok ()
    decide +kernel
  have loaded : compactedEntry.loadBlock 1 = (.ok 0, (compactedEntry.loadBlock 1).2) := Prod.ext (by decide +kernel) rfl
  have begun : Runs operate Succeeds smallEntry _ := .step .start _ first
  exact ⟨loaded, loaded_layout "entry" "bucket" "entry" .filesystem [] compactedEntry
    ((((begun.step _ second).step _ third).step (.writeChunk 1 4 [7, 7]) trivial).step _ fourth) 1 0 _ loaded⟩

end ReductStore.BlockManager
