import ReductStore.Storage.Durability
import ReductStore.Storage.RecordWriter
import ReductStore.Storage.Removal

set_option autoImplicit false

namespace ReductStore.BlockManager

open TreeMap

variable [Codec]

theorem Steady.served_iff {manager : BlockManager} (steady : manager.Steady) (blockId : Nat) :
    manager.InService blockId ↔ ∃ block, manager.view blockId = some block := by
  rw [← Option.isSome_iff_exists, Option.isSome_iff_ne_none, ne_eq, steady.view_none, not_not]

section Data

def Present (manager : BlockManager) : Prop :=
  ∀ blockId, manager.InService blockId → ∃ file, manager.disk.data[blockId]? = some file

theorem data_startNewBlock_target (manager : BlockManager) (blockId maxBlockSize : Nat) :
    ∃ file, (manager.startNewBlock blockId maxBlockSize).2.disk.data[blockId]? = some file := by
  rw [startNewBlock_eq, show (BlockManager.saveBlock _ _).disk.data = _ from (saveMetas_memory _ _).data]
  simp [opened, allocate, setBlock, indexBlock, modifyData]

theorem Primitive.present {before after : BlockManager} (step : Primitive before after) (steady : before.Steady)
    (present : before.Present) : after.Present := by
  have afterSteady := step.steady steady
  have kept (same : after.view = before.view) (blockId : Nat) (served : after.InService blockId) :
      ∃ file, before.disk.data[blockId]? = some file := by
    rw [afterSteady.served_iff, same, ← steady.served_iff] at served
    exact present blockId served
  intro blockId served
  cases step with
  | load loaded =>
    rw [loaded.disk]
    exact present blockId ((loaded.inService blockId).mp served)
  | start target maxBlockSize uncached empty =>
    by_cases same : blockId = target
    · subst same
      exact data_startNewBlock_target before blockId maxBlockSize
    · have effect := startNewBlock_effect steady.toWired target maxBlockSize uncached
      rw [data_startNewBlock steady.toWired target maxBlockSize blockId same]
      exact present blockId (((effect.served blockId).mp served).resolve_right same)
  | finish cached =>
    rw [data_finishBlock]
    split_ifs
    · exact ⟨_, rfl⟩
    · exact kept (steady.finish cached).2 blockId served
  | save cached =>
    rw [(saveMeta_memory _ _).data]
    exact kept (steady.saveMeta cached).2 blockId served
  | @commit target ref cached block name entries keptLog logged accounted indexed =>
    have view := (steady.commit cached name (committing_edited before _ block entries indexed)).2.2
    have data : (before.commit ref block entries indexed).disk.data = before.disk.data := by
      refine (saveMetas_memory _ _).data.trans ?_
      cases indexed <;> exact (appendLog_memory entries before block.blockId).1.data
    rw [data]
    by_cases same : blockId = target
    · exact present blockId (same ▸ steady.served target ref cached)
    · rw [afterSteady.served_iff, show (before.commit ref block entries indexed).view = _ from view, Function.update_of_ne same, ← steady.served_iff] at served
      exact present blockId served
  | write target change =>
    by_cases same : blockId = target
    · exact ⟨_, by simp [modifyData, same]; rfl⟩
    · obtain ⟨file, found⟩ := present blockId served
      exact ⟨file, by simpa [modifyData, same] using found⟩
  | drop blockIds => exact present blockId served

theorem Reaches.present {before after : BlockManager} (run : Reaches before after) (sound : before.Sound)
    (present : before.Present) : after.Present := by
  induction run with
  | refl => exact present
  | tail earlier step ih => exact step.present (Reaches.sound earlier sound).toSteady ih

end Data

section Stock

structure Filled (blockId : Nat) (block : Block) : Prop extends Block.Layout block where
  occupied : block.Occupied
  later : ∀ time record, block.getRecord time = some record → blockId ≤ time

structure Stocked (manager : BlockManager) : Prop extends Sound manager where
  filled : ∀ blockId block, manager.view blockId = some block → Filled blockId block
  present : manager.Present

variable {manager after : BlockManager}

theorem Stocked.update (stocked : manager.Stocked) (sound : after.Sound) (present : after.Present) {blockId : Nat}
    {block : Block} (filled : Filled blockId block)
    (view : after.view = Function.update manager.view blockId (some block)) : after.Stocked := by
  refine { sound with filled := ?_, present := present }
  intro other found seen
  rw [view] at seen
  by_cases same : other = blockId
  · rw [same, Function.update_self, Option.some.injEq] at seen
    exact same ▸ seen ▸ filled
  · rw [Function.update_of_ne same] at seen
    exact stocked.filled other found seen

theorem Stocked.same (stocked : manager.Stocked) (run : Reaches manager after) (view : after.view = manager.view) :
    after.Stocked :=
  { run.sound stocked.toSound with
    filled := by rw [view]; exact stocked.filled
    present := run.present stocked.toSound stocked.present }

theorem Filled.insert {blockId : Nat} {block : Block} (filled : Filled blockId block) (record : Record)
    (after : blockId ≤ record.timestamp) (layout : (block.insertOrUpdateRecord record).Layout) :
    Filled blockId (block.insertOrUpdateRecord record) := by
  refine { layout with occupied := ⟨record.timestamp, record, by simp⟩, later := ?_ }
  intro time stored found
  rw [Block.getRecord_insertOrUpdate] at found
  split_ifs at found with same
  · exact same ▸ after
  · exact filled.later time stored found

theorem filled_first (call : WriteCall) : Filled call.time (prepared (Block.new call.time) call) := by
  have layout := (Block.layout_new call.time).prepareForWriting call.time call.contentSize call.contentType call.labels
    (by simp)
  refine { layout with occupied := ?_, later := ?_ }
  · obtain ⟨record, found, _⟩ := opened_prepared (Block.new call.time) call
      { blockId := call.time, recordTimestamp := call.time, offset := 0, contentSize := call.contentSize } rfl rfl
    exact ⟨call.time, record, found⟩
  · intro time record found
    by_contra before
    have different : time ≠ call.time := by omega
    simp [Block.prepareForWriting, Block.startedRecord, different] at found

theorem Stocked.id_le (stocked : manager.Stocked) {call : WriteCall} {blockId : Nat} {block : Block}
    (selects : manager.Selects call blockId block) : blockId ≤ call.time := by
  rcases selects.place with ⟨_, early⟩ | covers
  · have filled := stocked.filled blockId block selects.seen
    obtain ⟨time, record, found⟩ := filled.occupied
    exact (filled.later time record found).trans
      (before_of_not_belated filled.toAccounted early time record found).le
  · exact covers.2.1

theorem Stocked.written (stocked : manager.Stocked) {call : WriteCall}
    {reply : Except ReductError WriteContext × BlockManager} (written : Written manager call reply) :
    reply.2.Stocked := by
  obtain ⟨result, after⟩ := reply
  have run := written.run
  have outcome := written.outcome
  have sound := run.sound stocked.toSound
  have present := run.present stocked.toSound stocked.present
  change Outcome manager call result after at outcome
  cases outcome with
  | fresh absent cause view => exact stocked.update sound present (filled_first call) view
  | @within _ blockId block selects room view =>
    have filled := stocked.filled blockId block selects.seen
    exact stocked.update sound present (filled.insert _ (stocked.id_le selects)
      (filled.toLayout.prepareForWriting _ _ _ _ selects.vacant)) view
  | @overwrite _ blockId block record covers seen found replaceable view =>
    have filled := stocked.filled blockId block seen
    have stamped := Block.getRecord_timestamp found
    refine stocked.update sound present (filled.insert (record.overwritten call) ?_ ?_) view
    · exact (filled.later call.time record found).trans_eq stamped.symm
    · exact filled.toLayout.replace (record.overwritten call) record
        (by rw [show (record.overwritten call).timestamp = call.time from stamped]; exact found) rfl rfl
  | refused covers seen found taken view => exact stocked.same run view

omit [Codec] in
theorem Filled.withState {blockId : Nat} {block : Block} (filled : Filled blockId block) (time : Nat)
    (state : RecordState) (record : Record) (present : block.getRecord time = some record) :
    Filled blockId (block.modifyRecord time (Record.withState state) (Record.timestamp_withState state)) := by
  have changed : block.changeRecordState time state =
      .ok (block.modifyRecord time (Record.withState state) (Record.timestamp_withState state)) := by
    simp [Block.changeRecordState, present]
  refine { filled.toLayout.changeState time state changed with 
           occupied := ⟨time, record.withState state, by simp [present]⟩, later := ?_ }
  intro other stored found
  rw [Block.getRecord_modifyRecord] at found
  split_ifs at found with same
  · exact same ▸ filled.later time record present
  · exact filled.later other stored found

theorem Stocked.runWriter (stocked : manager.Stocked) (context : WriteContext) (messages : List WriteChunk)
    (served : manager.InService context.blockId) : (manager.runWriter context messages).2.Stocked := by
  obtain ⟨received, view⟩ := stocked.toSound.receive context 0 messages
  have middle := stocked.same received.reaches view
  obtain ⟨block, seen⟩ := (stocked.toSteady.served_iff context.blockId).mp served
  rw [← view] at seen
  set state := writtenState (receive context manager 0 messages).1 with stateEq
  have result : manager.runWriter context messages = (receive context manager 0 messages).2.finishWriteRecord
      context.blockId state context.recordTimestamp := rfl
  rcases middle.toSound.finishWriteRecord seen state context.recordTimestamp with
    ⟨record, after, found, done, changed⟩ | ⟨ref, after, absent, failed, loaded⟩
  · rw [result, done]
    exact middle.update (changed.run.sound middle.toSound) (changed.run.present middle.toSound middle.present)
      ((middle.filled _ block seen).withState _ state record found) changed.view
  · rw [result, failed]
    have quiet := loaded.quiet middle.toSteady
    exact middle.same quiet.run quiet.view

theorem Stocked.forget (stocked : manager.Stocked) (steady : after.Steady) {blockId : Nat}
    (view : after.view = Function.update manager.view blockId none)
    (data : ∀ other : Nat, other ≠ blockId → after.disk.data[other]? = manager.disk.data[other]?) : after.Stocked := by
  have old (other : Nat) (block : Block) (seen : after.view other = some block) :
      other ≠ blockId ∧ manager.view other = some block := by
    rw [view] at seen
    by_cases same : other = blockId
    · simp [same] at seen
    · exact ⟨same, by rwa [Function.update_of_ne same] at seen⟩
  refine { steady with accounted := ?_, filled := ?_, present := ?_ }
  · exact fun other block seen => stocked.accounted other block (old other block seen).2
  · exact fun other block seen => stocked.filled other block (old other block seen).2
  · intro other served
    obtain ⟨block, seen⟩ := (steady.served_iff other).mp served
    obtain ⟨different, was⟩ := old other block seen
    rw [data other different]
    exact stocked.present other ((stocked.toSteady.served_iff other).mpr ⟨block, was⟩)

theorem Stocked.removeBlock (stocked : manager.Stocked) (blockId : Nat) : (manager.removeBlock blockId).Stocked := by
  have isolated : Isolated manager manager blockId := ⟨fun _ _ _ _ => rfl, rfl, rfl, rfl, rfl, rfl⟩
  obtain ⟨steady, view⟩ := isolated.forget_removed.steady stocked.toSteady
  refine stocked.forget steady view fun other different => ?_
  simp [BlockManager.removeBlock, walRemove, removeCached, saveIndex, removeBlockFiles, walAppend, different]

theorem Filled.compact {blockId : Nat} {block : Block} (filled : Filled blockId block) (times : List Nat)
    (kept : (retained block times).recordCount ≠ 0) : Filled blockId (retained block times).compact := by
  have accounted := accounted_retained times filled.toAccounted
  refine { accounted.layout_compact with occupied := ?_, later := ?_ }
  · obtain ⟨time, record, found⟩ := accounted.occupied.mpr kept
    obtain ⟨first, last, placed⟩ := Block.newPositions_present _ time record found
    exact ⟨time, _, (Block.getRecord_compact _ time _).mpr ⟨record, first, last, found, placed, rfl⟩⟩
  · intro time record found
    obtain ⟨old, _, _, present, _⟩ := (Block.getRecord_compact _ time record).mp found
    rw [getRecord_retained] at present
    split_ifs at present
    exact filled.later time old present

theorem Stocked.removeRecords (stocked : manager.Stocked) (blockId : Nat) (times : List Nat)
    (served : manager.InService blockId) : (manager.removeRecords blockId times).2.Stocked := by
  obtain ⟨ref, middle, result, loaded⟩ := stocked.toSteady.load blockId served
  have quiet := loaded.quiet stocked.toSteady
  have stocked := stocked.same quiet.run quiet.view
  obtain ⟨file, data⟩ := stocked.present blockId (stocked.served blockId ref loaded.cached)
  have filled := stocked.filled blockId _ (stocked.toSteady.cached_view loaded.cached)
  obtain ⟨steady, others, outcome⟩ := stocked.toSteady.run_removal loaded.cached times file data
  simp only [BlockManager.removeRecords, result]
  generalize (middle.removalSteps ref times).foldl (runRemoval ref blockId) middle = after at steady others outcome ⊢
  generalize middle.removalResult (retained (middle.heap ref) times) = reply at outcome
  cases outcome with
  | emptied empty view => exact stocked.forget steady view others
  | damaged kept short view => exact stocked.forget steady view others
  | compacted tail kept readable view written =>
    have compacted := filled.compact times kept
    refine stocked.update { steady with accounted := ?_ } ?_ compacted view
    · intro other block seen
      rw [view] at seen
      by_cases same : other = blockId
      · rw [same, Function.update_self, Option.some.injEq] at seen
        exact seen ▸ compacted.toAccounted
      · rw [Function.update_of_ne same] at seen
        exact stocked.accounted other block seen
    · intro other inService
      by_cases same : other = blockId
      · exact ⟨_, same ▸ written⟩
      · rw [steady.served_iff, view, Function.update_of_ne same, ← stocked.toSteady.served_iff] at inService
        rw [others other same]
        exact stocked.present other inService

end Stock

section Retain

def Retains (before after : BlockManager) (call : WriteCall) : Prop :=
  ∀ (blockId : Nat) (block : Block) (time : Nat) (record : Record), before.view blockId = some block →
    block.getRecord time = some record → ¬ (time = call.time ∧ record.state = .errored) →
    ∃ kept stored, after.view blockId = some kept ∧ kept.getRecord time = some stored ∧
      stored.beginPos = record.beginPos ∧ stored.endPos = record.endPos ∧
      ∀ index ∈ record.range, ∀ byte, (before.dataOf blockId)[index]? = some byte →
        (after.dataOf blockId)[index]? = some byte

variable {manager : BlockManager} {call : WriteCall}

omit [Codec] in
theorem DataKept.bytes {after : BlockManager} (data : DataKept manager after) {blockId : Nat} {block : Block}
    {time : Nat} {record : Record} (seen : manager.view blockId = some block) (layout : block.Layout)
    (found : block.getRecord time = some record) (index : Nat) (within : index ∈ record.range) (byte : UInt8)
    (stored : (manager.dataOf blockId)[index]? = some byte) : (after.dataOf blockId)[index]? = some byte := by
  rcases data blockId block seen with same | cut
  · rwa [dataOf, same]
  · have bounded : index < block.size := (layout.inside time record found within).2
    rw [dataOf, cut, Option.getD_some, File.get_setLen, if_pos bounded]
    simp [dataOf] at stored
    simp [stored]

theorem Stocked.keeps (stocked : manager.Stocked) {reply : Except ReductError WriteContext × BlockManager}
    (written : Written manager call reply) {blockId : Nat} {block : Block} {time : Nat} {record : Record}
    (seen : manager.view blockId = some block) (found : block.getRecord time = some record)
    (kept : ¬ (time = call.time ∧ record.state = .errored)) :
    ∃ kept, reply.2.view blockId = some kept ∧ kept.getRecord time = some record := by
  obtain ⟨result, after⟩ := reply
  have outcome := written.outcome
  change Outcome manager call result after at outcome
  have apart (target : Nat) (changed : Block)
      (view : after.view = Function.update manager.view target (some changed))
      (same : blockId = target → changed.getRecord time = some record) :
      ∃ kept, after.view blockId = some kept ∧ kept.getRecord time = some record := by
    rw [view]
    by_cases equal : blockId = target
    · exact ⟨changed, by rw [equal, Function.update_self], same equal⟩
    · exact ⟨block, by rw [Function.update_of_ne equal, seen], found⟩
  cases outcome with
  | fresh absent cause view =>
    refine apart _ _ view fun same => ?_
    exact absurd ((stocked.toSteady.served_iff _).mpr ⟨block, same ▸ seen⟩) absent
  | within selects room view =>
    refine apart _ _ view fun same => ?_
    subst same
    obtain rfl := Option.some.inj (seen.symm.trans selects.seen)
    have different : time ≠ call.time := by
      rintro rfl
      simp [selects.vacant] at found
    simpa [Block.prepareForWriting, Block.startedRecord, different] using found
  | @overwrite _ _ _ old covers seenOld foundOld replaceable view =>
    refine apart _ _ view fun same => ?_
    subst same
    obtain rfl := Option.some.inj (seen.symm.trans seenOld)
    have stamped := Block.getRecord_timestamp foundOld
    have different : time ≠ call.time := by
      rintro rfl
      obtain rfl := Option.some.inj (found.symm.trans foundOld)
      simp only [Record.isReplaceable, Bool.and_eq_true, decide_eq_true_eq] at replaceable
      exact kept ⟨rfl, replaceable.1⟩
    simpa [Record.overwritten, stamped, different] using found
  | refused covers seenOld foundOld taken view => exact ⟨block, by rw [view, seen], found⟩

theorem Stocked.retains (stocked : manager.Stocked) {reply : Except ReductError WriteContext × BlockManager}
    (written : Written manager call reply) : Retains manager reply.2 call := by
  intro blockId block time record seen found kept
  obtain ⟨block', view, present⟩ := stocked.keeps written seen found kept
  exact ⟨block', record, view, present, rfl, rfl,
    written.data.bytes seen (stocked.filled blockId block seen).toLayout found⟩

theorem appendRecord_full (manager : BlockManager) (call : WriteCall) (ref : BlockRef)
    (full : (manager.heap ref).isFull call = true) :
    ∃ started, (manager.appendRecord call ref).2.getRead call.time = some started ∧
      (manager.appendRecord call ref).2.heap started = prepared (Block.new call.time) call := by
  have content := startNewBlock_heap (manager.finishBlock ref) call.time call.settings.maxBlockSize
  simp only [appendRecord, full, if_true, rotateBlock]
  generalize (manager.finishBlock ref).startNewBlock call.time call.settings.maxBlockSize = rotated at content ⊢
  obtain ⟨record, found, _⟩ := opened_prepared (Block.new call.time) call
    { blockId := call.time, recordTimestamp := call.time, offset := 0, contentSize := call.contentSize } rfl rfl
  rw [prepareBlockForWriting, content, openWriter_commit rotated.2 rotated.1 _ call.time record found]
  have stored : (rotated.2.committing rotated.1 (prepared (Block.new call.time) call) [] true).heap rotated.1 =
      prepared (Block.new call.time) call := by
    rw [(committing_edited _ _ _ _ _).heap, Function.update_self]
  have target := saveBlock_target (rotated.2.committing rotated.1 (prepared (Block.new call.time) call) [] true) rotated.1
  rw [stored, show (prepared (Block.new call.time) call).blockId = call.time from Block.blockId_insertOrUpdate _ _] at target
  refine ⟨rotated.1, ?_, (congrFun (saveMetas_memory _ _).heap rotated.1).trans stored⟩
  rw [getRead, commit, target, Option.some_or]

theorem Stocked.displaced (stocked : manager.Stocked) (displaces : manager.displaces call = true) :
    ∃ block, manager.view call.time = some block ∧ manager.selected call = some block ∧ block.isFull call = true ∧
      ∃ time record, time ≠ call.time ∧ block.getRecord time = some record := by
  simp only [BlockManager.displaces, Bool.and_eq_true, decide_eq_true_eq, Option.any_eq_true] at displaces
  obtain ⟨served, block, chosen, full⟩ := displaces
  obtain ⟨blockId, selects⟩ := stocked.toSound.selects chosen
  have filled := stocked.filled blockId block selects.seen
  obtain ⟨time, record, found⟩ := filled.occupied
  obtain rfl : blockId = call.time := by
    rcases selects.place with ⟨latest, early⟩ | covers
    · have before := before_of_not_belated filled.toAccounted early time record found
      have after := filled.later time record found
      have last := latest.2 call.time served
      omega
    · exact le_antisymm covers.2.1 (covers.2.2 call.time served le_rfl)
  refine ⟨block, selects.seen, chosen, full, time, record, ?_, found⟩
  rintro rfl
  simp [selects.vacant] at found

theorem Stocked.loses (stocked : manager.Stocked) (displaces : manager.displaces call = true) :
    ¬ Retains manager (manager.beginWrite call).2 call := by
  obtain ⟨block, seen, chosen, full, time, record, different, found⟩ := stocked.displaced displaces
  obtain ⟨_, ref, middle, quiet, _, rfl, _, result⟩ := stocked.toSound.lead chosen
  obtain ⟨started, cached, content⟩ := appendRecord_full middle call ref full
  intro retains
  obtain ⟨kept, stored, view, present, _⟩ := retains call.time _ time record seen found (fun same => different same.1)
  rw [result] at view
  unfold BlockManager.view at view
  split_ifs at view with served
  simp only [cached, content, Option.some.injEq] at view
  subst view
  simp [Block.prepareForWriting, Block.startedRecord, different] at present

end Retain

section Runs

inductive EntryOperation where
  | beginWrite (call : WriteCall)
  | runWriter (context : WriteContext) (messages : List WriteChunk)
  | removeRecords (blockId : Nat) (times : List Nat)
  | removeBlock (blockId : Nat)

def perform (manager : BlockManager) : EntryOperation → BlockManager
  | .beginWrite call => (manager.beginWrite call).2
  | .runWriter context messages => (manager.runWriter context messages).2
  | .removeRecords blockId times => (manager.removeRecords blockId times).2
  | .removeBlock blockId => manager.removeBlock blockId

def Sequential (manager : BlockManager) : EntryOperation → Prop
  | .beginWrite _ => True
  | .runWriter context _ => manager.InService context.blockId
  | .removeRecords blockId _ => manager.InService blockId
  | .removeBlock _ => True

def Harmless (manager : BlockManager) : EntryOperation → Prop
  | .beginWrite call => manager.displaces call = false
  | _ => True

instance (manager : BlockManager) (blockId : Nat) : Decidable (manager.InService blockId) :=
  inferInstanceAs (Decidable (blockId ∈ _))

instance (manager : BlockManager) (operation : EntryOperation) :
    Decidable (manager.Sequential operation ∧ manager.Harmless operation) := by
  cases operation <;> unfold Sequential Harmless <;> infer_instance

theorem Stocked.perform {manager : BlockManager} (stocked : manager.Stocked) (operation : EntryOperation)
    (sequential : manager.Sequential operation) (harmless : manager.Harmless operation) :
    (manager.perform operation).Stocked := by
  cases operation with
  | beginWrite call => exact stocked.written (beginWrite_written stocked.toSound call harmless)
  | runWriter context messages => exact stocked.runWriter context messages sequential
  | removeRecords blockId times => exact stocked.removeRecords blockId times sequential
  | removeBlock blockId => exact stocked.removeBlock blockId

theorem stocked_created (path bucket entry : String) (backendType : BackendType) (evictions : List (List Nat)) :
    (created path bucket entry backendType evictions).Stocked := by
  have sound := (durable_created path bucket entry backendType evictions).toSound
  have outside (blockId : Nat) : ¬ (created path bucket entry backendType evictions).InService blockId := by
    simp [inService_iff, created, build]
  refine { sound with filled := ?_, present := fun blockId served => absurd served (outside blockId) }
  intro blockId block seen
  exact absurd ((sound.toSteady.served_iff blockId).mpr ⟨block, seen⟩) (outside blockId)

theorem stocked_of_history {manager : BlockManager} (path bucket entry : String) (backendType : BackendType)
    (evictions : List (List Nat))
    (run : Runs perform (fun current operation => current.Sequential operation ∧ current.Harmless operation)
      (created path bucket entry backendType evictions) manager) : manager.Stocked :=
  run.invariant Stocked (stocked_created path bucket entry backendType evictions)
    (fun _ operation stocked allowed => stocked.perform operation allowed.1 allowed.2)

/-- A call loses records exactly when it rotates a block to an id that is in service. -/
theorem begin_write_retains_iff (path bucket entry : String) (backendType : BackendType) (evictions : List (List Nat))
    (manager : BlockManager)
    (run : Runs perform (fun current operation => current.Sequential operation ∧ current.Harmless operation)
      (created path bucket entry backendType evictions) manager)
    (call : WriteCall) : Retains manager (manager.beginWrite call).2 call ↔ manager.displaces call = false := by
  have stocked := stocked_of_history path bucket entry backendType evictions run
  constructor
  · intro retains
    by_contra displaces
    exact stocked.loses (by simpa using displaces) retains
  · intro safe
    exact stocked.retains (beginWrite_written stocked.toSound call safe)

end Runs

end ReductStore.BlockManager

namespace ReductStore.BlockManager

theorem begin_write_retains_at_write :
    Retains (smallEntry.perform (.beginWrite (smallWrite 3 4)))
      ((smallEntry.perform (.beginWrite (smallWrite 3 4))).beginWrite (smallWrite 1 4)).2 (smallWrite 1 4) := by
  have allowed : smallEntry.Sequential (.beginWrite (smallWrite 3 4)) ∧
      smallEntry.Harmless (.beginWrite (smallWrite 3 4)) := by
    refine ⟨trivial, ?_⟩
    show smallEntry.displaces (smallWrite 3 4) = false
    decide +kernel
  exact (begin_write_retains_iff "entry" "bucket" "entry" .filesystem [] _ (.step .start _ allowed) (smallWrite 1 4)).mpr
    (by decide +kernel)

def secondWriter : WriteContext := { blockId := 1, recordTimestamp := 3, offset := 1, contentSize := 1 }

def filledEntry : BlockManager :=
  (((smallEntry.perform (.beginWrite (smallWrite 1 1))).perform (.beginWrite (smallWrite 3 1))).perform
    (.runWriter secondWriter (contentOf [[7]])))

theorem begin_write_loses_record :
    Runs perform Sequential smallEntry (filledEntry.perform (.removeRecords 1 [1])) ∧
      (((filledEntry.perform (.removeRecords 1 [1])).view 1).bind fun block => (block.getRecord 3).map Record.state) =
        some .finished ∧
      ((filledEntry.perform (.removeRecords 1 [1])).beginWrite (smallWrite 1 10)).1.isOk = true ∧
      ((((filledEntry.perform (.removeRecords 1 [1])).beginWrite (smallWrite 1 10)).2.view 1).map fun block =>
        block.getRecord 3) = some none := by
  refine ⟨?_, ?_, ?_, ?_⟩
  · have started : Runs perform Sequential smallEntry (smallEntry.perform (.beginWrite (smallWrite 1 1))) :=
      Runs.start.step (EntryOperation.beginWrite (smallWrite 1 1)) trivial
    have opened : ((smallEntry.perform (.beginWrite (smallWrite 1 1))).perform (.beginWrite (smallWrite 3 1))).InService 1 := by
      unfold InService
      decide +kernel
    have served : filledEntry.InService 1 := by
      unfold InService
      decide +kernel
    exact ((started.step (.beginWrite (smallWrite 3 1)) trivial).step (.runWriter secondWriter (contentOf [[7]])) opened).step
      (.removeRecords 1 [1]) served
  · decide +kernel
  · decide +kernel
  · decide +kernel

end ReductStore.BlockManager
