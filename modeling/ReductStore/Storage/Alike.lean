import ReductStore.Storage.Retention

set_option autoImplicit false

namespace ReductStore.BlockManager

open TreeMap

def Lost (manager : BlockManager) (blockId : Nat) : Prop := manager.blockIndex.isCorrupted blockId = true

instance (manager : BlockManager) (blockId : Nat) : Decidable (manager.Lost blockId) :=
  inferInstanceAs (Decidable (_ = true))

theorem lost_iff (manager : BlockManager) (blockId : Nat) :
    manager.Lost blockId ↔ ∃ entry, manager.blockIndex[blockId]? = some entry ∧ entry.corrupted = some true := by
  cases found : manager.blockIndex[blockId]? with
  | none => simp [Lost, BlockIndex.isCorrupted, found]
  | some entry => simp [Lost, BlockIndex.isCorrupted, found]

theorem InService.not_lost {manager : BlockManager} {blockId : Nat} (served : manager.InService blockId) :
    ¬ manager.Lost blockId := by
  obtain ⟨entry, found, sound⟩ := (inService_iff manager blockId).mp served
  rintro lost
  obtain ⟨other, same, corrupted⟩ := (lost_iff manager blockId).mp lost
  rw [found, Option.some.injEq] at same
  exact sound (same ▸ corrupted)

theorem served_or_lost {manager : BlockManager} {blockId : Nat} (listed : manager.blockIndex[blockId]? ≠ none) :
    manager.InService blockId ∨ manager.Lost blockId := by
  obtain ⟨entry, found⟩ := Option.ne_none_iff_exists'.mp listed
  by_cases corrupted : entry.corrupted = some true
  · exact Or.inr ((lost_iff manager blockId).mpr ⟨entry, found, corrupted⟩)
  · exact Or.inl ((inService_iff manager blockId).mpr ⟨entry, found, corrupted⟩)

variable [Codec]

section Lists

structure Lists (before after : BlockManager) : Prop where
  kept : ∀ blockId : Nat, before.blockIndex[blockId]? ≠ none → after.blockIndex[blockId]? ≠ none
  unmarked : ∀ blockId, after.Lost blockId → before.Lost blockId

variable {before middle after : BlockManager}

omit [Codec] in
theorem Lists.of_index (same : after.blockIndex = before.blockIndex) : Lists before after where
  kept := by rw [same]; exact fun _ listed => listed
  unmarked := by simp only [Lost, same]; exact fun _ lost => lost

omit [Codec] in
theorem Lists.trans (first : Lists before middle) (second : Lists middle after) : Lists before after :=
  ⟨fun blockId listed => second.kept blockId (first.kept blockId listed),
    fun blockId lost => first.unmarked blockId (second.unmarked blockId lost)⟩

omit [Codec] in
theorem Lists.of_insert {blockId : Nat} (entry : BlockEntry) (sound : entry.corrupted = none)
    (index : after.blockIndex = before.blockIndex.insert blockId entry) : Lists before after where
  kept := fun other listed => by
    rw [index, get_insert]
    split_ifs
    · simp
    · exact listed
  unmarked := fun other lost => by
    obtain ⟨found, present, corrupted⟩ := (lost_iff after other).mp lost
    rw [index, get_insert] at present
    split_ifs at present with same
    · simp [← Option.some.inj present, sound] at corrupted
    · exact (lost_iff before other).mpr ⟨found, present, corrupted⟩

theorem lists_saveMeta (manager : BlockManager) (ref : BlockRef) : Lists manager (manager.saveMetaOnDisk ref) :=
  .of_insert { BlockEntry.ofProto { manager.snapshot ref with
    metadataSize := (Codec.encodeBlock (manager.snapshot ref)).length } with crc64 := some (manager.snapshot ref).crc }
    rfl rfl

theorem lists_saveMetas (refs : List BlockRef) (manager : BlockManager) : Lists manager (manager.saveMetas refs) := by
  induction refs generalizing manager with
  | nil => exact .of_index rfl
  | cons ref rest ih => exact (lists_saveMeta manager ref).trans (ih (manager.saveMetaOnDisk ref))

theorem lists_saveBlock (manager : BlockManager) (ref : BlockRef) : Lists manager (manager.saveBlock ref) :=
  have inserted : Lists manager (manager.insertWrite (manager.heap ref).blockId ref).2 := .of_index rfl
  inserted.trans (lists_saveMetas _ _)

theorem Primitive.lists (step : Primitive before after) : Lists before after := by
  cases step with
  | load loaded => exact .of_index loaded.index
  | start blockId maxBlockSize uncached empty =>
    have opened : Lists before (before.opened blockId maxBlockSize) := .of_insert (.ofBlock (.new blockId)) rfl rfl
    exact opened.trans (lists_saveBlock _ before.next)
  | @finish _ ref cached =>
    have resized : Lists before (before.modifyData (before.heap ref).blockId (File.setLen · (before.heap ref).size)) :=
      .of_index rfl
    exact resized.trans (lists_saveMeta _ ref)
  | save cached => exact lists_saveMeta before _
  | @commit _ ref cached block name entries kept logged accounted indexed =>
    have appended := (appendLog_memory entries before block.blockId).2.2.2
    have changed : Lists before (before.committing ref block entries indexed) := by
      cases indexed with
      | false => exact .of_index appended
      | true =>
        exact .of_insert (.ofBlock block) rfl
          (congrArg (fun index => index.insert block.blockId (BlockEntry.ofBlock block)) appended)
    exact changed.trans (lists_saveBlock _ _)
  | write blockId change => exact .of_index rfl
  | drop blockIds => exact .of_index rfl

theorem Reaches.lists (run : Reaches before after) : Lists before after := by
  induction run with
  | refl => exact .of_index rfl
  | tail _ step ih => exact ih.trans step.lists

theorem Reaches.lost_iff (run : Reaches before after) (steady : after.Steady) (blockId : Nat)
    (unserved : before.view blockId = none → after.view blockId = none) (before_ : before.Steady) :
    after.Lost blockId ↔ before.Lost blockId := by
  refine ⟨run.lists.unmarked blockId, fun lost => ?_⟩
  have outside : ¬ before.InService blockId := fun served => served.not_lost lost
  have gone := (steady.view_none blockId).mp (unserved ((before_.view_none blockId).mpr outside))
  obtain ⟨entry, found, _⟩ := (BlockManager.lost_iff before blockId).mp lost
  exact (served_or_lost (run.lists.kept blockId (by simp [found]))).resolve_left gone

end Lists

section Removal

variable {manager : BlockManager} {blockId : Nat} {ref : BlockRef}

theorem index_compacted (manager : BlockManager) (ref : BlockRef) (times : List Nat) (file : File)
    (name : (manager.heap ref).blockId = blockId) (other : Nat) (different : other ≠ blockId) :
    ((finalSteps (.ok (retained (manager.heap ref) times).newPositions)).foldl (runRemoval ref blockId)
      (withTemp blockId (manager.dropped ref blockId times) file)).blockIndex[other]? = manager.blockIndex[other]? := by
  set positions := (retained (manager.heap ref) times).newPositions
  have listed : (manager.dropped ref blockId times).blockIndex = manager.blockIndex :=
    (appendLog_memory (times.map .removeRecord) manager blockId).2.2.2
  have content := (dropped_edited manager ref blockId times).heap
  generalize manager.dropped ref blockId times = middle at listed content ⊢
  have title : ((withTemp blockId middle file).heap ref).blockId = blockId := by
    change (middle.heap ref).blockId = blockId
    rw [content, Function.update_self, blockId_retained, name]
  have moved : Edited _ ((withTemp blockId middle file).replaced ref blockId positions) ref _ :=
    replaced_memory (withTemp blockId middle file) ref positions
  rw [finalSteps, run_replaceSteps _ ref positions title]
  have untouched := saveMeta_untouched ((withTemp blockId middle file).replaced ref blockId positions) ref other (by
    rw [moved.heap, Function.update_self, blockId_reposition, title]
    exact different.symm)
  rw [untouched.2.2, ← listed]
  rfl

omit [Codec] in
theorem index_markBlockCorrupted (manager : BlockManager) (blockId : Nat) :
    (manager.markBlockCorrupted blockId).blockIndex = manager.blockIndex.markCorrupted blockId := by
  cases found : manager.disk.desc[blockId]? <;> simp [markBlockCorrupted, removeCached, saveIndex, found]

theorem index_damaged (manager : BlockManager) (ref : BlockRef) (times : List Nat) (file : File) (failure : ReadFailure)
    (eof : failure.unexpectedEof = true) :
    ((finalSteps (.error failure)).foldl (runRemoval ref blockId)
      (withTemp blockId (manager.dropped ref blockId times) file)).blockIndex =
        manager.blockIndex.markCorrupted blockId := by
  have same : (manager.dropped ref blockId times).blockIndex = manager.blockIndex :=
    (appendLog_memory (times.map .removeRecord) manager blockId).2.2.2
  simp only [finalSteps, List.foldl_cons, List.foldl_nil, runRemoval, eof, if_true, index_markBlockCorrupted]
  exact congrArg (BlockIndex.markCorrupted · blockId) same

theorem Steady.run_removal_index (steady : manager.Steady) (cached : manager.Cached blockId ref) (times : List Nat)
    (file : File) (data : manager.disk.data[blockId]? = some file) :
    let after := (manager.removalSteps ref times).foldl (runRemoval ref blockId) manager
    (∀ other : Nat, other ≠ blockId → after.blockIndex[other]? = manager.blockIndex[other]?) ∧
      (after.Lost blockId ↔ (retained (manager.heap ref) times).recordCount ≠ 0 ∧
        ∃ record ∈ (retained (manager.heap ref) times).records, ¬ Readable file record) := by
  intro after
  have name := steady.named blockId ref cached
  have form := removal_form manager ref times file name data
  change RemovalForm _ _ _ _ _ _ after at form
  generalize manager.removalResult (retained (manager.heap ref) times) = reply at form
  generalize after = final at form
  cases form with
  | emptied empty =>
    refine ⟨(steady.isolated_dropped cached times).forget_removed.index, ?_⟩
    simp [lost_iff, removeBlock, walRemove, removeCached, saveIndex, removeBlockFiles, walAppend, empty]
  | compacted tail kept readable =>
    obtain ⟨finalSteady, view, _⟩ := steady.run_compacted cached times
      (Placement.contents (contentsOf file (retained (manager.heap ref) times).records) ++ tail)
    refine ⟨index_compacted manager ref times _ name, iff_of_false (InService.not_lost ?_) (fun both => ?_)⟩
    · exact (finalSteady.served_iff blockId).mpr ⟨_, (congrFun view blockId).trans (Function.update_self ..)⟩
    · obtain ⟨_, record, member, short⟩ := both
      exact short (readable record member)
  | damaged temp failure eof kept short =>
    obtain ⟨entry, found, _⟩ := (inService_iff manager blockId).mp (steady.served blockId ref cached)
    rw [index_damaged manager ref times temp failure eof, BlockIndex.markCorrupted, found]
    refine ⟨fun other different => by rw [get_insert, if_neg different], iff_of_true ?_ ⟨kept, short⟩⟩
    rw [lost_iff, index_damaged manager ref times temp failure eof, BlockIndex.markCorrupted, found]
    exact ⟨_, by rw [get_insert, if_pos rfl], rfl⟩

end Removal

section Missing

variable {manager : BlockManager} {blockId : Nat}

theorem Stocked.load_missing (stocked : manager.Stocked) (outside : ¬ manager.InService blockId)
    (unmarked : ¬ manager.Lost blockId) :
    ∃ failure after, manager.loadBlock blockId = (.error failure, after) ∧ after.Stocked ∧ after.view = manager.view ∧
      after.disk.data = manager.disk.data ∧ after.blockIndex = manager.blockIndex := by
  have missing : manager.blockIndex[blockId]? = none := by
    by_contra listed
    exact (served_or_lost listed).elim outside unmarked
  have uncached : manager.getRead blockId = none := by
    cases found : manager.getRead blockId with
    | none => rfl
    | some ref => exact absurd (stocked.served blockId ref ((stocked.toWired.getRead_iff blockId ref).mp found)) outside
  rw [loadBlock, uncached]
  cases manager.disk.desc[blockId]? with
  | some proto =>
    simp only [missing]
    exact ⟨_, manager, rfl, stocked, rfl, rfl, rfl⟩
  | none =>
    have isolated : Isolated manager manager blockId := ⟨fun _ _ _ _ => rfl, rfl, rfl, rfl, rfl, rfl⟩
    obtain ⟨steady, view⟩ := (isolated.forget_corrupted stocked.toSteady).steady stocked.toSteady
    have same : (manager.markBlockCorrupted blockId).view = manager.view := by
      rw [view, Function.update_eq_self_iff, (stocked.toSteady.view_none blockId).mpr outside]
    have data := markBlockCorrupted_data manager blockId
    refine ⟨_, _, rfl, stocked.forget steady view (fun other _ => by rw [data]), same, data, ?_⟩
    rw [index_markBlockCorrupted, BlockIndex.markCorrupted, missing]

end Missing

structure Alike (first second : BlockManager) : Prop where
  view : second.view = first.view
  lost : ∀ blockId, second.Lost blockId ↔ first.Lost blockId
  bytes : ∀ blockId block time record, first.view blockId = some block → block.getRecord time = some record →
    File.range (second.dataOf blockId) record.beginPos record.endPos =
      File.range (first.dataOf blockId) record.beginPos record.endPos

section Alike

variable {first second changed other : BlockManager} {blockId : Nat} {block : Block}

omit [Codec] in
theorem Alike.refl (manager : BlockManager) : Alike manager manager := ⟨rfl, fun _ => Iff.rfl, fun _ _ _ _ _ _ => rfl⟩

omit [Codec] in
theorem Alike.trans {third : BlockManager} (left : Alike first second) (right : Alike second third) : Alike first third where
  view := right.view.trans left.view
  lost := fun blockId => (right.lost blockId).trans (left.lost blockId)
  bytes := fun blockId block time record seen found =>
    (right.bytes blockId block time record (by rw [left.view]; exact seen) found).trans
      (left.bytes blockId block time record seen found)

omit [Codec] in
theorem Alike.symm (alike : Alike first second) : Alike second first where
  view := alike.view.symm
  lost := fun blockId => (alike.lost blockId).symm
  bytes := fun blockId block time record seen found =>
    (alike.bytes blockId block time record (by rw [← alike.view]; exact seen) found).symm

omit [Codec] in
theorem alike_quiet {manager after : BlockManager} (view : after.view = manager.view)
    (index : after.blockIndex = manager.blockIndex) (data : after.disk.data = manager.disk.data) : Alike manager after where
  view := view
  lost := fun blockId => by rw [Lost, Lost, index]
  bytes := fun _ _ _ _ _ _ => by rw [dataOf, dataOf, data]

theorem Changed.lost_iff (change : Changed first changed blockId block) (sound : first.Sound)
    (served : first.InService blockId) (id : Nat) : changed.Lost id ↔ first.Lost id := by
  refine change.run.lost_iff (change.run.sound sound).toSteady id (fun none => ?_) sound.toSteady
  have different : id ≠ blockId := by
    rintro rfl
    exact (sound.toSteady.view_none id).mp none served
  rw [change.view, Function.update_of_ne different]
  exact none

theorem Alike.change (alike : Alike first second) (firstSound : first.Sound) (secondSound : second.Sound)
    {old : Block} (seen : first.view blockId = some old) (firstChange : Changed first changed blockId block)
    (secondChange : Changed second other blockId block)
    (places : ∀ time record, block.getRecord time = some record → ∃ stored, old.getRecord time = some stored ∧
      stored.SamePlace record) : Alike changed other where
  view := by rw [firstChange.view, secondChange.view, alike.view]
  lost := fun id => by
    have served := (firstSound.toSteady.served_iff blockId).mpr ⟨old, seen⟩
    have again := (secondSound.toSteady.served_iff blockId).mpr ⟨old, by rw [alike.view]; exact seen⟩
    rw [firstChange.lost_iff firstSound served, secondChange.lost_iff secondSound again, alike.lost]
  bytes := fun id found time record present held => by
    rw [dataOf, dataOf, firstChange.data, secondChange.data]
    rw [firstChange.view] at present
    by_cases own : id = blockId
    · subst own
      rw [Function.update_self, Option.some.injEq] at present
      subst present
      obtain ⟨stored, kept, begins, ends⟩ := places time record held
      rw [← begins, ← ends]
      exact alike.bytes id old time stored seen kept
    · rw [Function.update_of_ne own] at present
      exact alike.bytes id found time record present held

theorem Stocked.finishes {manager : BlockManager} (stocked : manager.Stocked) (blockId : Nat) (state : RecordState)
    (time : Nat) (unmarked : ¬ manager.Lost blockId) :
    let after := (manager.finishWriteRecord blockId state time).2
    after.Stocked ∧
      ((∃ block record, manager.view blockId = some block ∧ block.getRecord time = some record ∧
          Changed manager after blockId
            (block.modifyRecord time (Record.withState state) (Record.timestamp_withState state))) ∨
        (manager.view blockId).bind (·.getRecord time) = none ∧ Alike manager after) := by
  intro after
  cases seen : manager.view blockId with
  | none =>
    have outside := (stocked.toSteady.view_none blockId).mp seen
    obtain ⟨failure, loaded, result, kept, view, data, index⟩ := stocked.load_missing outside unmarked
    have unwritten : manager.getWrite blockId = none := by
      cases found : manager.getWrite blockId with
      | none => rfl
      | some ref => exact absurd (stocked.served blockId ref (Or.inl found)) outside
    have final : after = loaded := by
      simp only [after, BlockManager.finishWriteRecord, blockToFinish, unwritten, result]
    rw [final]
    exact ⟨kept, Or.inr ⟨rfl, alike_quiet view index data⟩⟩
  | some block =>
    rcases stocked.toSound.finishWriteRecord seen state time with
      ⟨record, final, found, done, changed⟩ | ⟨ref, final, absent, failed, loaded⟩
    · have same : after = final := by simp only [after, done]
      rw [same]
      refine ⟨stocked.update (changed.run.sound stocked.toSound) (changed.run.present stocked.toSound stocked.present)
        ((stocked.filled _ block seen).withState _ state record found) changed.view, Or.inl ?_⟩
      exact ⟨block, record, rfl, found, changed⟩
    · have same : after = final := by simp only [after, failed]
      have quiet := loaded.quiet stocked.toSteady
      rw [same]
      exact ⟨stocked.same quiet.run quiet.view,
        Or.inr ⟨by simpa using absent, alike_quiet quiet.view quiet.index (by rw [quiet.disk])⟩⟩

theorem Alike.finish (alike : Alike first second) (firstStocked : first.Stocked) (secondStocked : second.Stocked)
    (blockId : Nat) (state : RecordState) (time : Nat) (unmarked : ¬ first.Lost blockId) :
    (first.finishWriteRecord blockId state time).2.Stocked ∧ (second.finishWriteRecord blockId state time).2.Stocked ∧
      Alike (first.finishWriteRecord blockId state time).2 (second.finishWriteRecord blockId state time).2 := by
  obtain ⟨left, leftCases⟩ := firstStocked.finishes blockId state time unmarked
  obtain ⟨right, rightCases⟩ := secondStocked.finishes blockId state time (by rw [alike.lost]; exact unmarked)
  refine ⟨left, right, ?_⟩
  rw [alike.view] at rightCases
  rcases leftCases with ⟨block, record, seen, found, changed⟩ | ⟨none, quiet⟩
  · rcases rightCases with ⟨again, _, same, _, otherChanged⟩ | ⟨none, _⟩
    · obtain rfl := Option.some.inj (seen.symm.trans same)
      refine alike.change firstStocked.toSound secondStocked.toSound seen changed otherChanged fun other stored held => ?_
      rw [Block.getRecord_modifyRecord] at held
      split_ifs at held with own
      · obtain ⟨old, kept, rfl⟩ := Option.map_eq_some_iff.mp held
        exact ⟨old, own ▸ kept, rfl, rfl⟩
      · exact ⟨stored, held, rfl, rfl⟩
    · simp [seen, found] at none
  · rcases rightCases with ⟨block, record, seen, found, _⟩ | ⟨_, otherQuiet⟩
    · simp [seen, found] at none
    · exact (quiet.symm.trans alike).trans otherQuiet

structure Removes (before : BlockManager) (blockId : Nat) (block : Block) (file : File) (after : BlockManager) : Prop where
  outcome : ∃ result, RemovalOutcome before blockId block file result after
  data : ∀ other : Nat, other ≠ blockId → after.disk.data[other]? = before.disk.data[other]?
  index : ∀ other : Nat, other ≠ blockId → after.blockIndex[other]? = before.blockIndex[other]?
  lost : after.Lost blockId ↔ block.recordCount ≠ 0 ∧ ∃ record ∈ block.records, ¬ Readable file record

omit [Codec] in
theorem RemovalOutcome.congr {before middle after : BlockManager} {file : File} {result : Except ReductError Unit}
    (outcome : RemovalOutcome middle blockId block file result after) (same : middle.view = before.view) :
    RemovalOutcome before blockId block file result after := by
  cases outcome with
  | emptied empty view => exact .emptied empty (same ▸ view)
  | damaged kept short view => exact .damaged kept short (same ▸ view)
  | compacted tail kept readable view data => exact .compacted tail kept readable (same ▸ view) data

theorem Stocked.removes {manager : BlockManager} (stocked : manager.Stocked) (seen : manager.view blockId = some block)
    (times : List Nat) :
    ∃ file, manager.disk.data[blockId]? = some file ∧
      Removes manager blockId (retained block times) file (manager.removeRecords blockId times).2 := by
  have served := (stocked.toSteady.served_iff blockId).mpr ⟨block, seen⟩
  obtain ⟨ref, middle, result, loaded⟩ := stocked.toSteady.load blockId served
  have quiet := loaded.quiet stocked.toSteady
  have middleStocked := stocked.same quiet.run quiet.view
  have content := middleStocked.toSteady.cached_view loaded.cached
  rw [quiet.view, seen, Option.some.injEq] at content
  obtain ⟨file, data⟩ := middleStocked.present blockId (middleStocked.served blockId ref loaded.cached)
  obtain ⟨_, others, outcome⟩ := middleStocked.toSteady.run_removal loaded.cached times file data
  obtain ⟨index, lost⟩ := middleStocked.toSteady.run_removal_index loaded.cached times file data
  rw [content]
  rw [quiet.disk] at data
  refine ⟨file, data, ?_⟩
  simp only [BlockManager.removeRecords, result]
  refine ⟨⟨_, outcome.congr quiet.view⟩, fun other different => ?_, fun other different => ?_, lost⟩
  · rw [others other different, quiet.disk]
  · rw [index other different, quiet.index]

omit [Codec] in
theorem readable_congr {left right : File} {record : Record}
    (same : File.range right record.beginPos record.endPos = File.range left record.beginPos record.endPos) :
    Readable right record ↔ Readable left record := by
  have lengths := congrArg List.length same
  rw [length_range, length_range] at lengths
  simp only [Readable]
  omega

omit [Codec] in
theorem range_compact {file tail : File} (readable : ∀ record ∈ block.records, Readable file record) {time : Nat}
    {record : Record} (found : block.compact.getRecord time = some record) :
    ∃ old, block.getRecord time = some old ∧
      File.range (Placement.contents (contentsOf file block.records) ++ tail) record.beginPos record.endPos =
        File.range file old.beginPos old.endPos := by
  obtain ⟨old, begins, ends, stored, placed, rfl⟩ := (Block.getRecord_compact block time record).mp found
  exact ⟨old, stored, range_compacted block file tail readable (time, begins, ends) placed old stored⟩

omit [Codec] in
theorem Removes.shape {manager after : BlockManager} {file : File} (removes : Removes manager blockId block file after) :
    (block.recordCount = 0 ∨ (∃ record ∈ block.records, ¬ Readable file record)) ∧
        after.view = Function.update manager.view blockId none ∨
      (block.recordCount ≠ 0 ∧ ∀ record ∈ block.records, Readable file record) ∧
        after.view = Function.update manager.view blockId (some block.compact) ∧
        ∀ time record, block.compact.getRecord time = some record →
          ∃ old, block.getRecord time = some old ∧
            File.range (after.dataOf blockId) record.beginPos record.endPos =
              File.range file old.beginPos old.endPos := by
  obtain ⟨result, outcome⟩ := removes.outcome
  cases outcome with
  | emptied empty view => exact Or.inl ⟨Or.inl empty, view⟩
  | damaged kept short view => exact Or.inl ⟨Or.inr short, view⟩
  | compacted tail kept readable view data =>
    refine Or.inr ⟨⟨kept, readable⟩, view, fun time record found => ?_⟩
    rw [dataOf, data, Option.getD_some]
    exact range_compact readable found

omit [Codec] in
theorem Removes.alike {left right : File} (removed : Removes first blockId block left changed)
    (again : Removes second blockId block right other) (alike : Alike first second)
    (places : ∀ time record, block.getRecord time = some record →
      File.range right record.beginPos record.endPos = File.range left record.beginPos record.endPos) :
    Alike changed other := by
  have readable (record : Record) (member : record ∈ block.records) : Readable right record ↔ Readable left record :=
    readable_congr (places _ record ((Block.mem_records block record).mp member))
  have short : (∃ record ∈ block.records, ¬ Readable right record) ↔ ∃ record ∈ block.records, ¬ Readable left record :=
    exists_congr fun record => and_congr_right fun member => not_congr (readable record member)
  have whole : (∀ record ∈ block.records, Readable right record) ↔ ∀ record ∈ block.records, Readable left record :=
    forall₂_congr readable
  have lost (id : Nat) : other.Lost id ↔ changed.Lost id := by
    by_cases own : id = blockId
    · rw [own, removed.lost, again.lost, short]
    · have same := alike.lost id
      simp only [lost_iff, removed.index id own, again.index id own] at same ⊢
      exact same
  have elsewhere (id : Nat) (different : id ≠ blockId) (found : Block) (time : Nat) (record : Record)
      (seen : first.view id = some found) (held : found.getRecord time = some record) :
      File.range (other.dataOf id) record.beginPos record.endPos =
        File.range (changed.dataOf id) record.beginPos record.endPos := by
    rw [dataOf, dataOf, removed.data id different, again.data id different]
    exact alike.bytes id found time record seen held
  have shape := again.shape
  rw [short, whole, alike.view] at shape
  rcases removed.shape with ⟨gone, view⟩ | ⟨⟨kept, all⟩, view, bytes⟩
  · rcases shape with ⟨_, otherView⟩ | ⟨⟨kept, all⟩, _⟩
    · refine ⟨by rw [view, otherView], lost, fun id found time record seen held => ?_⟩
      rw [view] at seen
      have different : id ≠ blockId := by
        rintro rfl
        simp at seen
      rw [Function.update_of_ne different] at seen
      exact elsewhere id different found time record seen held
    · rcases gone with empty | ⟨record, member, unreadable⟩
      · exact absurd empty kept
      · exact absurd (all record member) unreadable
  · rcases shape with ⟨gone, _⟩ | ⟨_, otherView, otherBytes⟩
    · rcases gone with empty | ⟨record, member, unreadable⟩
      · exact absurd empty kept
      · exact absurd (all record member) unreadable
    · refine ⟨by rw [view, otherView], lost, fun id found time record seen held => ?_⟩
      rw [view] at seen
      by_cases own : id = blockId
      · subst own
        rw [Function.update_self, Option.some.injEq] at seen
        subst seen
        obtain ⟨old, stored, same⟩ := bytes time record held
        obtain ⟨again, kept, otherSame⟩ := otherBytes time record held
        obtain rfl := Option.some.inj (stored.symm.trans kept)
        rw [same, otherSame]
        exact places time old stored
      · rw [Function.update_of_ne own] at seen
        exact elsewhere id own found time record seen held

theorem Stocked.remove_service {manager : BlockManager} (stocked : manager.Stocked) (blockId : Nat) (times : List Nat)
    (unmarked : ¬ manager.Lost blockId) (id : Nat) (unseen : manager.view id = none) :
    (manager.removeRecords blockId times).2.view id = none := by
  cases seen : manager.view blockId with
  | none =>
    obtain ⟨_, after, result, _, view, _⟩ := stocked.load_missing ((stocked.toSteady.view_none blockId).mp seen) unmarked
    simp only [BlockManager.removeRecords, result]
    rw [view, unseen]
  | some block =>
    have different : id ≠ blockId := by
      rintro rfl
      simp [seen] at unseen
    obtain ⟨_, _, removes⟩ := stocked.removes seen times
    rcases removes.shape with ⟨_, view⟩ | ⟨_, view, _⟩
    · rw [view, Function.update_of_ne different, unseen]
    · rw [view, Function.update_of_ne different, unseen]

theorem Changed.service {manager after : BlockManager} (changed : Changed manager after blockId block) {old : Block}
    (seen : manager.view blockId = some old) (id : Nat) (unseen : manager.view id = none) : after.view id = none := by
  have different : id ≠ blockId := by
    rintro rfl
    simp [seen] at unseen
  rw [changed.view, Function.update_of_ne different, unseen]

theorem Alike.remove (alike : Alike first second) (firstStocked : first.Stocked) (secondStocked : second.Stocked)
    (blockId : Nat) (times : List Nat) (unmarked : ¬ first.Lost blockId) :
    (first.removeRecords blockId times).2.Stocked ∧ (second.removeRecords blockId times).2.Stocked ∧
      Alike (first.removeRecords blockId times).2 (second.removeRecords blockId times).2 := by
  cases seen : first.view blockId with
  | none =>
    obtain ⟨_, left, result, kept, view, data, index⟩ := firstStocked.load_missing
      ((firstStocked.toSteady.view_none blockId).mp seen) unmarked
    obtain ⟨_, right, otherResult, otherKept, otherView, otherData, otherIndex⟩ := secondStocked.load_missing
      ((secondStocked.toSteady.view_none blockId).mp (by rw [alike.view]; exact seen)) (by rw [alike.lost]; exact unmarked)
    simp only [removeRecords, result, otherResult]
    exact ⟨kept, otherKept, ((alike_quiet view index data).symm.trans alike).trans (alike_quiet otherView otherIndex otherData)⟩
  | some block =>
    have again : second.view blockId = some block := by rw [alike.view]; exact seen
    obtain ⟨left, leftData, removes⟩ := firstStocked.removes seen times
    obtain ⟨right, rightData, otherRemoves⟩ := secondStocked.removes again times
    refine ⟨firstStocked.removeRecords blockId times ((firstStocked.toSteady.served_iff blockId).mpr ⟨block, seen⟩),
      secondStocked.removeRecords blockId times ((secondStocked.toSteady.served_iff blockId).mpr ⟨block, again⟩),
      removes.alike otherRemoves alike fun time record found => ?_⟩
    rw [getRecord_retained] at found
    split_ifs at found
    have bytes := alike.bytes blockId block time record seen found
    rwa [dataOf, dataOf, leftData, rightData] at bytes

theorem Stocked.replaces {manager : BlockManager} (stocked : manager.Stocked) {time : Nat} {record replacement : Record}
    (seen : manager.view blockId = some block) (found : block.getRecord time = some record)
    (stamped : replacement.timestamp = time) (place : record.SamePlace replacement) :
    (manager.updateRecords blockId [replacement]).2.Stocked ∧
      Changed manager (manager.updateRecords blockId [replacement]).2 blockId (block.insertOrUpdateRecord replacement) := by
  obtain ⟨after, result, changed⟩ := stocked.toSound.updateRecords seen [replacement]
  have filled := stocked.filled blockId block seen
  rw [result]
  subst stamped
  refine ⟨stocked.update (changed.run.sound stocked.toSound) (changed.run.present stocked.toSound stocked.present)
    (filled.insert replacement (filled.later _ record found) ?_) changed.view, changed⟩
  exact filled.toLayout.replace replacement record found place.1.symm place.2.symm

theorem Alike.replace (alike : Alike first second) (firstStocked : first.Stocked) (secondStocked : second.Stocked)
    {time : Nat} {record replacement : Record} (seen : first.view blockId = some block)
    (found : block.getRecord time = some record) (stamped : replacement.timestamp = time)
    (place : record.SamePlace replacement) :
    (first.updateRecords blockId [replacement]).2.Stocked ∧ (second.updateRecords blockId [replacement]).2.Stocked ∧
      Alike (first.updateRecords blockId [replacement]).2 (second.updateRecords blockId [replacement]).2 := by
  have again : second.view blockId = some block := by rw [alike.view]; exact seen
  obtain ⟨left, changed⟩ := firstStocked.replaces seen found stamped place
  obtain ⟨right, otherChanged⟩ := secondStocked.replaces again found stamped place
  refine ⟨left, right, alike.change firstStocked.toSound secondStocked.toSound seen changed otherChanged ?_⟩
  intro other stored held
  rw [Block.getRecord_insertOrUpdate, stamped] at held
  split_ifs at held with own
  · obtain rfl := Option.some.inj held
    exact ⟨record, own ▸ found, place⟩
  · exact ⟨stored, held, rfl, rfl⟩

end Alike

end ReductStore.BlockManager
